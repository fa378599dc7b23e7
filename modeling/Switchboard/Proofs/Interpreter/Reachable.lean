import Switchboard.Proofs.Interpreter.Attachment

/-!
# Switchboard.Proofs.Interpreter.Reachable

What one step can do, and the interpreters that operations lead to.

1. `asked?` is the command that the current line has for the host.  A step
   either executes a line without the host, or follows its answer.
2. A step goes on only if the script runs and needs what it needed before.  It
   pauses a script that still runs for two reasons only: the host said so, or
   the needs have changed (`pause_of_running`).
3. `Reachable` are the interpreters that come out of a new one by any sequence
   of operations.  `Reachable.sound` says of each that its frames are stacked if it
   has an image, within its limits, and that it has neither frames nor a script if
   it has none.
-/

namespace Switchboard.Interpreter

variable {σ : Type} {s : Interpreter} {host : Host σ} {world : σ}

/-! ## one step -/

/-- The command of the line at which a script stands. -/
def command? (s : Interpreter) : Option Command := do
  let frame ← s.top?
  let image ← s.image
  let header ← image.headerAt? frame.header
  let line ← header.lines[frame.line]?
  return line.command

/-- The command that the current line has for the host. -/
def asked? (s : Interpreter) : Option (String × List String) :=
  if s.isRunning then
    s.image.bind fun image =>
      match s.execute image with
      | .ask command args => some (command, args)
      | _ => none
  else none

/-- The outcome of a line once the host has answered, if it was asked. -/
def outcomeWith (s : Interpreter) (image : Image) (host : Host σ) (world : σ) : Outcome × σ :=
  match s.execute image with
  | .ask command args =>
    let (action, world) := host.execute command args world
    (s.answered command action, world)
  | outcome => (outcome, world)

/-- A step settles the outcome of the current line. -/
theorem step_of_running {image : Image} (host : Host σ) (world : σ) (hr : s.isRunning = true)
    (hi : s.image = some image) : s.step host world =
      let r := s.outcomeWith image host world
      let after := s.settled r.1
      ⟨after.1, r.2, signalAfter s.mask after.1 after.2.1, after.2.2⟩ := by
  unfold step
  simp only [hr, hi, if_true]
  unfold outcomeWith
  rfl

/-- Without a script that runs, a step does nothing. -/
theorem step_of_not_running (host : Host σ) (world : σ) (hr : s.isRunning = false) :
    s.step host world = ⟨s, world, .pause, none⟩ := by
  unfold step
  rw [if_neg (by simp [hr])]

/-- The line of a script that runs asks the host exactly if its outcome says so. -/
theorem execute_of_asked {command : String} {args : List String}
    (h : s.asked? = some (command, args)) :
    s.isRunning = true ∧ ∃ image, s.image = some image ∧ s.execute image = .ask command args := by
  unfold asked? at h
  split at h
  · next hr =>
      obtain ⟨image, hi, h⟩ := Option.bind_eq_some_iff.mp h
      refine ⟨hr, image, hi, ?_⟩
      split at h
      · next c a he =>
          obtain ⟨rfl, rfl⟩ := Prod.mk.inj (Option.some.inj h)
          exact he
      · contradiction
  · contradiction

theorem asked_of_execute {image : Image} {command : String} {args : List String}
    (hr : s.isRunning = true) (hi : s.image = some image)
    (he : s.execute image = .ask command args) : s.asked? = some (command, args) := by
  simp [asked?, hr, hi, he]

/-- A step leaves the host's world alone unless its line has a command for it. -/
theorem world_step (s : Interpreter) (host : Host σ) (world : σ) :
    (s.step host world).world = (match s.asked? with
      | some (command, args) => (host.execute command args world).2
      | none => world) := by
  cases hr : s.isRunning with
  | false => simp [step_of_not_running host world hr, asked?, hr]
  | true =>
      cases hi : s.image with
      | none => simp [step, asked?, hr, hi]
      | some image =>
          rw [step_of_running host world hr hi]
          unfold outcomeWith asked?
          simp only [hr, hi, if_true, Option.bind_some]
          split <;> split <;> simp_all

/-! ## the needs of a script -/

@[simp] theorem mask_advance (s : Interpreter) : s.advance.mask = s.mask := by
  unfold advance modifyTop mask top?
  split <;> simp [*]

@[simp] theorem isRunning_advance (s : Interpreter) : s.advance.isRunning = s.isRunning := by
  unfold advance modifyTop isRunning
  split <;> rfl

/-- A step after which to go on leaves a script that runs and needs what it
needed before. -/
theorem running_of_proceed (h : (s.step host world).signal = .proceed) :
    (s.step host world).state.isRunning = true ∧ (s.step host world).state.mask = s.mask := by
  cases hr : s.isRunning with
  | false => simp [step_of_not_running host world hr] at h
  | true =>
      cases hi : s.image with
      | none => simp [step, hr, hi] at h
      | some image =>
          rw [step_of_running host world hr hi] at h ⊢
          dsimp only at h ⊢
          unfold signalAfter at h
          split at h
          · split at h
            · assumption
            · contradiction
          · contradiction

/-- After a command for the host comes the next line. -/
theorem advance_of_asking {image : Image} {command : String}
    (h : Asking image s.frames command) : Course image s s.advance := by
  obtain ⟨f, below, header, l, args, hs, hf, hl, hc⟩ := h
  exact advance_course hs hf hl (by simp [hc, Command.bracket]) (by simp [hc, Command.bracket])

/-- The outcome of a line with the host's answer is that of a line, unless the
host let the script wait. -/
theorem outcomeWith_along (image : Image) (host : Host σ) (world : σ) (hs : s.frames ≠ []) :
    ((s.outcomeWith image host world).1.Along image s.frames s ∧
        ∀ c args, (s.outcomeWith image host world).1 ≠ .ask c args) ∨
      ∃ command args, s.execute image = .ask command args ∧
        (host.execute command args world).1 = some .suspend ∧
        (s.outcomeWith image host world).1 = .pause s.advance ∧ Course image s s.advance := by
  have halong := execute_along image hs
  unfold outcomeWith
  split
  · next command args he =>
      rw [he] at halong
      have hnext := advance_of_asking halong
      have hself := Course.refl image s
      dsimp only
      cases ha : (host.execute command args world).1 with
      | none => exact .inl ⟨⟨hself, by simp⟩, by simp [answered]⟩
      | some action =>
          cases action with
          | proceed => exact .inl ⟨hnext, by simp [answered]⟩
          | suspend => exact .inr ⟨command, args, he, ha, rfl, hnext⟩
          | exit reason => exact .inl ⟨⟨s, _, hself, rfl⟩, by simp [answered]⟩
          | fail reason => exact .inl ⟨⟨hself, by simp⟩, by simp [answered]⟩
          | abort => exact .inl ⟨⟨hself, by simp⟩, by simp [answered]⟩
  · next hne => exact .inl ⟨halong, fun c args h => hne c args h⟩

/-- What a step makes of a script that runs. -/
theorem step_successor {image : Image} (host : Host σ) (world : σ) (hr : s.isRunning = true)
    (hi : s.image = some image) (hs : s.frames ≠ []) :
    Successor image s (s.step host world).state := by
  have hstatus : s.status = .running := by simpa [isRunning] using hr
  rw [step_of_running host world hr hi]
  rcases outcomeWith_along image host world hs with ⟨h, -⟩ | ⟨_, _, _, _, h, hnext⟩
  · exact settled_successor h hstatus hi
  · simp only [h, settled]
    exact .of_course hnext hstatus

/-- The host let the script wait: it stands at the next line. -/
theorem step_of_suspend {command : String} {args : List String}
    (h : s.asked? = some (command, args))
    (ha : (host.execute command args world).1 = some .suspend) :
    s.step host world = ⟨s.advance, (host.execute command args world).2, .pause, none⟩ := by
  obtain ⟨hr, image, hi, he⟩ := execute_of_asked h
  rw [step_of_running host world hr hi]
  simp [outcomeWith, he, ha, answered, settled, signalAfter]

/-- A script that still runs was paused by the host, or because it needs
something else now. -/
theorem pause_of_running (hs : s.frames ≠ []) (ha : s.image.isSome)
    (hp : (s.step host world).signal = .pause)
    (hr : (s.step host world).state.isRunning = true) :
    (∃ command args, s.asked? = some (command, args) ∧
        (host.execute command args world).1 = some .suspend) ∨
      (s.step host world).state.mask ≠ s.mask := by
  obtain ⟨image, hi⟩ := Option.isSome_iff_exists.mp ha
  cases hrun : s.isRunning with
  | false => simp [step_of_not_running host world hrun, hrun] at hr
  | true =>
      rw [step_of_running host world hrun hi] at hp hr ⊢
      dsimp only at hp hr ⊢
      rcases outcomeWith_along image host world hs with ⟨h, hne⟩ | ⟨c, args, he, hsus, -⟩
      · refine .inr fun hm => ?_
        cases hsig : (s.settled (s.outcomeWith image host world).1).2.1 with
        | proceed => simp [hsig, signalAfter, hr, hm] at hp
        | pause => simp [isRunning_settled h hne hsig] at hr
        | broke => simp [hsig, signalAfter] at hp
      · exact .inl ⟨c, args, asked_of_execute hrun hi he, hsus⟩

/-- A step that finds a fault which no script can handle leaves a script that runs. -/
theorem running_of_broke (hs : s.frames ≠ []) (hb : (s.step host world).signal = .broke) :
    (s.step host world).state.isRunning = true := by
  cases hr : s.isRunning with
  | false => simp [step_of_not_running host world hr] at hb
  | true =>
      cases hi : s.image with
      | none => simp [step, hr, hi] at hb
      | some image =>
          rw [step_of_running host world hr hi] at hb ⊢
          dsimp only at hb ⊢
          rcases outcomeWith_along image host world hs with ⟨h, -⟩ | ⟨_, _, _, _, h, -⟩
          · refine isRunning_settled_of_broke h hr ?_
            unfold signalAfter at hb
            split at hb
            · split at hb <;> contradiction
            · exact hb
          · simp [h, settled, signalAfter] at hb

/-! ## reachable interpreters -/

/-- Giving a symbol a value changes symbols only. -/
theorem symbols_of_setSymbol {name value : String} {t : Interpreter}
    (h : s.setSymbol name value = .ok t) : ∃ symbols, t = { s with symbols } := by
  unfold setSymbol Except.map at h
  split at h
  · contradiction
  · exact ⟨_, (Except.ok.inj h).symm⟩

/-- How image, frames and status go together. -/
structure Sound (s : Interpreter) : Prop where
  stacked : ∀ image, s.image = some image → Stacked image s.frames
  bare : s.image = none → s.frames = []
  detached : s.image = none ↔ s.status = .detached
  room : s.depth ≤ max 1 s.limits.maxFrames
  ended : ∀ reason, s.status = .exited reason → s.depth = 1

namespace Sound

theorem new (limits : Limits) : Sound (.new limits) :=
  ⟨by simp [Interpreter.new], fun _ => rfl, by simp [Interpreter.new],
    by simp [Interpreter.new, depth], by simp [Interpreter.new]⟩

theorem detach (s : Interpreter) : Sound s.detach :=
  ⟨by simp [Interpreter.detach], fun _ => rfl, by simp [Interpreter.detach],
    by simp [Interpreter.detach, depth], by simp [Interpreter.detach]⟩

/-- A script that runs has an image, and frames. -/
theorem attached (h : Sound s) (hr : s.isRunning = true) : s.image.isSome := by
  cases hi : s.image with
  | some image => rfl
  | none => simp [isRunning, h.detached.mp hi] at hr

theorem ne_nil (h : Sound s) (ha : s.image.isSome) : s.frames ≠ [] := by
  obtain ⟨image, hi⟩ := Option.isSome_iff_exists.mp ha
  exact (h.stacked image hi).ne_nil

/-- A script that begins has its first frame only. -/
theorem frames_attach (h : Sound s) {image : Image} {entry : Option String} {i : Nat}
    (hi : image.indexOf? (entry.getD defaultEntry) = some i) :
    (s.attach image entry).1.frames = [.base i (image.maskAt i)] := by
  unfold Interpreter.attach
  rw [hi]
  dsimp only
  split
  · rfl
  · next hs =>
      have hn : s.image = none := by simpa [isAttached] using hs
      simp [h.bare hn]

theorem attach (h : Sound s) (image : Image) (entry : Option String) :
    Sound (s.attach image entry).1 := by
  cases hi : image.indexOf? (entry.getD defaultEntry) with
  | none => simpa [Interpreter.attach, hi] using h
  | some i =>
      have himage : (s.attach image entry).1.image = some image := by simp [Interpreter.attach, hi]
      have hstatus : (s.attach image entry).1.status = .running := by simp [Interpreter.attach, hi]
      have hframes := h.frames_attach hi
      refine ⟨fun image' hi' => ?_, fun hn => ?_, ?_, ?_, fun reason he => ?_⟩
      · obtain rfl : image = image' := Option.some.inj (himage.symm.trans hi')
        rw [hframes]
        exact .entry hi
      · simp [himage] at hn
      · simp [himage, hstatus]
      · rw [depth, hframes]
        exact Nat.le_max_left _ _
      · simp [hstatus] at he

/-- What becomes of a script that runs is sound. -/
theorem successor (h : Sound s) {image : Image} {t : Interpreter}
    (hi : s.image = some image) (ht : Successor image s t) : Sound t := by
  have hstacked := h.stacked image hi
  have himage : t.image = some image := ht.image.trans hi
  refine ⟨fun image' hi' => ?_, fun hn => by simp [himage] at hn, ?_, ?_, fun reason he => ?_⟩
  · obtain rfl : image = image' := Option.some.inj (himage.symm.trans hi')
    exact ht.stacked hstacked
  · obtain ⟨frames, -, hc⟩ := ht.course
    cases hc with
    | onward hs _ | trapped hs _ | ended _ hs _ => simp [himage, hs]
  · have hlen := ht.length_le hstacked
    have hroom := h.room
    unfold depth at hroom ⊢
    rw [ht.limits]
    omega
  · obtain ⟨frames, hmoves, hc⟩ := ht.course
    cases hc with
    | onward hs _ | trapped hs _ => simp [hs] at he
    | ended _ _ hf =>
        rw [depth, hf]
        exact (hstacked.moves hmoves).drop.2

theorem step (h : Sound s) (host : Host σ) (world : σ) : Sound (s.step host world).state := by
  cases hr : s.isRunning with
  | false => rwa [step_of_not_running host world hr]
  | true =>
      have ha := h.attached hr
      obtain ⟨image, hi⟩ := Option.isSome_iff_exists.mp ha
      exact h.successor hi (step_successor host world hr hi (h.ne_nil ha))

theorem error (h : Sound s) (text : String) : Sound (s.error text).state := by
  cases hr : s.isRunning with
  | false => simpa [Interpreter.error, hr] using h
  | true =>
      obtain ⟨image, hi⟩ := Option.isSome_iff_exists.mp (h.attached hr)
      have hstatus : s.status = .running := by simpa [isRunning] using hr
      exact h.successor hi (.error (.refl image s) hstatus hi text)

theorem trigger (h : Sound s) (event : String) : Sound (s.trigger event).1 := by
  unfold Interpreter.trigger
  split
  · next hr =>
      split
      · next frames hf =>
          obtain ⟨image, hi, hf⟩ := Option.bind_eq_some_iff.mp hf
          have hstatus : s.status = .running := by simpa [isRunning] using hr
          refine ⟨fun image' hi' => ?_, fun hn => by simp [hi] at hn, h.detached, ?_,
            fun reason he => by simp [hstatus] at he⟩
          · obtain rfl : image = image' := Option.some.inj (hi.symm.trans hi')
            exact (h.stacked image hi).dispatched? hf
          · obtain ⟨f, below, line, hsuffix, -, -, ht⟩ := dispatched?_spec hf
            have hlen := hsuffix.length_le
            have hroom := h.room
            rw [depth, ht]
            exact Nat.le_trans hlen hroom
      · exact h
  · exact h

/-- Symbols do not matter. -/
theorem withSymbols (h : Sound s) (symbols : Symbols) : Sound { s with symbols } :=
  ⟨h.stacked, h.bare, h.detached, h.room, h.ended⟩

theorem setSymbol (h : Sound s) {name value : String} {t : Interpreter}
    (ht : s.setSymbol name value = .ok t) : Sound t := by
  obtain ⟨symbols, rfl⟩ := symbols_of_setSymbol ht
  exact h.withSymbols symbols

end Sound

/-- What becomes of a new interpreter by any sequence of operations. -/
inductive Reachable : Interpreter → Prop
  | new (limits : Limits) : Reachable (.new limits)
  | attach {s : Interpreter} (image : Image) (entry : Option String) :
      Reachable s → Reachable (s.attach image entry).1
  | detach {s : Interpreter} : Reachable s → Reachable s.detach
  | setSymbol {s t : Interpreter} {name value : String} :
      Reachable s → s.setSymbol name value = .ok t → Reachable t
  | step {σ : Type} {s : Interpreter} (host : Host σ) (world : σ) :
      Reachable s → Reachable (s.step host world).state
  | trigger {s : Interpreter} (event : String) : Reachable s → Reachable (s.trigger event).1
  | error {s : Interpreter} (text : String) : Reachable s → Reachable (s.error text).state

/-- Every operation leaves image, frames and status in agreement. -/
theorem Reachable.sound {s : Interpreter} (h : Reachable s) : Sound s := by
  induction h with
  | new limits => exact .new limits
  | attach image entry _ ih => exact ih.attach image entry
  | detach _ _ => exact .detach _
  | setSymbol _ ht ih => exact ih.setSymbol ht
  | step host world _ ih => exact ih.step host world
  | trigger event _ ih => exact ih.trigger event
  | error text _ ih => exact ih.error text

end Switchboard.Interpreter
