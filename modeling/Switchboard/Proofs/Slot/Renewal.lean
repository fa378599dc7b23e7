import Switchboard.Proofs.Interpreter.Renewal
import Switchboard.Proofs.Slot.Lifecycle
import Switchboard.Proofs.Slot.Timeless

/-!
# Switchboard.Proofs.Slot.Renewal

The slot of a call that is over.

1. The interpreter of a slot comes of a new one, and is as a new one while the slot
   is free or out of service (`Slot.Renewed`).  Every work on a slot keeps that:
   `Renewed.post`, `Renewed.expire`, `Renewed.allocate`.
2. So a free slot is as a new one, but for its device and the number of its calls
   (`Renewed.eq_of_idle`).
3. Work for a call that is asked for comes to the same on slots that agree but for
   the times, if image, entry, devices and turns do (`Work.agree_allocate`).
-/

namespace Switchboard

variable {σ : Type} {limits : Limits} {s t : Slot σ} {o p : Office σ}

/-! ## interpreters of slots -/

/-- The interpreter of a slot comes of a new one, and nothing is left in it unless
there is a call. -/
structure Slot.Renewed (limits : Limits) (s : Slot σ) : Prop where
  sequel : Interpreter.Sequel (.new limits) s.interpreter
  clear : s.state = .idle ∨ s.state = .offline → s.interpreter = .new limits

namespace Work

/-- What the turn of a script makes of a slot: the script has gone on, and the call
goes on or is over. -/
structure GoesOn (s : Slot σ) (w : Work σ) : Prop where
  sequel : s.interpreter.Sequel w.slot.interpreter
  state : w.slot.state = s.state ∨ w.slot.state = .releasing

namespace GoesOn

variable {w : Work σ} {f : Slot σ → Work σ}

/-- Neither the script nor the state of the slot matters to the work. -/
theorem same (hi : w.slot.interpreter = s.interpreter) (hs : w.slot.state = s.state) :
    GoesOn s w := ⟨hi ▸ .refl _, .inl hs⟩

/-- A script that goes on may go on once more. -/
theorem and (h : GoesOn s w) (h' : GoesOn w.slot (f w.slot)) : GoesOn s (w.and f) :=
  ⟨h.sequel.trans h'.sequel, h'.state.elim (fun hs => hs ▸ h.state) .inr⟩

/-- A step lets the script go on. -/
theorem step (o : Office σ) (s : Slot σ) : GoesOn s (step o s) :=
  ⟨.step s.interpreter (Errand.host o.adapter) (.start s.device), .inl rfl⟩

/-- So does a device that is armed. -/
theorem armDevice (o : Office σ) (mask : Mask) (s : Slot σ) : GoesOn s (armDevice o mask s) :=
  .same rfl rfl

/-- So does a timer that is set. -/
theorem arm (o : Office σ) (delay : Nanoseconds) (s : Slot σ) : GoesOn s (arm o delay s) :=
  .same rfl rfl

/-- So does a wait. -/
theorem await (o : Office σ) (wake : Option Nanoseconds) (s : Slot σ) :
    GoesOn s (await o wake s) := by
  cases wake with
  | none => exact .same rfl rfl
  | some delay => exact .arm o delay s

/-- The end of a call leaves the script as it is, and the slot in release. -/
theorem endCall (o : Office σ) (s : Slot σ) : GoesOn s (endCall o s) := ⟨.refl _, .inr rfl⟩

/-- After a step the script goes on, or the call ends. -/
theorem afterStep (o : Office σ) (r : Interpreter.Stepped (Errand σ)) {g : Slot σ → Work σ}
    (hg : ∀ s, GoesOn s (g s)) (s : Slot σ) : GoesOn s (afterStep o r g s) := by
  unfold Work.afterStep
  split
  · exact .same rfl rfl
  · split
    · exact .endCall o s
    · split
      · exact (GoesOn.armDevice o _ s).and (hg _)
      · split
        · exact hg s
        · exact .await o _ s

/-- A turn lets the script go on. -/
theorem runFor (o : Office σ) (n : Nat) (s : Slot σ) : GoesOn s (runFor o n s) := by
  induction n generalizing s with
  | zero => exact .arm o _ s
  | succ n ih =>
      rw [Work.runFor]
      exact (GoesOn.step o s).and (.afterStep o _ ih _)

end GoesOn

end Work

namespace Slot.Renewed

/-- A new slot is renewed. -/
theorem new (id : SlotId) (limits : Limits) (device : σ) :
    (Slot.new id limits device).Renewed limits := ⟨.refl _, fun _ => rfl⟩

/-- While there is a call, the script may go on. -/
theorem goesOn (h : s.Renewed limits) {w : Work σ} (hw : Work.GoesOn s w)
    (hs : s.state = .scripting) : w.slot.Renewed limits := by
  refine ⟨h.sequel.trans hw.sequel, fun hstate => ?_⟩
  rcases hw.state with h | h <;> simp [h, hs] at hstate

/-- The end of a call leaves nothing in the interpreter. -/
theorem of_finish (h : (Interpreter.new limits).Sequel s.interpreter) (o : Office σ)
    (next : SlotState) : (Work.finish o next s).slot.Renewed limits := by
  rw [Work.slot_finish]
  exact ⟨h.trans (.detached _), fun _ => h.detach_eq⟩

/-- Without a script, only the state changes. -/
theorem moved (h : s.Renewed limits) (hs : s.state = .idle ∨ s.state = .offline)
    (hi : t.interpreter = s.interpreter) : t.Renewed limits :=
  ⟨hi ▸ h.sequel, fun _ => hi.trans (h.clear hs)⟩

/-- A slot that runs a script is renewed after an event. -/
theorem postScripting (h : s.Renewed limits) (hs : s.state = .scripting) (o : Office σ)
    (e : Event) : (Work.postScripting o e s).1.slot.Renewed limits := by
  cases e with
  | timeout => exact h.goesOn (.runFor o _ s) hs
  | signal name =>
      unfold Work.postScripting
      dsimp only
      split
      · have hrun := Work.GoesOn.runFor o o.engine.stepsPerTick
          { s with interpreter := (s.interpreter.trigger name).1 }
        exact h.goesOn ⟨(Interpreter.Sequel.trigger _ name).trans hrun.sequel, hrun.state⟩ hs
      · exact h
  | drop | hangup => exact h.goesOn ⟨.refl _, .inr rfl⟩ hs
  | disable | shutdown =>
      exact of_finish (s := ((Work.hangUp o s).and (Work.setReason _)).slot) h.sequel o .offline
  | enable | release => exact h

/-- Every slot is. -/
theorem post (h : s.Renewed limits) (o : Office σ) (e : Event) :
    (Work.post o e s).1.slot.Renewed limits := by
  unfold Work.post
  cases hs : s.state with
  | offline => cases e <;> exact h.moved (.inr hs) rfl
  | idle => cases e <;> exact h.moved (.inl hs) rfl
  | scripting => exact h.postScripting hs o e
  | releasing =>
      cases e with
      | release | timeout => exact of_finish h.sequel o .idle
      | disable | shutdown => exact of_finish h.sequel o .offline
      | drop | hangup | enable | signal _ => exact h

/-- So is one whose time ends. -/
theorem expire (h : s.Renewed limits) (o : Office σ) (now : Nat) :
    (Work.expire o now s).1.slot.Renewed limits := by
  unfold Work.expire
  split
  · exact post (s := { s with timer := .unset }) ⟨h.sequel, h.clear⟩ o .timeout
  · exact h

/-- An interpreter with its first symbols goes on from the one without. -/
theorem sequel_seed {i j : Interpreter} {seeds : List (String × String)}
    (h : Station.seed i seeds = .ok j) : i.Sequel j := by
  induction seeds generalizing i with
  | nil =>
      obtain rfl := Except.ok.inj h
      exact .refl i
  | cons entry rest ih =>
      obtain ⟨k, hk, h⟩ := ok_of_bind h
      exact (Interpreter.Sequel.setSymbol hk).trans (ih h)

/-- A call that cannot begin leaves nothing, and one that begins goes on. -/
theorem allocate (h : s.Renewed limits) (o : Office σ) (setup : CallSetup) (n : Nat) :
    (Work.allocate o setup n s).1.slot.Renewed limits := by
  have hattached := h.sequel.trans
    (.attach s.interpreter o.scripts.image (some (setup.script.getD o.entry)))
  unfold Work.allocate Work.accept
  dsimp only
  by_cases hbusy : (s.state != .idle) = true
  · rw [if_pos hbusy]
    exact h
  · rw [if_neg hbusy]
    generalize s.interpreter.attach o.scripts.image _ = begun at hattached
    obtain ⟨i, found⟩ := begun
    cases found with
    | false => exact h
    | true =>
        dsimp only
        cases hseed : Station.seed i (Station.seeds s.id (Work.called o setup n s)) with
        | error fault => exact ⟨hattached.trans (.detached i), fun _ => hattached.detach_eq⟩
        | ok j =>
            have hentered : (Work.entered o setup n j s).slot.Renewed limits :=
              ⟨hattached.trans (sequel_seed hseed), by simp [Work.entered]⟩
            have hrun := Work.GoesOn.runFor o o.engine.stepsPerTick
              (Work.entered o setup n j s).slot
            exact hentered.goesOn (w := Work.run o (Work.entered o setup n j s).slot) hrun rfl

/-- A timer that never expires is not set. -/
theorem unset_of_expiry? {timer : Timer} (h : timer.expiry? = none) : timer = .unset := by
  unfold Timer.expiry? at h
  split at h
  · next hnever => exact congrArg Timer.mk hnever
  · contradiction

/-- Whatever calls it has carried, a free slot is as a new one that has just come into
service, but for its device and the number of its calls. -/
theorem eq_of_idle (h : s.Renewed limits) (hv : s.Vacant) (hs : s.state = .idle) :
    s = { Slot.new s.id limits s.device with state := .idle, sequence := s.sequence } := by
  have hinterpreter := h.clear (.inl hs)
  have htimer := unset_of_expiry? hv.untimed
  obtain ⟨hcall, -, hmask, -⟩ := hv
  obtain ⟨id, state, interpreter, device, call, armedMask, sequence, timer⟩ := s
  dsimp only at hinterpreter htimer hcall hmask hs
  rw [hinterpreter, htimer, hcall, hmask, hs]
  rfl

end Slot.Renewed

/-! ## calls that are asked for -/

namespace Work

/-- Of the scripts in force, a call sees only the image. -/
theorem accept_scripts (h : o.scripts.image = p.scripts.image) (setup : CallSetup) (n : Nat)
    (s : Slot σ) : accept { o with scripts := p.scripts } setup n s = accept o setup n s := by
  unfold accept
  dsimp only
  rw [← h]
  rfl

/-- A call that is asked for comes to the same where image, entry, devices and turns
are the same. -/
theorem agree_allocate (ha : o.adapter = p.adapter) (hi : o.scripts.image = p.scripts.image)
    (he : o.entry = p.entry) (hn : o.engine.stepsPerTick = p.engine.stepsPerTick)
    {setup : CallSetup} {n m : Nat} (hm : setup.cid = none → o.identities n = p.identities m)
    (hst : s.timeless = t.timeless) :
    Agree (allocate o setup n s) (allocate p setup m t) := by
  have haccepted : Agree (accept o setup n s) (accept p setup m t) := by
    have hsame : setup.cid.getD (o.identities n) = setup.cid.getD (p.identities m) := by
      cases hc : setup.cid with
      | none => exact hm hc
      | some cid => rfl
    have halike := agree_accept (o := { o with scripts := p.scripts }) (p := p) rfl he hsame hst
    rwa [accept_scripts hi] at halike
  have hrun : Matches (run o) (run p) := by
    unfold Work.run
    rw [hn]
    exact .runFor ha _
  obtain ⟨hw, hanswer⟩ := haccepted
  unfold allocate
  generalize accept o setup n s = a at hw hanswer ⊢
  generalize accept p setup m t = b at hw hanswer ⊢
  obtain ⟨w, answer⟩ := a
  obtain ⟨v, answer'⟩ := b
  obtain rfl : answer = answer' := hanswer
  cases answer with
  | ok sequence => exact ⟨hrun.after hw, rfl⟩
  | error e => exact ⟨hw, rfl⟩

end Work

end Switchboard
