import Switchboard.Proofs.Interpreter.Places

/-!
# Switchboard.Proofs.Interpreter.Trapping

Error handlers cannot call themselves over and over.

1. An error goes to the nearest frame that takes it, or ends the script (`raises_error`).
   A frame of a loop never counts as one that has an error (`Reachable.unmarked`).
2. A frame that has been handed an error keeps its mark in its place, until it jumps or
   is dropped (`marked_performAll`); and no frame with a mark is handed another one
   (`trapsAt?_ne_of_marked`).
3. The frames that may still be handed an error are a credit.  A trap costs one, and only
   calls, jumps and the beginning of a script add one (`credit_perform`).

To raise the event `error` goes to a handler as every event does, and is no error.
-/

namespace Switchboard.Interpreter

/-! ## what takes an error -/

/-- A frame below `above` takes an error: it handles errors at `line`, and neither it nor
one of those has been handed an error before. -/
structure Takes (image : Image) (above : List Frame) (f : Frame) (line : Nat) : Prop where
  outside : f.isLoop = false
  handles : handlerOf? image "error" f = some line
  free : ∀ g ∈ above ++ [f], g.trapped = false

/-- What becomes of an error: the nearest frame that takes it is handed it, and those
above are dropped; or there is no such frame, and the script ends. -/
inductive Raises (s : Interpreter) (text : String) : Raised → Prop
  | trapped {image : Image} {above below : List Frame} {f : Frame} {line : Nat} :
      s.image = some image → s.frames = above ++ f :: below → Takes image above f line →
      (∀ g ∈ above, g.isLoop = true ∨ handlerOf? image "error" g = none) →
      Raises s text ⟨{ s with
        frames := { f with line, trapped := true } :: below
        lastError := some text }, true, none⟩
  | ended {image : Image} {t : Interpreter} {report : Option Report} : s.image = some image →
      (∀ above f below line, s.frames = above ++ f :: below → ¬ Takes image above f line) →
      t.exitReason? = some (.error text) → t.depth = 1 → t.symbols = s.symbols →
      Raises s text ⟨t, false, report⟩

/-- Frames of loops have not been handed an error. -/
def Unmarked (frames : List Frame) : Prop := ∀ f ∈ frames, f.isLoop = true → f.trapped = false

section
variable {image : Image} {frames after below : List Frame} {f g : Frame}

/-- Frames below carry no mark if all carry none. -/
theorem Unmarked.suffix (h : Unmarked frames) (hs : after <:+ frames) : Unmarked after :=
  fun f hf => h f (hs.subset hf)

/-- A loop without a mark may be put on top. -/
theorem Unmarked.cons (h : Unmarked below) (hf : f.isLoop = true → f.trapped = false) :
    Unmarked (f :: below) := List.forall_mem_cons.mpr ⟨hf, h⟩

/-- A frame may stand at another line, in another pass. -/
theorem Unmarked.replace (h : Unmarked (f :: below)) (hk : g.kind = f.kind)
    (ht : g.trapped = f.trapped) : Unmarked (g :: below) := by
  obtain ⟨hf, hbelow⟩ := List.forall_mem_cons.mp h
  refine .cons hbelow fun hl => ht.trans (hf ?_)
  simpa [Frame.isLoop, Frame.opener?, hk] using hl

/-- A move puts no mark on a loop. -/
theorem Unmarked.move {room : Nat} (h : Unmarked frames) (hs : Stacked image frames)
    (hm : Move image room frames after) : Unmarked after := by
  cases hm with
  | onward _ _ | again _ => exact h.replace rfl rfl
  | enter _ _ _ _ _ | call _ _ _ _ _ _ => exact h.cons fun _ => rfl
  | @leave f below _ _ _ _ _ _ =>
      have hbelow := h.suffix (List.suffix_cons f below)
      cases below with
      | nil => exact hbelow
      | cons g rest => exact hbelow.replace rfl rfl
  | goTo ho _ =>
      obtain ⟨f, below, ho', hl, hsuffix⟩ := hs.outsideLoops
      obtain ⟨rfl, rfl⟩ := List.cons.inj (ho.symm.trans ho')
      have hbelow := h.suffix ((List.suffix_cons _ _).trans hsuffix)
      exact hbelow.cons fun hloop => absurd (hl.symm.trans hloop) Bool.false_ne_true
  | @back _ f g below ho _ =>
      obtain ⟨loops, hsplit, -, -⟩ := outsideLoops_spec frames
      rw [ho] at hsplit
      have hrest : Unmarked (g :: below) := h.suffix ⟨loops ++ [f], by simp [hsplit]⟩
      exact hrest.replace rfl rfl

/-- Nor do moves that come one after the other. -/
theorem Unmarked.moves {room : Nat} (h : Unmarked frames) (hs : Stacked image frames)
    (hm : Relation.ReflTransGen (Move image room) frames after) : Unmarked after := by
  induction hm with
  | refl => exact h
  | tail hmoves hm ih => exact ih.move (hs.moves hmoves) hm

/-- Nor does a fault that is trapped. -/
theorem Unmarked.trapped? (h : Unmarked frames) (ht : trapped? image frames = some after) :
    Unmarked after := by
  obtain ⟨f, below, line, hsuffix, hl, -, rfl⟩ := trapped?_spec ht
  refine (h.suffix ((List.suffix_cons f below).trans hsuffix)).cons fun hloop => ?_
  exact absurd (hl.symm.trans hloop) Bool.false_ne_true

/-- Nor does an event that is taken. -/
theorem Unmarked.dispatched? {event : String} (h : Unmarked frames)
    (hd : dispatched? image event frames = some after) : Unmarked after := by
  obtain ⟨f, below, line, hsuffix, -, -, rfl⟩ := dispatched?_spec hd
  exact (h.suffix hsuffix).replace rfl rfl

/-- No step puts a mark on a loop. -/
theorem Unmarked.successor {s t : Interpreter} (h : Unmarked s.frames)
    (hs : Stacked image s.frames) (ht : Successor image s t) : Unmarked t.frames := by
  obtain ⟨frames, hmoves, hcontinues⟩ := ht.course
  have hframes := h.moves hs hmoves
  cases hcontinues with
  | onward _ hf => rwa [hf]
  | trapped _ hf => exact hframes.trapped? hf
  | ended _ _ hf =>
      rw [hf]
      exact hframes.suffix (List.drop_suffix _ _)

/-- No loop carries a mark in any state that can be reached. -/
theorem Reachable.unmarked {s : Interpreter} (h : s.Reachable) : Unmarked s.frames := by
  induction h with
  | new limits => simp [Unmarked, Interpreter.new]
  | @attach s image entry hs ih =>
      cases hi : image.indexOf? (entry.getD defaultEntry) with
      | none => simpa [Interpreter.attach, hi] using ih
      | some i =>
          rw [hs.sound.frames_attach hi]
          simp [Unmarked, Frame.base]
  | detach _ _ => simp [Unmarked, Interpreter.detach]
  | setSymbol _ ht ih =>
      obtain ⟨symbols, rfl⟩ := symbols_of_setSymbol ht
      exact ih
  | @step _ s host world hs ih =>
      cases hr : s.isRunning with
      | false => rwa [step_of_not_running host world hr]
      | true =>
          have ha := hs.sound.attached hr
          obtain ⟨image, hi⟩ := Option.isSome_iff_exists.mp ha
          exact ih.successor (hs.sound.stacked image hi)
            (step_successor host world hr hi (hs.sound.ne_nil ha))
  | @trigger s event hs ih =>
      unfold Interpreter.trigger
      split
      · split
        · next frames hf =>
            obtain ⟨image, -, hf⟩ := Option.bind_eq_some_iff.mp hf
            exact ih.dispatched? hf
        · exact ih
      · exact ih
  | @error s text hs ih =>
      cases hr : s.isRunning with
      | false => simpa [Interpreter.error, hr] using ih
      | true =>
          obtain ⟨image, hi⟩ := Option.isSome_iff_exists.mp (hs.sound.attached hr)
          have hstatus : s.status = .running := by simpa [isRunning] using hr
          exact ih.successor (hs.sound.stacked image hi)
            (.error (.refl image s) hstatus hi text)

/-! ## the nearest handler -/

/-- The frame that is handed an error is found past loops, and past frames that neither
handle errors nor have been handed one. -/
theorem trapped?_split (ht : trapped? image frames = some after) :
    ∃ above f below line, frames = above ++ f :: below ∧ f.isLoop = false ∧ f.trapped = false ∧
      handlerOf? image "error" f = some line ∧
      (∀ g ∈ above, g.isLoop = true ∨ g.trapped = false ∧ handlerOf? image "error" g = none) ∧
      after = { f with line, trapped := true } :: below := by
  induction frames with
  | nil => simp [trapped?] at ht
  | cons f below ih =>
      have hdeeper : (f.isLoop = true ∨ f.trapped = false ∧ handlerOf? image "error" f = none) →
          trapped? image below = some after →
          ∃ above g rest line, f :: below = above ++ g :: rest ∧ g.isLoop = false ∧
            g.trapped = false ∧ handlerOf? image "error" g = some line ∧
            (∀ g ∈ above, g.isLoop = true ∨
              g.trapped = false ∧ handlerOf? image "error" g = none) ∧
            after = { g with line, trapped := true } :: rest := by
        intro hpass ht
        obtain ⟨above, g, rest, line, rfl, hl, hfree, hline, hnear, hafter⟩ := ih ht
        exact ⟨f :: above, g, rest, line, rfl, hl, hfree, hline,
          List.forall_mem_cons.mpr ⟨hpass, hnear⟩, hafter⟩
      unfold Interpreter.trapped? at ht
      split at ht
      · next hl => exact hdeeper (.inl hl) ht
      · next hl =>
          split at ht
          · contradiction
          · next hfree =>
              have hfree : f.trapped = false := by simpa using hfree
              split at ht
              · next line hline =>
                  exact ⟨[], f, below, line, rfl, by simpa using hl, hfree, hline, by simp,
                    (Option.some.inj ht).symm⟩
              · next hnone => exact hdeeper (.inr ⟨hfree, hnone⟩) ht

/-- A handler that is found is the nearest one. -/
theorem takes_of_trapped? (h : Unmarked frames) (ht : trapped? image frames = some after) :
    ∃ above f below line, frames = above ++ f :: below ∧ Takes image above f line ∧
      (∀ g ∈ above, g.isLoop = true ∨ handlerOf? image "error" g = none) ∧
      after = { f with line, trapped := true } :: below := by
  obtain ⟨above, f, below, line, rfl, hl, hfree, hline, hnear, hafter⟩ := trapped?_split ht
  refine ⟨above, f, below, line, rfl, ⟨hl, hline, fun g hg => ?_⟩,
    fun g hg => (hnear g hg).imp_right And.right, hafter⟩
  rcases List.mem_append.mp hg with hg | hg
  · rcases hnear g hg with hloop | ⟨hfree, -⟩
    · exact h g (List.mem_append_left _ hg) hloop
    · exact hfree
  · rwa [List.mem_singleton.mp hg]

/-- If none is found, no frame takes an error. -/
theorem not_takes_of_trapped? (ht : trapped? image frames = none) {above : List Frame}
    {line : Nat} (hs : frames = above ++ f :: below) : ¬ Takes image above f line := by
  intro htakes
  induction frames generalizing above with
  | nil => simp at hs
  | cons g rest ih =>
      cases above with
      | nil =>
          obtain ⟨rfl, rfl⟩ := List.cons.inj hs
          have hfree : g.trapped = false := htakes.free g (by simp)
          simp [trapped?, htakes.outside, hfree, htakes.handles] at ht
      | cons x above =>
          obtain ⟨rfl, hrest⟩ := List.cons.inj hs
          obtain ⟨hfree, habove⟩ := List.forall_mem_cons.mp htakes.free
          refine ih ?_ hrest ⟨htakes.outside, htakes.handles, habove⟩
          unfold Interpreter.trapped? at ht
          split at ht
          · exact ht
          · split at ht
            · simp_all
            · split at ht
              · contradiction
              · exact ht

/-- An error of a script that runs goes to the nearest frame that takes it, or ends it. -/
theorem raises_error {s : Interpreter} (h : s.Reachable) (hr : s.isRunning = true)
    (text : String) : Raises s text (s.error text) := by
  obtain ⟨image, hi⟩ := Option.isSome_iff_exists.mp (h.sound.attached hr)
  cases ht : trapped? image s.frames with
  | some after =>
      obtain ⟨above, f, below, line, hs, htakes, hnear, rfl⟩ := takes_of_trapped? h.unmarked ht
      have herror : s.error text = ⟨{ s with
          frames := { f with line, trapped := true } :: below
          lastError := some text }, true, none⟩ := by
        simp [Interpreter.error, hr, hi, ht]
      rw [herror]
      exact .trapped hi hs htakes hnear
  | none =>
      have hone := (h.sound.stacked image hi).drop.2
      have herror : s.error text = ⟨{ s with lastError := some text }.finish (.error text), false,
          some ⟨{ s with lastError := some text }.place?, text⟩⟩ := by
        simp [Interpreter.error, hr, hi, ht]
      rw [herror]
      exact .ended hi (fun _ _ _ _ hs => not_takes_of_trapped? ht hs) rfl hone rfl

end

/-! ## one trap for each frame -/

section
variable {σ : Type}

/-- An operation hands an error to a frame. -/
def handsOver (s : Interpreter) (world : σ) : Operation σ → Bool
  | .step host => s.traps host world
  | .error text => (s.error text).handled
  | _ => false

/-- The place of the frame that is handed an error. -/
def trapsAt? (s : Interpreter) (world : σ) (op : Operation σ) : Option Nat :=
  if s.handsOver world op then some ((s.perform world op).1.depth - 1) else none

/-- Operations leave the frame at a place where it is, and it does not jump. -/
def Undisturbed (place : Nat) (s : Interpreter) (world : σ) : List (Operation σ) → Prop
  | [] => True
  | op :: rest =>
    place < (s.perform world op).1.depth ∧ s.begins op = false ∧ s.jumpsAt? op ≠ some place ∧
      Undisturbed place (s.perform world op).1 (s.perform world op).2.1 rest

variable {s : Interpreter} {f : Frame} {tail : List Frame} {world : σ} {op : Operation σ}

/-- A script that jumps does not trap an error. -/
theorem jumps_of_traps {host : Host σ} (h : s.traps host world = true) : s.jumps = false := by
  obtain ⟨hr, h⟩ := Bool.and_eq_true_iff.mp h
  cases hi : s.image with
  | none => simp [hi] at h
  | some image =>
      simp only [hi, outcomeWith] at h
      have hfault : ∀ t, s.execute image ≠ .next t := fun t he => by simp [he] at h
      simp only [jumps, hi, Bool.and_eq_false_iff]
      right
      split <;> simp_all

/-- A handler gets its error from a stack that a line of the script has left. -/
theorem trapped?_of_handsOver (h : s.Sound) (hh : s.handsOver world op = true) :
    ∃ image frames, trapped? image frames = some (s.perform world op).1.frames ∧
      s.jumpsAt? op = none ∧
      (∀ {f tail}, f :: tail <:+ s.frames → f.isLoop = false → tail.length < frames.length →
        ∃ g, g :: tail <:+ frames ∧ (f.trapped = true → g.trapped = true)) := by
  cases op with
  | attach | detach | setSymbol | trigger => contradiction
  | error text =>
      cases hr : s.isRunning with
      | false => simp [handsOver, Interpreter.error, hr] at hh
      | true =>
          obtain ⟨image, hi⟩ := Option.isSome_iff_exists.mp (h.attached hr)
          exact ⟨image, s.frames, (error_continues hr hi text).2 hh, rfl,
            fun hf _ _ => ⟨_, hf, id⟩⟩
  | step host =>
      have htraps : s.traps host world = true := hh
      have hr : s.isRunning = true := (Bool.and_eq_true_iff.mp htraps).1
      have hjumps : s.jumpsFrom? = none := by simp [jumpsFrom?, jumps_of_traps htraps]
      obtain ⟨image, hi⟩ := Option.isSome_iff_exists.mp (h.attached hr)
      have hstacked := h.stacked image hi
      obtain ⟨frames, hstride, -, htrapped⟩ := step_strides host world hr hi hstacked
      refine ⟨image, frames, htrapped htraps, hjumps, fun hf hl hd => ?_⟩
      obtain ⟨g, hg, -, hmark⟩ := (hstride.reshaped hstacked).stays hf hl hd
      exact ⟨g, hg, fun hft => (hmark hft).resolve_right (by simp [hjumps])⟩

/-- A frame that has been handed an error is not handed another one. -/
theorem trapsAt?_ne_of_marked (h : s.Sound) (hf : f :: tail <:+ s.frames)
    (hl : f.isLoop = false) (hm : f.trapped = true) : s.trapsAt? world op ≠ some tail.length := by
  intro hplace
  unfold trapsAt? at hplace
  split at hplace
  · next hh =>
      obtain ⟨image, frames, htrapped, -, hstays⟩ := trapped?_of_handsOver h hh
      obtain ⟨above, g, below, line, hs, -, hfree, -, -, hafter⟩ := trapped?_split htrapped
      have hplace : below.length = tail.length := by simpa [depth, hafter] using hplace
      obtain ⟨e, he, hmark⟩ := hstays hf hl (by simp [hs]; omega)
      have hsame : e :: tail = g :: below := by
        have hg : g :: below <:+ frames := ⟨above, hs.symm⟩
        refine (List.suffix_of_suffix_length_le he hg (by simp [hplace])).eq_of_length ?_
        simp [hplace]
      obtain ⟨rfl, -⟩ := List.cons.inj hsame
      simp [hmark hm] at hfree
  · contradiction

/-- A frame that has been handed an error keeps its mark while it is left alone. -/
theorem marked_performAll (h : s.Reachable) {ops : List (Operation σ)}
    (hu : s.Undisturbed tail.length world ops) (hf : f :: tail <:+ s.frames)
    (hl : f.isLoop = false) (hm : f.trapped = true) :
    ∃ g, g :: tail <:+ (s.performAll world ops).1.frames ∧ g.isLoop = false ∧
      g.trapped = true := by
  induction ops generalizing s world f with
  | nil => exact ⟨f, hf, hl, hm⟩
  | cons op rest ih =>
      obtain ⟨hd, hbegins, hjumps, hrest⟩ := hu
      obtain ⟨g, hg, hk, hmark⟩ := stays_perform h.sound world op hf hl hd (.inr hbegins)
      have hgl : g.isLoop = false := by simpa [Frame.isLoop, Frame.opener?, hk] using hl
      exact ih (h.perform world op) hrest hg hgl ((hmark hm).resolve_right hjumps)

/-- A frame that is handed an error has its mark. -/
theorem marked_of_trapsAt? (h : s.Sound) {place : Nat} (hp : s.trapsAt? world op = some place) :
    ∃ f tail, (s.perform world op).1.frames = f :: tail ∧ tail.length = place ∧
      f.isLoop = false ∧ f.trapped = true := by
  unfold trapsAt? at hp
  split at hp
  · next hh =>
      obtain ⟨image, frames, htrapped, -, -⟩ := trapped?_of_handsOver h hh
      obtain ⟨above, f, below, line, -, hl, -, -, -, hafter⟩ := trapped?_split htrapped
      refine ⟨_, below, hafter, ?_, hl, rfl⟩
      simpa [depth, hafter] using hp
  · contradiction

end

/-! ## as many traps as activations -/

/-- The frames that may be handed an error. -/
def credit (frames : List Frame) : Nat := frames.countP fun f => !f.isLoop && !f.trapped

/-- The number of activations of a script. -/
def activationCount (s : Interpreter) : Nat := s.frames.countP fun f => !f.isLoop

section
variable {σ : Type}

/-- An operation creates an activation: a script begins, or a call is made. -/
def activates (s : Interpreter) : Operation σ → Bool
  | .step _ => s.calls
  | op => s.begins op

/-- How many operations of a run are of some kind. -/
def tally (counts : Interpreter → σ → Operation σ → Bool) (s : Interpreter) (world : σ) :
    List (Operation σ) → Nat
  | [] => 0
  | op :: rest =>
    (counts s world op).toNat + tally counts (s.perform world op).1 (s.perform world op).2.1 rest

variable {s : Interpreter} {image : Image} {frames after : List Frame} {f g : Frame}
  {below : List Frame}

/-- One frame carries at most one credit. -/
theorem credit_cons_le (f : Frame) (below : List Frame) :
    credit below ≤ credit (f :: below) ∧ credit (f :: below) ≤ credit below + 1 := by
  simp only [credit, List.countP_cons]
  split <;> omega

/-- Frames below have no more credit than all of them. -/
theorem credit_suffix (h : after <:+ frames) : credit after ≤ credit frames :=
  h.sublist.countP_le

/-- What a frame may get does not hang on its line. -/
theorem credit_replace (hk : g.kind = f.kind) (ht : g.trapped = f.trapped) :
    credit (g :: below) = credit (f :: below) := by
  simp [credit, List.countP_cons, Frame.isLoop, Frame.opener?, hk, ht]

/-- Loops are handed no error. -/
theorem credit_outsideLoops (frames : List Frame) :
    credit (outsideLoops frames) = credit frames := by
  obtain ⟨loops, hsplit, hloops, -⟩ := outsideLoops_spec frames
  have hnone : loops.countP (fun f => !f.isLoop && !f.trapped) = 0 := by
    simpa [List.countP_eq_zero] using fun f hf hl => by simp [hloops f hf] at hl
  conv_rhs => rw [hsplit]
  rw [credit, credit, List.countP_append, hnone, Nat.zero_add]

/-- A fault that is trapped takes a credit. -/
theorem credit_trapped? (h : trapped? image frames = some after) :
    credit after + 1 ≤ credit frames := by
  obtain ⟨above, f, below, line, rfl, hl, hfree, -, -, rfl⟩ := trapped?_split h
  have hsuffix := credit_suffix (List.suffix_append above (f :: below))
  simp only [credit, List.countP_cons, hl, hfree] at hsuffix ⊢
  simpa [Frame.isLoop, Frame.opener?] using hsuffix

/-- Where a script continues no credit is gained. -/
theorem Continues.credit_le {t : Interpreter} (h : Continues image frames t) :
    credit t.frames ≤ credit frames := by
  cases h with
  | onward _ hf => rw [hf]
  | trapped _ hf => exact Nat.le_of_succ_le (credit_trapped? hf)
  | ended _ _ hf =>
      rw [hf]
      exact credit_suffix (List.drop_suffix _ _)

/-- Only calls and jumps add to the credit. -/
theorem Stride.credit_le (h : Stride s after) :
    credit after ≤ credit s.frames + s.calls.toNat + s.jumps.toNat := by
  cases h with
  | still => omega
  | inside _ _ hin =>
      obtain ⟨f, below, line, ho, -, ha⟩ := hin
      have hsame : credit after = credit s.frames := by
        rw [← credit_outsideLoops, ← credit_outsideLoops s.frames, ho, ha]
        exact credit_replace rfl rfl
      omega
  | @call f hc _ _ =>
      have hcons := credit_cons_le f s.frames
      simp only [hc, Bool.toNat_true]
      omega
  | @jump f g below hj ho _ =>
      have hg := credit_cons_le g below
      have hf := credit_cons_le f below
      have hout := credit_outsideLoops s.frames
      rw [ho] at hout
      simp only [hj, Bool.toNat_true]
      omega
  | @back f g below _ ho _ =>
      have hcons := credit_cons_le f (g :: below)
      have hout := credit_outsideLoops s.frames
      have hline : credit ({ g with line := g.line + 1 } :: below) = credit (g :: below) :=
        credit_replace rfl rfl
      rw [ho] at hout
      omega

/-- A script that is attached brings one credit. -/
theorem credit_attach (h : s.Sound) (image : Image) (entry : Option String) :
    credit (s.attach image entry).1.frames ≤
      credit s.frames + (s.attach image entry).2.toNat := by
  cases hi : image.indexOf? (entry.getD defaultEntry) with
  | none => simp [Interpreter.attach, hi]
  | some i =>
      have hbegins : (s.attach image entry).2 = true := by simp [Interpreter.attach, hi]
      have hone : credit (s.attach image entry).1.frames = 1 := by
        rw [h.frames_attach hi]
        rfl
      simp [hone, hbegins]

/-- An event brings none. -/
theorem credit_trigger (s : Interpreter) (event : String) :
    credit (s.trigger event).1.frames ≤ credit s.frames := by
  unfold Interpreter.trigger
  split
  · split
    · next frames hf =>
        obtain ⟨image, -, hf⟩ := Option.bind_eq_some_iff.mp hf
        obtain ⟨g, below, line, hsuffix, -, -, rfl⟩ := dispatched?_spec hf
        exact Nat.le_trans (credit_replace (f := g) rfl rfl).le (credit_suffix hsuffix)
    · exact Nat.le_refl _
  · exact Nat.le_refl _

/-- A trap costs one. -/
theorem credit_error (h : s.Sound) (text : String) :
    credit (s.error text).state.frames + (s.error text).handled.toNat ≤ credit s.frames := by
  cases hr : s.isRunning with
  | false => simp [Interpreter.error, hr]
  | true =>
      obtain ⟨image, hi⟩ := Option.isSome_iff_exists.mp (h.attached hr)
      obtain ⟨hcontinues, htrapped⟩ := error_continues hr hi text
      cases hh : (s.error text).handled with
      | false => exact hcontinues.credit_le
      | true => exact credit_trapped? (htrapped hh)

/-- A step brings a credit only by a call or a jump, and a trap takes one. -/
theorem credit_step (h : s.Sound) (host : Host σ) (world : σ) :
    credit (s.step host world).state.frames + (s.traps host world).toNat ≤
      credit s.frames + s.calls.toNat + s.jumps.toNat := by
  cases hr : s.isRunning with
  | false => simp [step_of_not_running host world hr, traps, calls, jumps, hr]
  | true =>
      obtain ⟨image, hi⟩ := Option.isSome_iff_exists.mp (h.attached hr)
      obtain ⟨frames, hstride, hcontinues, htrapped⟩ :=
        step_strides host world hr hi (h.stacked image hi)
      refine Nat.le_trans ?_ hstride.credit_le
      cases hh : s.traps host world with
      | false => exact hcontinues.credit_le
      | true => exact credit_trapped? (htrapped hh)

/-- Nothing but the beginning of a script, a call and a jump adds to the credit. -/
theorem credit_perform (h : s.Sound) (world : σ) (op : Operation σ) :
    credit (s.perform world op).1.frames + (s.handsOver world op).toNat ≤
      credit s.frames + (s.activates op).toNat + (s.jumpsAt? op).isSome.toNat := by
  cases op with
  | attach image entry => exact Nat.le_add_right_of_le (credit_attach h image entry)
  | detach => exact Nat.zero_le _
  | setSymbol name value =>
      refine Nat.le_add_right_of_le (Nat.le_add_right_of_le ?_)
      simp only [Interpreter.perform, handsOver, Bool.toNat_false, Nat.add_zero]
      split
      · next ht =>
          obtain ⟨symbols, rfl⟩ := symbols_of_setSymbol ht
          exact Nat.le_refl _
      · exact Nat.le_refl _
  | trigger event =>
      exact Nat.le_add_right_of_le (Nat.le_add_right_of_le (credit_trigger s event))
  | error text => exact Nat.le_add_right_of_le (Nat.le_add_right_of_le (credit_error h text))
  | step host =>
      have hjumps : (s.jumpsFrom?).isSome = s.jumps := by
        unfold jumpsFrom?
        split <;> simp_all
      simpa only [Interpreter.perform, handsOver, activates, jumpsAt?, hjumps]
        using credit_step h host world

/-- A run traps no more errors than it has frames for. -/
theorem tally_handsOver_le (h : s.Reachable) (world : σ) (ops : List (Operation σ)) :
    tally handsOver s world ops ≤ credit s.frames +
      tally (fun s _ op => s.activates op) s world ops +
      tally (fun s _ op => (s.jumpsAt? op).isSome) s world ops := by
  induction ops generalizing s world with
  | nil => simp [tally]
  | cons op rest ih =>
      have hstep := credit_perform h.sound world op
      have hrest := ih (h.perform world op) (s.perform world op).2.1
      simp only [tally]
      omega

end

/-! ## the theorem -/

/-- Error handlers cannot call themselves over and over.

An error of a script that runs goes to the nearest frame that takes it, or ends the
script (`Raises`).

A frame that has been handed an error is not handed another one, whatever is done, as
long as it stays and does not jump.

So a run traps no more errors than there are activations at its start, and are created
by it, and than it makes jumps. -/
theorem traps_once {s : Interpreter} (h : s.Reachable) :
    (s.isRunning = true → ∀ text, Raises s text (s.error text)) ∧
    ∀ {σ : Type} (world : σ),
      (∀ (op : Operation σ) (place : Nat), s.trapsAt? world op = some place →
        ∀ ops, (s.perform world op).1.Undisturbed place (s.perform world op).2.1 ops →
          ∀ (world' : σ) (next : Operation σ),
            ((s.perform world op).1.performAll (s.perform world op).2.1 ops).1.trapsAt? world' next
              ≠ some place) ∧
      ∀ ops : List (Operation σ),
        tally handsOver s world ops ≤ s.activationCount +
          tally (fun s _ op => s.activates op) s world ops +
          tally (fun s _ op => (s.jumpsAt? op).isSome) s world ops := by
  refine ⟨fun hr => raises_error h hr, fun world => ⟨fun op place hp ops hu world' next => ?_,
    fun ops => ?_⟩⟩
  · obtain ⟨f, tail, hf, rfl, hl, hm⟩ := marked_of_trapsAt? h.sound hp
    have hreach := h.perform world op
    obtain ⟨g, hg, hgl, hgm⟩ := marked_performAll hreach hu (hf ▸ List.suffix_refl _) hl hm
    exact trapsAt?_ne_of_marked (hreach.performAll _ ops).sound hg hgl hgm
  · have hcredit : credit s.frames ≤ s.activationCount :=
      List.countP_mono_left fun f _ hf => (Bool.and_eq_true_iff.mp hf).1
    have htally := tally_handsOver_le h world ops
    omega

/-- A handler that jumps to another header, whose handler has an error of its own. -/
def retryImage : Image :=
  ⟨[⟨"main", "main",
      [⟨.raise [.literal "first"], 0, 0, 2⟩, ⟨.exit, 0, 0, 3⟩,
        ⟨.set "tries" [.literal "1"], 0, 0, 5⟩, ⟨.goto [.label "retry"], 0, 0, 6⟩],
      [("error", 2)], 0⟩,
    ⟨"retry", "main",
      [⟨.raise [.literal "second"], 0, 0, 8⟩, ⟨.exit, 0, 0, 9⟩,
        ⟨.raise [.literal "third"], 0, 0, 11⟩], [("error", 2)], 0⟩]⟩

/-- The script at its beginning. -/
def retryStart : Interpreter := ((Interpreter.new .default).attach retryImage none).1

/-- A script whose handler tries again hands over twice in five steps. -/
theorem traps_once_retry :
    let step : Operation Unit := .step (.silent Unit)
    let t := (retryStart.perform () step).1
    retryStart.isRunning = true ∧ Raises retryStart "stop" (retryStart.error "stop") ∧
      retryStart.trapsAt? () step = some 0 ∧ t.Undisturbed 0 () [step] ∧
      (t.performAll () [step]).1.trapsAt? () (.error "stop") ≠ some 0 ∧
      tally handsOver retryStart () (List.replicate 5 step) = 2 ∧
      tally handsOver retryStart () (List.replicate 5 step) ≤ retryStart.activationCount +
        tally (fun s _ op => s.activates op) retryStart () (List.replicate 5 step) +
        tally (fun s _ op => (s.jumpsAt? op).isSome) retryStart () (List.replicate 5 step) := by
  intro step t
  have hrun : retryStart.isRunning = true := by decide +kernel
  have hplace : retryStart.trapsAt? () step = some 0 := by decide +kernel
  have hstays : t.Undisturbed 0 () [step] :=
    ⟨by decide +kernel, by decide +kernel, by decide +kernel, trivial⟩
  obtain ⟨hraises, hbound⟩ := traps_once (s := retryStart) (.attach _ _ (.new _))
  obtain ⟨honce, htally⟩ := hbound ()
  exact ⟨hrun, hraises hrun "stop", hplace, hstays, honce step 0 hplace [step] hstays () _,
    by decide +kernel, htally _⟩

end Switchboard.Interpreter
