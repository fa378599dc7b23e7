import Mathlib.Data.List.TakeDrop
import Switchboard.Proofs.Interpreter.Renewal
import Switchboard.Proofs.Interpreter.Stride

/-!
# Switchboard.Proofs.Interpreter.Places

Frames that keep their places.

1. A stack changes from one frame on: what lies below that frame stays as it is, and
   only loops are dropped where something is put on top (`Reshaped`).
2. So a frame that is no loop keeps its place and its kind, with all that lies below
   it, until the stack is no higher than that place; and what says that it handles an
   error is lost by a jump of its own only (`Reshaped.stays`).
3. Strides, handlers and the end of a script reshape a stack, and so does every
   operation but those that begin a script or let go of it (`stays_perform`).
-/

namespace Switchboard.Interpreter

/-! ## reshaping -/

/-- A stack is another one from one frame on.  A jump from the place `went` may take
from the frame there that it handles an error. -/
inductive Reshaped (went : Option Nat) : List Frame → List Frame → Prop
  | mk {old new : List Frame} {f g : Frame} {below : List Frame} :
      (∀ x ∈ old, x.isLoop = true) ∨ new = [] → g.kind = f.kind →
      (f.trapped = true → g.trapped = true ∨ went = some below.length) →
      Reshaped went (old ++ f :: below) (new ++ g :: below)

namespace Reshaped

variable {went : Option Nat} {frames after tail : List Frame} {f : Frame}

section
variable {g : Frame} {below : List Frame}

/-- The frame on top changes, and others may be put above it. -/
theorem top (hk : g.kind = f.kind)
    (ht : f.trapped = true → g.trapped = true ∨ went = some below.length) (new : List Frame) :
    Reshaped went (f :: below) (new ++ g :: below) :=
  @mk went [] new f g below (.inl (List.forall_mem_nil _)) hk ht

/-- What lies above a frame is dropped, and the frame changes. -/
theorem down (hk : g.kind = f.kind)
    (ht : f.trapped = true → g.trapped = true ∨ went = some below.length) (old : List Frame) :
    Reshaped went (old ++ f :: below) (g :: below) :=
  @mk went old [] f g below (.inr rfl) hk ht

end

theorem refl (h : frames ≠ []) : Reshaped went frames frames := by
  obtain ⟨f, below, rfl⟩ := List.exists_cons_of_ne_nil h
  exact .top rfl .inl []

/-- A stack is cut back to a frame, which changes in its line. -/
theorem cut {g : Frame} {below : List Frame} (h : f :: below <:+ frames) (hk : g.kind = f.kind)
    (ht : f.trapped = true → g.trapped = true) : Reshaped went frames (g :: below) := by
  obtain ⟨old, rfl⟩ := h
  exact .down hk (fun hf => .inl (ht hf)) old

/-- A frame of no loop keeps its place until it is dropped. -/
theorem stays (h : Reshaped went frames after) (hf : f :: tail <:+ frames)
    (hl : f.isLoop = false) (hd : tail.length < after.length) :
    ∃ g, g :: tail <:+ after ∧ g.kind = f.kind ∧
      (f.trapped = true → g.trapped = true ∨ went = some tail.length) := by
  obtain ⟨hnew, hk, ht⟩ := h
  next old new c g below =>
    rcases List.suffix_or_suffix_of_suffix hf (List.suffix_append old (c :: below)) with hin | hout
    · -- the frame is the one that changes, or one of those below it
      rcases List.suffix_cons_iff.mp hin with heq | hin
      · obtain ⟨rfl, rfl⟩ := List.cons.inj heq
        exact ⟨g, List.suffix_append new _, hk, ht⟩
      · refine ⟨f, hin.trans ((List.suffix_cons g below).trans (List.suffix_append new _)), rfl,
          fun hf => .inl hf⟩
    · rcases List.suffix_cons_iff.mp hout with heq | hout
      · obtain ⟨rfl, rfl⟩ := List.cons.inj heq
        exact ⟨g, List.suffix_append new _, hk, ht⟩
      · -- it lies above, where nothing but loops is replaced
        obtain ⟨mid, rfl⟩ := hout
        obtain ⟨above, heq⟩ := hf
        have hold : old = above ++ f :: mid := by
          have hsplit : (above ++ f :: mid) ++ c :: below = old ++ c :: below := by
            rw [← heq, List.append_assoc, List.cons_append]
          exact (List.append_cancel_right hsplit).symm
        obtain hloops | rfl := hnew
        · simp [hloops f (by simp [hold])] at hl
        · simp at hd
          omega

end Reshaped

/-- The place from which a script jumps, if it stands at a jump. -/
def jumpsFrom? (s : Interpreter) : Option Nat :=
  if s.jumps then some ((outsideLoops s.frames).length - 1) else none

theorem Stride.reshaped {s : Interpreter} {image : Image} {after : List Frame}
    (h : Stride s after) (hs : Stacked image s.frames) :
    Reshaped s.jumpsFrom? s.frames after := by
  obtain ⟨loops, hsplit, hloops, -⟩ := outsideLoops_spec s.frames
  cases h with
  | still => exact .refl hs.ne_nil
  | inside _ _ hin =>
      obtain ⟨f, below, line, ho, -, ha⟩ := hin
      obtain ⟨loops', hsplit', -, -⟩ := outsideLoops_spec after
      rw [hsplit, hsplit', ho, ha]
      exact .mk (.inl hloops) rfl .inl
  | call _ _ _ =>
      obtain ⟨f, below, hf⟩ := List.exists_cons_of_ne_nil hs.ne_nil
      rw [hf]
      exact .top rfl .inl [_]
  | jump hj ho hk =>
      rw [hsplit, ho]
      refine .down hk (fun _ => .inr ?_) _
      simp [jumpsFrom?, hj, ho]
  | @back f g below _ ho _ =>
      rw [hsplit, ho]
      exact .cut (f := g) ⟨loops ++ [f], by simp⟩ rfl id

theorem Continues.reshaped {image : Image} {frames : List Frame} {t : Interpreter}
    (h : Continues image frames t) (hs : frames ≠ []) : Reshaped none frames t.frames := by
  cases h with
  | onward _ hf =>
      rw [hf]
      exact .refl hs
  | trapped _ hf =>
      obtain ⟨f, below, line, hsuffix, -, -, ht⟩ := trapped?_spec hf
      rw [ht]
      exact .cut hsuffix rfl fun _ => rfl
  | ended _ _ hf =>
      rw [hf, List.drop_length_sub_one hs]
      exact .cut ⟨frames.dropLast, List.dropLast_concat_getLast hs⟩ rfl id

theorem Continues.length_le {image : Image} {frames : List Frame} {t : Interpreter}
    (h : Continues image frames t) : t.frames.length ≤ frames.length := by
  cases h with
  | onward _ hf => rw [hf]
  | trapped _ hf =>
      obtain ⟨f, below, line, hsuffix, -, -, ht⟩ := trapped?_spec hf
      have := hsuffix.length_le
      simpa [ht] using this
  | ended _ _ hf =>
      rw [hf, List.length_drop]
      omega

/-! ## operations -/

section
variable {σ : Type}

/-- Carry out operations, and keep the host's state. -/
def performAll (s : Interpreter) (world : σ) : List (Operation σ) → Interpreter × σ
  | [] => (s, world)
  | op :: rest => (s.perform world op).1.performAll (s.perform world op).2.1 rest

/-- An operation begins a script. -/
def begins (s : Interpreter) : Operation σ → Bool
  | .attach image entry => (s.attach image entry).2
  | _ => false

/-- The place from which a step jumps. -/
def jumpsAt? (s : Interpreter) : Operation σ → Option Nat
  | .step _ => s.jumpsFrom?
  | _ => none

variable {s : Interpreter} {f : Frame} {tail : List Frame}

theorem Reachable.perform (h : s.Reachable) (world : σ) (op : Operation σ) :
    (s.perform world op).1.Reachable := by
  cases op with
  | attach image entry => exact h.attach image entry
  | detach => exact h.detach
  | setSymbol name value =>
      simp only [Interpreter.perform]
      split
      · next ht => exact h.setSymbol ht
      · exact h
  | step host => exact h.step host world
  | trigger event => exact h.trigger event
  | error text => exact h.error text

theorem Reachable.performAll (h : s.Reachable) (world : σ) (ops : List (Operation σ)) :
    (s.performAll world ops).1.Reachable := by
  induction ops generalizing s world with
  | nil => exact h
  | cons op rest ih => exact ih (h.perform world op) _

/-- A step reshapes a stack. -/
theorem stays_step (h : s.Sound) (host : Host σ) (world : σ) (hf : f :: tail <:+ s.frames)
    (hl : f.isLoop = false) (hd : tail.length < (s.step host world).state.depth) :
    ∃ g, g :: tail <:+ (s.step host world).state.frames ∧ g.kind = f.kind ∧
      (f.trapped = true → g.trapped = true ∨ s.jumpsFrom? = some tail.length) := by
  cases hr : s.isRunning with
  | false =>
      rw [step_of_not_running host world hr]
      exact ⟨f, hf, rfl, .inl⟩
  | true =>
      obtain ⟨image, hi⟩ := Option.isSome_iff_exists.mp (h.attached hr)
      have hstacked := h.stacked image hi
      obtain ⟨frames, hstride, hcontinues, -⟩ := step_strides host world hr hi hstacked
      have hlen : tail.length < frames.length := Nat.lt_of_lt_of_le hd hcontinues.length_le
      obtain ⟨g, hg, hk, ht⟩ := (hstride.reshaped hstacked).stays hf hl hlen
      have hne : frames ≠ [] := List.ne_nil_of_length_pos (by omega)
      have hgl : g.isLoop = false := by simpa [Frame.isLoop, Frame.opener?, hk] using hl
      obtain ⟨e, he, hk', ht'⟩ := (hcontinues.reshaped hne).stays hg hgl hd
      refine ⟨e, he, hk'.trans hk, fun hft => ?_⟩
      rcases ht hft with hgt | hwent
      · exact .inl ((ht' hgt).resolve_right (by simp))
      · exact .inr hwent

/-- So does every operation that does not begin a script. -/
theorem stays_perform (h : s.Sound) (world : σ) (op : Operation σ) (hf : f :: tail <:+ s.frames)
    (hl : f.isLoop = false) (hd : tail.length < (s.perform world op).1.depth)
    (hb : tail ≠ [] ∨ s.begins op = false) :
    ∃ g, g :: tail <:+ (s.perform world op).1.frames ∧ g.kind = f.kind ∧
      (f.trapped = true → g.trapped = true ∨ s.jumpsAt? op = some tail.length) := by
  have hself : ∃ g, g :: tail <:+ s.frames ∧ g.kind = f.kind ∧
      (f.trapped = true → g.trapped = true ∨ s.jumpsAt? op = some tail.length) :=
    ⟨f, hf, rfl, .inl⟩
  have hreshaped : ∀ {t : Interpreter}, Reshaped none s.frames t.frames →
      tail.length < t.depth → ∃ g, g :: tail <:+ t.frames ∧ g.kind = f.kind ∧
        (f.trapped = true → g.trapped = true ∨ s.jumpsAt? op = some tail.length) := by
    intro t ht hd
    obtain ⟨g, hg, hk, hgt⟩ := ht.stays hf hl hd
    exact ⟨g, hg, hk, fun hft => .inl ((hgt hft).resolve_right (by simp))⟩
  have hne : s.frames ≠ [] := fun hnil => by simp [hnil] at hf
  cases op with
  | attach image entry =>
      simp only [Interpreter.perform] at hd ⊢
      cases hi : image.indexOf? (entry.getD defaultEntry) with
      | none => simpa [Interpreter.attach, hi] using hself
      | some i =>
          have hbegins : s.begins (.attach image entry : Operation σ) = true := by
            simp [begins, Interpreter.attach, hi]
          -- a script that begins has one frame, below which there is none
          have hone : (s.attach image entry).1.frames = _ := h.frames_attach hi
          obtain ⟨g, rest, rfl⟩ := List.exists_cons_of_ne_nil (hb.resolve_right (by simp [hbegins]))
          simp [depth, hone] at hd
  | detach => simp [Interpreter.perform, Interpreter.detach, depth] at hd
  | setSymbol name value =>
      simp only [Interpreter.perform] at hd ⊢
      split
      · next ht =>
          obtain ⟨symbols, rfl⟩ := symbols_of_setSymbol ht
          exact hself
      · exact hself
  | step host => exact stays_step h host world hf hl hd
  | trigger event =>
      simp only [Interpreter.perform] at hd ⊢
      unfold Interpreter.trigger at hd ⊢
      split
      · split
        · next frames ht =>
            obtain ⟨image, -, ht⟩ := Option.bind_eq_some_iff.mp ht
            obtain ⟨g, below, line, hsuffix, -, -, rfl⟩ := dispatched?_spec ht
            refine hreshaped (.cut hsuffix rfl id) ?_
            simp_all
        · exact hself
      · exact hself
  | error text =>
      cases hr : s.isRunning with
      | false => simpa [Interpreter.perform, Interpreter.error, hr] using hself
      | true =>
          obtain ⟨image, hi⟩ := Option.isSome_iff_exists.mp (h.attached hr)
          exact hreshaped ((error_continues hr hi text).1.reshaped hne) hd

end

end Switchboard.Interpreter
