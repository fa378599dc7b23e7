import Mathlib.Data.List.Chain
import Switchboard.Proofs.Interpreter.Hop

/-!
# Switchboard.Proofs.Interpreter.LoopFrame

The frame of a loop while the loop is made.

1. A loop that has been entered has a frame of its own, right above those that were there
   (`passFrame`).  The lines of the loop put frames of inner loops and of calls on top of
   it; each loop lies on a frame that stands at its first line (`LiesOn`).
2. As long as the stack is higher than it was, the frame of the loop stays where it is,
   whatever happens above it; it goes to a later line, or to its next pass (`Hop.over`).
-/

namespace Switchboard.Interpreter

/-- The frame of the loop that begins where `f` stands, in one of its passes. -/
def passFrame (f : Frame) (index line : Nat) : Frame :=
  { f with kind := .loop f.line, index, line, trapped := false }

/-- A frame lies on one that stands at the first line of its loop, if it has one. -/
def LiesOn (x y : Frame) : Prop :=
  ∀ opener, x.opener? = some opener → y.line = opener ∧ opener ≤ x.line

/-- The frame of a loop, in a pass and at a line, with other frames of the script on top. -/
structure Over (f : Frame) (below : List Frame) (index line : Nat) (above frames : List Frame) :
    Prop where
  frames : frames = above ++ passFrame f index line :: f :: below
  chain : List.IsChain LiesOn (above ++ [passFrame f index line])

/-- What becomes of the frame of a loop: it stays below others, goes to a later line, or
to its next pass. -/
inductive Turn (f : Frame) (index line : Nat) (above : List Frame) :
    Nat → Nat → List Frame → Prop
  | covered {after : List Frame} : after ≠ [] → Turn f index line above index line after
  | later {next : Nat} : line < next → Turn f index line above index next []
  | again : above = [] → Turn f index line above (index + 1) f.line []

section
variable {f x y : Frame} {below above frames after rest : List Frame} {index line : Nat}

theorem opener?_passFrame (f : Frame) (index line : Nat) :
    (passFrame f index line).opener? = some f.line := rfl

/-- A frame that goes to a later line lies where it did. -/
theorem LiesOn.later (h : LiesOn x y) {dest : Nat} (hlt : x.line < dest) :
    LiesOn { x with line := dest } y := fun opener ho =>
  ⟨(h opener ho).1, Nat.le_of_lt (Nat.lt_of_le_of_lt (h opener ho).2 hlt)⟩

/-- A frame of no loop lies on anything. -/
theorem LiesOn.of_not_isLoop (h : x.isLoop = false) : LiesOn x y := fun opener ho => by
  simp [Frame.isLoop, ho] at h

/-- A frame of no loop lies above the frame of the loop, or below it. -/
theorem suffix_over (h : x :: rest <:+ above ++ passFrame f index line :: f :: below)
    (hl : x.isLoop = false) :
    (∃ mid, x :: mid <:+ above ∧ rest = mid ++ passFrame f index line :: f :: below) ∨
      rest.length ≤ below.length := by
  induction above with
  | nil =>
      rcases List.suffix_cons_iff.mp h with heq | h
      · rw [(List.cons.inj heq).1] at hl
        contradiction
      · exact .inr (Nat.le_of_succ_le_succ h.length_le)
  | cons c above ih =>
      rcases List.suffix_cons_iff.mp h with heq | h
      · obtain ⟨rfl, rfl⟩ := List.cons.inj heq
        exact .inl ⟨above, List.suffix_refl _, rfl⟩
      · obtain ⟨mid, hsuffix, hrest⟩ | hlen := ih h
        · exact .inl ⟨mid, hsuffix.trans (List.suffix_cons _ _), hrest⟩
        · exact .inr hlen

/-- The frame on top of a chain may be another one that lies where it did. -/
theorem isChain_replace {bottom : Frame} (h : List.IsChain LiesOn (x :: above ++ [bottom]))
    (hy : ∀ z, LiesOn x z → LiesOn y z) : List.IsChain LiesOn (y :: above ++ [bottom]) := by
  cases above with
  | nil =>
      obtain ⟨hlies, hrest⟩ := List.isChain_cons_cons.mp h
      exact List.isChain_cons_cons.mpr ⟨hy _ hlies, hrest⟩
  | cons c above =>
      obtain ⟨hlies, hrest⟩ := List.isChain_cons_cons.mp h
      exact List.isChain_cons_cons.mpr ⟨hy _ hlies, hrest⟩

theorem isChain_suffix {bottom : Frame} (h : List.IsChain LiesOn (above ++ [bottom]))
    (hs : rest <:+ above) : List.IsChain LiesOn (rest ++ [bottom]) := by
  obtain ⟨top, rfl⟩ := hs
  rw [List.append_assoc] at h
  exact h.right_of_append

/-- As long as the stack is higher than the frames below the loop, the frame of the loop
stays where it is. -/
theorem Hop.over (h : Hop frames after) (ho : Over f below index line above frames)
    (hd : below.length + 1 < after.length) :
    ∃ index' line' above', Over f below index' line' above' after ∧
      Turn f index line above index' line' above' := by
  obtain ⟨hframes, hchain⟩ := ho
  cases h with
  | @onward x tail dest hlt =>
      cases above with
      | nil =>
          obtain ⟨rfl, rfl⟩ := List.cons.inj hframes
          exact ⟨index, dest, [], ⟨rfl, .singleton _⟩, .later hlt⟩
      | cons c above =>
          obtain ⟨rfl, rfl⟩ := List.cons.inj hframes
          refine ⟨index, line, { x with line := dest } :: above, ⟨rfl, ?_⟩, .covered (by simp)⟩
          exact isChain_replace hchain fun y hy => hy.later hlt
  | @enter x tail ho =>
      obtain ⟨rest, hrest⟩ : ∃ rest, above ++ [passFrame f index line] = x :: rest := by
        cases above with
        | nil => exact ⟨[], by rw [(List.cons.inj hframes).1]; rfl⟩
        | cons c above => exact ⟨_, by rw [(List.cons.inj hframes).1]; rfl⟩
      refine ⟨index, line, _ :: above, ⟨by rw [hframes]; rfl, ?_⟩, .covered (by simp)⟩
      rw [List.cons_append, hrest]
      refine List.isChain_cons_cons.mpr ⟨fun opener he => ?_, hrest ▸ hchain⟩
      obtain rfl := Option.some.inj he
      exact ⟨rfl, Nat.le_succ _⟩
  | @again x tail opener ho =>
      cases above with
      | nil =>
          obtain ⟨rfl, rfl⟩ := List.cons.inj hframes
          obtain rfl := Option.some.inj ho
          exact ⟨index + 1, f.line, [], ⟨rfl, .singleton _⟩, .again rfl⟩
      | cons c above =>
          obtain ⟨rfl, rfl⟩ := List.cons.inj hframes
          refine ⟨index, line, { x with index := x.index + 1, line := opener } :: above,
            ⟨rfl, ?_⟩, .covered (by simp)⟩
          refine isChain_replace hchain fun y hy opener' ho' => ?_
          obtain rfl := Option.some.inj (ho.symm.trans ho')
          exact ⟨(hy opener ho).1, Nat.le_refl _⟩
  | @leave x y tail opener dest ho hlt =>
      -- the loop itself is not left, since the stack is higher than what is below it
      cases above with
      | nil =>
          obtain ⟨-, htail⟩ := List.cons.inj hframes
          obtain ⟨rfl, rfl⟩ := List.cons.inj htail
          simp at hd
      | cons c above =>
          obtain ⟨rfl, htail⟩ := List.cons.inj hframes
          cases above with
          | nil =>
              obtain ⟨rfl, rfl⟩ := List.cons.inj htail
              have hlies := (List.isChain_cons_cons.mp hchain).1 opener ho
              refine ⟨index, dest, [], ⟨rfl, .singleton _⟩, .later ?_⟩
              exact Nat.lt_of_le_of_lt (Nat.le_trans (Nat.le_of_eq hlies.1) hlies.2) hlt
          | cons d above =>
              obtain ⟨rfl, rfl⟩ := List.cons.inj htail
              obtain ⟨hlies, hchain⟩ := List.isChain_cons_cons.mp hchain
              have hup : y.line < dest := by
                have := hlies opener ho
                omega
              refine ⟨index, line, { y with line := dest } :: above, ⟨rfl, ?_⟩,
                .covered (by simp)⟩
              exact isChain_replace hchain fun z hz => hz.later hup
  | @call c _ hc =>
      refine ⟨index, line, c :: above, ⟨by rw [hframes]; rfl, ?_⟩, .covered (by simp)⟩
      exact hchain.cons fun y _ => .of_not_isLoop (isLoop_of_isCall hc)
  | @away _ x y tail hout hl hk =>
      -- a frame that is no loop is cut down to: it lies on the loop, or below it
      obtain ⟨mid, hsuffix, rfl⟩ | hlen := suffix_over (hframes ▸ hout) hl
      · refine ⟨index, line, y :: mid, ⟨rfl, ?_⟩, .covered (by simp)⟩
        refine isChain_replace (isChain_suffix hchain hsuffix) fun _ _ => ?_
        exact .of_not_isLoop (by simpa [Frame.isLoop, Frame.opener?, hk] using hl)
      · rw [List.length_cons] at hd
        omega
  | @back _ x y tail hout hc =>
      obtain ⟨mid, hsuffix, hrest⟩ | hlen :=
        suffix_over (hframes ▸ hout) (isLoop_of_isCall hc)
      · cases mid with
        | nil =>
            obtain ⟨rfl, rfl⟩ := List.cons.inj hrest
            exact ⟨index, line + 1, [], ⟨rfl, .singleton _⟩, .later (Nat.lt_succ_self _)⟩
        | cons d mid =>
            obtain ⟨rfl, rfl⟩ := List.cons.inj hrest
            refine ⟨index, line, { y with line := y.line + 1 } :: mid, ⟨rfl, ?_⟩,
              .covered (by simp)⟩
            have hbelow := isChain_suffix hchain ((List.suffix_cons x _).trans hsuffix)
            exact isChain_replace hbelow fun z hz => hz.later (Nat.lt_succ_self _)
      · rw [List.length_cons] at hd hlen
        omega

end

end Switchboard.Interpreter
