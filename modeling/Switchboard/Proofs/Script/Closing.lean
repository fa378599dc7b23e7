import Switchboard.Proofs.Script.Enclosing

/-!
# Switchboard.Proofs.Script.Closing

Where searches over the lines of a header end.

1. They go forward only.
2. From any line of a loop in a well-nested header, the search for its end leads to the
   line after the one that closes it (`Header.WellNested.pastLoop_closer`).
-/

namespace Switchboard

/-! ## forward -/

namespace Scan

theorem lt_closer (role : Command → Role) (lines : List Line) (start : Nat) :
    start < closer role lines start := by
  have hnext := lt_next role lines
  induction start using closer.induct role lines with
  | case1 start at_ h hc =>
      rw [closer, dif_pos h, if_pos hc]
      exact hnext start
  | case2 start at_ h hc ih =>
      rw [closer, dif_pos h, if_neg hc]
      exact Nat.lt_trans (hnext start) ih
  | case3 start at_ h =>
      rw [closer, dif_neg h]
      exact hnext start

theorem lt_taken {role : Command → Role} {guard : Command → Option Condition}
    {holds : Condition → Except Fault Bool} {lines : List Line} {start dest : Nat}
    (h : taken role guard holds lines start = .ok dest) : start < dest := by
  have hnext := lt_next role lines
  induction start using taken.induct role guard holds lines with
  | case1 start hlt hg =>
      rw [taken, dif_pos hlt, hg] at h
      exact Except.ok.inj h ▸ Nat.lt_succ_self start
  | case2 start hlt cond hg cause hc =>
      rw [taken, dif_pos hlt, hg] at h
      simp [hc] at h
  | case3 start hlt cond hg hc =>
      rw [taken, dif_pos hlt, hg] at h
      simp only [hc] at h
      exact Except.ok.inj h ▸ Nat.lt_succ_self start
  | case4 start hlt cond hg hc ih =>
      rw [taken, dif_pos hlt, hg] at h
      simp only [hc] at h
      exact Nat.lt_trans (hnext start) (ih h)
  | case5 start hlt =>
      rw [taken, dif_neg hlt] at h
      exact Except.ok.inj h ▸ Nat.lt_succ_self start

theorem lt_pastLoop (lines : List Line) (start depth : Nat) :
    start < pastLoop lines start depth := by
  unfold pastLoop
  omega

end Scan

/-! ## the end of a loop -/

/-- Line `n` closes the loop that begins at line `opener`: no other loop is open inside of
that one. -/
structure ClosesLoop (lines : List Line) (opener n : Nat) : Prop where
  closes : ∃ l, lines[n]? = some l ∧ l.command.bracket = .closes .loop
  innermost : (openLoops lines n).head? = some opener

namespace Header.WellNested

variable {h : Header} (w : h.WellNested) {opener p : Nat} {outer : List Nat}
include w

/-- The search for the end of a loop, from a line of it, finds the line that closes it. -/
theorem pastLoop_closer (hp : p < h.lines.length)
    (hopen : opener :: outer <:+ openLoops h.lines (p + 1)) :
    ∃ n, Scan.pastLoop h.lines p outer.length = n + 1 ∧ p < n ∧ ClosesLoop h.lines opener n := by
  unfold Scan.pastLoop
  generalize hd : h.lines.drop (p + 1) = ls
  change ∃ n, _ ∧ p + 1 ≤ n ∧ _
  replace hp : p + 1 ≤ h.lines.length := hp
  generalize p + 1 = q at hd hp hopen
  induction ls generalizing q with
  | nil =>
      have hlen : q = h.lines.length := Nat.le_antisymm hp (List.drop_eq_nil_iff.mp hd)
      simp [hlen, openLoops, w.ends] at hopen
  | cons l ls ih =>
      obtain ⟨hl, hlt, hrest⟩ := drop_eq_cons hd
      have hsucc := w.openLoops_succ hl
      have hdeep : outer.length < l.depth := by
        rw [w.depth q l hl]
        exact hopen.length_le
      rw [List.takeWhile_cons_of_pos (by simpa using hdeep), List.length_cons]
      by_cases hlast : openLoops h.lines q = opener :: outer ∧ l.command.bracket = .closes .loop
      · -- behind the line that closes the loop, the next one is not deeper than the loop
        obtain ⟨hloops, hcloses⟩ := hlast
        rw [hloops, hcloses, List.tail_cons] at hsucc
        have hstop : (ls.takeWhile fun l => outer.length < l.depth) = [] := by
          cases ls with
          | nil => rfl
          | cons l' rest =>
              obtain ⟨hl', -, -⟩ := drop_eq_cons hrest
              rw [List.takeWhile_cons_of_neg]
              simp [w.depth (q + 1) l' hl', hsucc]
        exact ⟨q, by simp [hstop], Nat.le_refl q, ⟨l, hl, hcloses⟩, by rw [hloops]; rfl⟩
      · have hstays : opener :: outer <:+ openLoops h.lines (q + 1) := by
          rw [hsucc]
          split
          · exact hopen.trans (List.suffix_cons _ _)
          · next hcloses =>
              obtain ⟨inner, hinner⟩ := hopen
              cases inner with
              | nil => exact absurd ⟨hinner.symm, hcloses⟩ hlast
              | cons o inner => exact ⟨inner, by rw [← hinner]; rfl⟩
          · exact hopen
        obtain ⟨n, hn, hqn, hcloses⟩ := ih (q + 1) hrest hlt hstays
        exact ⟨n, by omega, Nat.le_of_succ_le hqn, hcloses⟩

/-- From its first line, at the depth of that line, a loop ends after the line that
closes it. -/
theorem pastLoop_opener {l : Line} (hl : h.lines[opener]? = some l)
    (hopens : l.command.bracket = .opens .loop) :
    ∃ n, Scan.pastLoop h.lines opener l.depth = n + 1 ∧ opener < n ∧
      ClosesLoop h.lines opener n := by
  have hsucc := w.openLoops_succ hl
  rw [hopens] at hsucc
  rw [w.depth opener l hl]
  exact w.pastLoop_closer (List.getElem?_eq_some_iff.mp hl).1 (hsucc ▸ List.suffix_refl _)

end Header.WellNested

end Switchboard
