import Switchboard.Text.Numeral

/-!
# Switchboard.Proofs.Text.Numeral

Texts that denote numbers.

A numeral below a bound is read exactly from the texts that denote it: digits, with a
plus sign in front or without one (`readNat_eq_some_iff`).
-/

namespace Switchboard.Text

/-- A text denotes a number below a bound, by its digits. -/
structure Denotes (bound : Nat) (cs : List Char) (n : Nat) : Prop where
  digits : ∃ digits, (cs = digits ∨ cs = '+' :: digits) ∧ isNumeral digits = true ∧
    value digits = n
  bounded : n < bound

/-- No numeral begins with a sign. -/
theorem unsigned_numeral {digits : List Char} (h : isNumeral digits = true) :
    unsigned digits = digits := by
  unfold unsigned
  split
  · simp [isNumeral, isDigit] at h
  · rfl

/-- Numbers are read from the texts that denote them, and from nothing else. -/
theorem readNat_eq_some_iff {bound n : Nat} {cs : List Char} :
    readNat bound cs = some n ↔ Denotes bound cs n := by
  simp only [readNat]
  constructor
  · intro h
    split at h
    · next hdigits =>
        obtain rfl := Option.some.inj h
        obtain ⟨hnumeral, hbound⟩ := Bool.and_eq_true_iff.mp hdigits
        refine ⟨⟨unsigned cs, ?_, hnumeral, rfl⟩, of_decide_eq_true hbound⟩
        unfold unsigned
        split
        · exact .inr rfl
        · exact .inl rfl
    · contradiction
  · rintro ⟨⟨digits, hcs, hnumeral, rfl⟩, hbound⟩
    have hdigits : unsigned cs = digits := by
      rcases hcs with rfl | rfl
      · exact unsigned_numeral hnumeral
      · rfl
    rw [hdigits, if_pos (by simp [hnumeral, hbound])]

end Switchboard.Text
