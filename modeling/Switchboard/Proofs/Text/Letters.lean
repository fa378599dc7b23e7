import Switchboard.Text.Blank
import Switchboard.Text.Letters
import Switchboard.Text.Numeral

/-!
# Switchboard.Proofs.Text.Letters

Letters and digits.

1. To make the letters of a text small changes letters only, so that what is no letter is
   found in the same places.
2. Neither letters nor digits are blanks.
-/

namespace Switchboard.Text

/-- Capitals are those from `A` to `Z`. -/
theorem isUpper_iff (c : Char) : c.isUpper = true ↔ 65 ≤ c.toNat ∧ c.toNat ≤ 90 :=
  decide_eq_true_iff.trans (and_congr UInt32.le_iff_toNat_le UInt32.le_iff_toNat_le)

/-- Small letters are those from `a` to `z`. -/
theorem isLower_iff (c : Char) : c.isLower = true ↔ 97 ≤ c.toNat ∧ c.toNat ≤ 122 :=
  (Bool.and_eq_true_iff.trans (and_congr decide_eq_true_iff decide_eq_true_iff)).trans
    (and_congr UInt32.le_iff_toNat_le UInt32.le_iff_toNat_le)

/-- A small letter comes 32 places after its capital. -/
theorem toNat_toLower {c : Char} (h : c.isUpper = true) : c.toLower.toNat = c.toNat + 32 := by
  have hc := (isUpper_iff c).mp h
  have hsum : (c.val + ('a'.val - 'A'.val)).toNat = c.val.toNat + 32 := by
    rw [UInt32.toNat_add]
    exact Nat.mod_eq_of_lt (Nat.lt_of_le_of_lt (Nat.add_le_add_right hc.2 32) (by decide))
  unfold Char.toLower
  rw [dif_pos (of_decide_eq_true h)]
  exact hsum

/-- Only letters become letters, and only those differ. -/
theorem toLower_eq_iff {d : Char} (h : d.isAlpha = false) (c : Char) :
    c.toLower = d ↔ c = d := by
  obtain ⟨hupper, hlower⟩ := Bool.or_eq_false_iff.mp h
  cases hc : c.isUpper with
  | true =>
      have hbounds := (isUpper_iff c).mp hc
      constructor
      · rintro rfl
        rw [(isLower_iff _).mpr (by rw [toNat_toLower hc]; omega)] at hlower
        contradiction
      · rintro rfl
        rw [hc] at hupper
        contradiction
  | false =>
      unfold Char.toLower
      rw [dif_neg (of_decide_eq_false hc)]

/-- What is no letter is found in a text with small letters where it was. -/
theorem mem_map_toLower {d : Char} (h : d.isAlpha = false) {cs : List Char} :
    d ∈ cs.map Char.toLower ↔ d ∈ cs := by
  simp [List.mem_map, toLower_eq_iff h]

/-! ## bounds -/

variable {c : Char}

/-- Digits are those from `0` to `9`. -/
theorem bounds_of_isDigit (h : isDigit c = true) : 48 ≤ c.toNat ∧ c.toNat ≤ 57 := by
  simpa [isDigit, Char.isDigit, UInt32.le_iff_toNat_le] using h

/-- Letters are capitals or small letters. -/
theorem bounds_of_isAlpha (h : c.isAlpha = true) :
    65 ≤ c.toNat ∧ c.toNat ≤ 90 ∨ 97 ≤ c.toNat ∧ c.toNat ≤ 122 := by
  rcases Bool.or_eq_true_iff.mp h with h | h
  · exact .inl ((isUpper_iff c).mp h)
  · exact .inr ((isLower_iff c).mp h)

/-- No digit is blank. -/
theorem isBlank_of_isDigit (h : isDigit c = true) : isBlank c = false := by
  have hc := bounds_of_isDigit h
  simp only [isBlank, Bool.or_eq_false_iff, Bool.and_eq_false_iff, decide_eq_false_iff_not,
    beq_eq_false_iff_ne]
  omega

/-- No letter is. -/
theorem isBlank_of_isAlpha (h : c.isAlpha = true) : isBlank c = false := by
  have hc := bounds_of_isAlpha h
  simp only [isBlank, Bool.or_eq_false_iff, Bool.and_eq_false_iff, decide_eq_false_iff_not,
    beq_eq_false_iff_ne]
  omega

/-- A numeral has digits, and nothing else. -/
theorem digits_of_isNumeral {cs : List Char} (h : isNumeral cs = true) :
    cs ≠ [] ∧ ∀ c ∈ cs, isDigit c = true := by
  obtain ⟨hne, hall⟩ := Bool.and_eq_true_iff.mp h
  exact ⟨by simpa using hne, List.all_eq_true.mp hall⟩

end Switchboard.Text
