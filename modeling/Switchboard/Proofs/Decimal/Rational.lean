import Mathlib.Algebra.Order.Field.Basic
import Mathlib.Data.Rat.Floor
import Mathlib.Tactic.FieldSimp
import Mathlib.Tactic.Positivity
import Mathlib.Tactic.Ring
import Switchboard.Proofs.Decimal.Word

/-!
# Switchboard.Proofs.Decimal.Rational

The numbers that decimals denote.

1. `toRat` is the number that a decimal denotes; at one scale no two decimals
   denote the same.
2. `truncate` cuts a number to a whole one, and `cut` to a scale, both toward
   nought. The quotient of whole numbers is the truncated one.
3. A decimal brought to another scale denotes its number cut to that scale,
   which is its number where the scale is no less.
-/

namespace Switchboard.Decimal

/-! ## the denoted number -/

/-- The number that a decimal denotes. -/
def toRat (d : Decimal) : ℚ := d.units / 10 ^ d.scale

theorem pow_ten_pos (n : Nat) : (0 : ℚ) < 10 ^ n := by positivity

theorem pow_ten_ne_zero (n : Nat) : (10 : ℚ) ^ n ≠ 0 := (pow_ten_pos n).ne'

theorem power_cast (n : Nat) : ((power n : Int) : ℚ) = 10 ^ n := by simp [power]

/-- The units of a decimal at a scale that is no less than its own. -/
theorem toRat_mul_pow {d : Decimal} {scale : Nat} (h : d.scale ≤ scale) :
    d.toRat * 10 ^ scale = ((d.units * power (scale - d.scale) : Int) : ℚ) := by
  obtain ⟨k, rfl⟩ := Nat.exists_eq_add_of_le h
  have hnonzero := pow_ten_ne_zero d.scale
  rw [Int.cast_mul, power_cast, Nat.add_sub_cancel_left, toRat, pow_add]
  field_simp

theorem toRat_mul_pow_scale (d : Decimal) : d.toRat * 10 ^ d.scale = d.units :=
  div_mul_cancel₀ _ (pow_ten_ne_zero d.scale)

/-- At one scale a number is denoted once. -/
theorem eq_of_toRat_eq {a b : Decimal} (hscale : a.scale = b.scale) (h : a.toRat = b.toRat) :
    a = b := by
  have hunits : (a.units : ℚ) = b.units := by
    rw [← toRat_mul_pow_scale, ← toRat_mul_pow_scale, h, hscale]
  obtain ⟨m, s⟩ := a
  obtain ⟨n, s'⟩ := b
  obtain rfl : s = s' := hscale
  obtain rfl : m = n := Int.cast_injective hunits
  rfl

/-! ## cutting digits off -/

/-- The whole part of a number: its digits behind the point are cut off. -/
def truncate (q : ℚ) : Int := if 0 ≤ q then ⌊q⌋ else ⌈q⌉

/-- The number with the digits behind the first `scale` places cut off. -/
def cut (scale : Nat) (q : ℚ) : ℚ := truncate (q * 10 ^ scale) / 10 ^ scale

theorem truncate_neg (q : ℚ) : truncate (-q) = -truncate q := by
  unfold truncate
  obtain h | rfl | h := lt_trichotomy q 0
  · rw [if_pos (by linarith), if_neg (by linarith), Int.floor_neg]
  · simp
  · rw [if_neg (by linarith), if_pos (by linarith), Int.ceil_neg]

/-- The whole part of a quotient of whole numbers is their truncated quotient. -/
theorem truncate_div (m n : Int) : truncate (m / n) = m.tdiv n := by
  have hnatural (a b : Nat) : truncate ((a : ℚ) / b) = (a : Int).tdiv b := by
    rw [truncate, if_pos (by positivity), Rat.floor_natCast_div_natCast]
    rfl
  obtain ⟨a, rfl | rfl⟩ := m.eq_nat_or_neg <;> obtain ⟨b, rfl | rfl⟩ := n.eq_nat_or_neg <;>
    simp only [Int.cast_neg, Int.cast_natCast, neg_div, div_neg, truncate_neg, hnatural,
      Int.neg_tdiv, Int.tdiv_neg, neg_neg]

theorem truncate_intCast (n : Int) : truncate n = n := by
  have h := truncate_div n 1
  rwa [Int.cast_one, div_one, Int.tdiv_one] at h

/-- Nothing is cut off a number at a scale that is no less than its own. -/
theorem cut_toRat {d : Decimal} {scale : Nat} (h : d.scale ≤ scale) :
    cut scale d.toRat = d.toRat := by
  rw [cut, toRat_mul_pow h, truncate_intCast, ← toRat_mul_pow h]
  exact mul_div_cancel_right₀ _ (pow_ten_ne_zero scale)

/-! ## other scales -/

/-- A decimal brought to another scale denotes its number cut to that scale. -/
theorem toRat_of_rescale {d v : Decimal} {scale : Nat} (h : d.rescale scale = .ok v) :
    v.toRat = cut scale d.toRat := by
  have hscaled := scale_of_rescale h
  have hunits : (v.units : ℚ) = truncate (d.toRat * 10 ^ scale) := by
    unfold rescale at h
    split at h
    · next hle =>
      obtain ⟨n, hn, rfl⟩ := ok_of_map h
      obtain ⟨rfl, -⟩ := eq_of_checked hn
      rw [toRat_mul_pow hle, truncate_intCast]
    · next hgt =>
      cases h
      obtain ⟨k, hk⟩ := Nat.exists_eq_add_of_le (Nat.le_of_not_le hgt)
      have hquotient : d.toRat * 10 ^ scale = (d.units : ℚ) / (power k : Int) := by
        have hnonzero := pow_ten_ne_zero scale
        rw [power_cast, toRat, hk, pow_add]
        field_simp
      rw [hquotient, truncate_div, hk, Nat.add_sub_cancel_left]
  rw [cut, ← hunits, ← hscaled, toRat]

end Switchboard.Decimal
