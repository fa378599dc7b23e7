import Mathlib.Algebra.Order.Field.Power
import Mathlib.Algebra.Ring.Parity
import Mathlib.Data.Int.Log
import Mathlib.Data.Rat.Floor
import Mathlib.Tactic.FieldSimp
import Mathlib.Tactic.Linarith
import Mathlib.Tactic.NormNum
import Mathlib.Tactic.Positivity
import Mathlib.Tactic.Ring
import Switchboard.Scientific

/-!
# Switchboard.Proofs.Number.Binary

The binary number nearest to a fraction.

1. Rounding a quotient reaches a whole number from half a unit below it on, from just
   there only if the number is even (`le_roundDiv_iff`).
2. The last place of the binary number nearest to a fraction `q` weighs `2 ^ e`, where
   `e` is 52 less than the power of two just below `q`, but no less than -1074.
3. So it reaches a power of two from a quarter of the place above it on
   (`zpow_le_toRat_ofFraction`), it is nought up to half of the least place, and it is no
   further from the fraction than half of its own (`Nearest`).
-/

namespace Switchboard

/-! ## quotients -/

/-- Where a quotient lies between two whole numbers, and which of them is taken. -/
theorem roundDiv_cases (a : Nat) {b : Nat} (hb : 0 < b) : ∃ q : Nat, (q : ℚ) ≤ a / b ∧
    ((a / b : ℚ) < q + 1 / 2 ∧ roundDiv a b = q ∨
      (q + 1 / 2 : ℚ) < a / b ∧ (a / b : ℚ) < q + 1 ∧ roundDiv a b = q + 1 ∨
      (a / b : ℚ) = q + 1 / 2 ∧ roundDiv a b = q + q % 2) := by
  have hpos : (0 : ℚ) < b := by exact_mod_cast hb
  have hsplit : (a / b : ℚ) = (a / b : Nat) + (a % b : Nat) / b := by
    have hcast : (a : ℚ) = b * (a / b : Nat) + (a % b : Nat) := by
      exact_mod_cast (Nat.div_add_mod a b).symm
    rw [hcast]
    field_simp
  have hrest : ((a % b : Nat) / b : ℚ) < 1 := by
    rw [div_lt_one hpos]
    exact_mod_cast Nat.mod_lt a hb
  have hleast : (0 : ℚ) ≤ (a % b : Nat) / b := by positivity
  refine ⟨a / b, by linarith, ?_⟩
  unfold roundDiv
  dsimp only
  rcases lt_trichotomy (2 * (a % b)) b with hlt | heq | hgt
  · have hhalf : ((a % b : Nat) / b : ℚ) < 1 / 2 := by
      rw [div_lt_div_iff₀ hpos two_pos, one_mul, mul_comm]
      exact_mod_cast hlt
    exact .inl ⟨by linarith, if_pos hlt⟩
  · have hhalf : ((a % b : Nat) / b : ℚ) = 1 / 2 := by
      rw [div_eq_div_iff hpos.ne' two_ne_zero, one_mul, mul_comm]
      exact_mod_cast heq
    refine .inr (.inr ⟨by linarith, ?_⟩)
    rw [if_neg (by omega), if_neg (by omega)]
  · have hhalf : (1 / 2 : ℚ) < (a % b : Nat) / b := by
      rw [div_lt_div_iff₀ two_pos hpos, one_mul, mul_comm _ (2 : ℚ)]
      exact_mod_cast hgt
    refine .inr (.inl ⟨by linarith, by linarith, ?_⟩)
    rw [if_neg (by omega), if_pos hgt]

/-- What is rounded is no further than half a unit. -/
theorem abs_roundDiv_sub (a : Nat) {b : Nat} (hb : 0 < b) :
    |(roundDiv a b : ℚ) - a / b| ≤ 1 / 2 := by
  obtain ⟨q, hle, ⟨hlt, h⟩ | ⟨hgt, hlt, h⟩ | ⟨heq, h⟩⟩ := roundDiv_cases a hb
  · rw [h, abs_le]
    constructor <;> linarith
  · rw [h, abs_le]
    push_cast
    constructor <;> linarith
  · have hparity : ((q % 2 : Nat) : ℚ) ≤ 1 := by
      exact_mod_cast Nat.le_of_lt_succ (Nat.mod_lt q two_pos)
    have hleast : (0 : ℚ) ≤ (q % 2 : Nat) := Nat.cast_nonneg _
    rw [h, heq, abs_le, Nat.cast_add]
    constructor <;> linarith

/-- A whole number is reached from half a unit below it on; just there, if it is even. -/
theorem le_roundDiv_iff (a : Nat) {b : Nat} (hb : 0 < b) (k : Nat) : k ≤ roundDiv a b ↔
    (k - 1 / 2 : ℚ) < a / b ∨ (k - 1 / 2 : ℚ) = a / b ∧ Even k := by
  obtain ⟨q, hle, hcases⟩ := roundDiv_cases a hb
  rcases Nat.lt_trichotomy k (q + 1) with hk | rfl | hk
  · have hq : (k : ℚ) ≤ q := by exact_mod_cast Nat.le_of_lt_succ hk
    refine iff_of_true ?_ (.inl (by linarith))
    rcases hcases with ⟨-, h⟩ | ⟨-, -, h⟩ | ⟨-, h⟩ <;> omega
  · have hq : ((q + 1 : Nat) : ℚ) = q + 1 := Nat.cast_succ q
    rcases hcases with ⟨hlt, h⟩ | ⟨hgt, -, h⟩ | ⟨heq, h⟩
    · refine iff_of_false (by omega) (not_or.mpr ⟨by linarith, fun hhalf => ?_⟩)
      linarith [hhalf.1]
    · exact iff_of_true (by omega) (.inl (by linarith))
    · rw [h, heq, hq, Nat.even_iff]
      constructor
      · intro hreach
        exact .inr ⟨by ring, by omega⟩
      · rintro (hlt | ⟨-, heven⟩)
        · linarith
        · omega
  · have hq : (q + 2 : ℚ) ≤ k := by exact_mod_cast hk
    refine iff_of_false ?_ (not_or.mpr ⟨?_, fun hhalf => ?_⟩)
    · rcases hcases with ⟨-, h⟩ | ⟨-, -, h⟩ | ⟨-, h⟩ <;> omega
    · rcases hcases with ⟨hlt, -⟩ | ⟨-, hlt, -⟩ | ⟨heq, -⟩ <;> linarith
    · rcases hcases with ⟨hlt, -⟩ | ⟨-, hlt, -⟩ | ⟨heq, -⟩ <;> linarith [hhalf.1]

namespace Binary

/-- The number that a binary number denotes. -/
def toRat (b : Binary) : ℚ := b.mantissa * 2 ^ b.exponent

/-- A power on either side of a fraction. -/
theorem pow_toNat_div (a : ℚ) (e : Int) : a ^ e.toNat / a ^ (-e).toNat = a ^ e := by
  rcases Int.le_total 0 e with h | h
  · rw [Int.toNat_of_nonpos (Int.neg_nonpos_of_nonneg h), pow_zero, div_one, ← zpow_natCast,
      Int.toNat_of_nonneg h]
  · rw [Int.toNat_of_nonpos h, pow_zero, one_div, ← zpow_natCast, ← zpow_neg,
      Int.toNat_of_nonneg (Int.neg_nonneg_of_nonpos h), neg_neg]

variable {num den : Nat} {p : Int}

/-- A fraction in units of a power of two. -/
theorem scaled (num den : Nat) (e : Int) :
    ((num * Nat.pow 2 (-e).toNat : Nat) : ℚ) / (den * Nat.pow 2 e.toNat : Nat) =
      num / den / 2 ^ e := by
  rw [← pow_toNat_div 2 e]
  simp only [Nat.pow_eq]
  push_cast
  rw [mul_div_mul_comm, div_div_eq_mul_div]
  ring

theorem atLeast_iff (b : Binary) (power : Nat) :
    b.atLeast power = true ↔ (2 : ℚ) ^ power ≤ b.toRat := by
  have hpos : (0 : ℚ) < 2 ^ (-b.exponent).toNat := by positivity
  rw [atLeast, decide_eq_true_iff, toRat, ← pow_toNat_div, ← mul_div_assoc, le_div_iff₀ hpos,
    ← pow_add]
  simp only [Nat.pow_eq]
  exact_mod_cast Iff.rfl

/-! ## the power of two below a fraction -/

theorem log_eq_iff {q : ℚ} (hq : 0 < q) (e : Int) :
    Int.log 2 q = e ↔ (2 : ℚ) ^ e ≤ q ∧ q < 2 ^ (e + 1) := by
  have hle := Int.zpow_le_iff_le_log (b := 2) (x := e) one_lt_two hq
  have hlt := Int.lt_zpow_iff_log_lt (b := 2) (x := e + 1) one_lt_two hq
  push_cast at hle hlt
  rw [hle, hlt]
  omega

theorem lt_zpow_of_log_lt {q : ℚ} (hq : 0 < q) {e : Int} (h : Int.log 2 q < e) :
    q < 2 ^ e := by
  exact_mod_cast (Int.lt_zpow_iff_log_lt one_lt_two hq).mpr h

/-- A fraction of two numbers with so many binary places. -/
theorem log2_bounds (hnum : 0 < num) (hden : 0 < den) :
    (2 : ℚ) ^ ((num.log2 : Int) - den.log2 - 1) < num / den ∧
      (num / den : ℚ) < 2 ^ ((num.log2 : Int) - den.log2 + 1) := by
  have hposd : (0 : ℚ) < den := by exact_mod_cast hden
  have hnle : (2 : ℚ) ^ num.log2 ≤ num := by exact_mod_cast Nat.log2_self_le hnum.ne'
  have hnlt : (num : ℚ) < 2 ^ (num.log2 + 1) := by exact_mod_cast Nat.lt_log2_self
  have hdle : (2 : ℚ) ^ den.log2 ≤ den := by exact_mod_cast Nat.log2_self_le hden.ne'
  have hdlt : (den : ℚ) < 2 ^ (den.log2 + 1) := by exact_mod_cast Nat.lt_log2_self
  have hpow : ∀ a b : Nat, (2 : ℚ) ^ ((a : Int) - b) = 2 ^ a / 2 ^ b := fun a b => by
    rw [zpow_sub₀ two_ne_zero, zpow_natCast, zpow_natCast]
  constructor
  · have hlow : ((num.log2 : Int) - den.log2 - 1) = (num.log2 : Nat) - (den.log2 + 1 : Nat) := by
      push_cast
      ring
    rw [hlow, hpow]
    exact div_lt_div₀' hnle hdlt (by positivity) hposd
  · have hhigh : ((num.log2 : Int) - den.log2 + 1) = (num.log2 + 1 : Nat) - (den.log2 : Nat) := by
      push_cast
      ring
    rw [hhigh, hpow]
    exact div_lt_div₀ hnlt hdle (by positivity) (by positivity)

/-- The greatest power of two that a fraction reaches. -/
theorem magnitude_eq (hnum : 0 < num) (hden : 0 < den) :
    magnitude num den = Int.log 2 (num / den : ℚ) := by
  have hposn : (0 : ℚ) < num := by exact_mod_cast hnum
  have hposd : (0 : ℚ) < den := by exact_mod_cast hden
  obtain ⟨hlow, hhigh⟩ := log2_bounds hnum hden
  unfold magnitude
  dsimp only
  generalize (num.log2 : Int) - den.log2 = e at hlow hhigh ⊢
  have hreach : den * Nat.pow 2 e.toNat ≤ num * Nat.pow 2 (-e).toNat ↔
      (2 : ℚ) ^ e ≤ num / den := by
    have hposden : (0 : ℚ) < (den * Nat.pow 2 e.toNat : Nat) := by
      exact_mod_cast Nat.mul_pos hden (Nat.pow_pos two_pos)
    rw [← one_mul ((2 : ℚ) ^ e), ← le_div_iff₀ (by positivity), ← scaled, one_le_div hposden,
      Nat.cast_le]
  symm
  rw [log_eq_iff (div_pos hposn hposd)]
  split
  · next h => exact ⟨hreach.mp h, hhigh⟩
  · next h =>
      rw [sub_add_cancel]
      exact ⟨hlow.le, lt_of_not_ge (mt hreach.mpr h)⟩

/-! ## nearest numbers -/

/-- A binary number as near to `q` as rounding brings it. -/
structure Nearest (q : ℚ) (b : Binary) : Prop where
  /-- It is nought up to half of the least place. -/
  pos_iff : 0 < b.mantissa ↔ 2 ^ (-1075 : Int) < q
  /-- It reaches a power of two from a quarter of a place of that power below it on. -/
  atLeast_iff : ∀ power : Nat,
    b.atLeast power = true ↔ (2 ^ power - 2 ^ (power - 54 : Int) : ℚ) ≤ q
  near : |b.toRat - q| ≤ q / 2 ^ 53 + 2 ^ (-1075 : Int)

/-- The exponent of the last place of the binary number nearest to a fraction. -/
def lastPlace (q : ℚ) : Int := max (Int.log 2 q - 52) (-1074)

theorem ofFraction_eq (hnum : 0 < num) (hden : 0 < den) {e : Int}
    (he : lastPlace (num / den) = e) : ofFraction num den =
      ⟨roundDiv (num * Nat.pow 2 (-e).toNat) (den * Nat.pow 2 e.toNat), e⟩ := by
  rw [← he, lastPlace, ← magnitude_eq hnum hden]
  rfl

theorem exponent_ofFraction (hnum : 0 < num) (hden : 0 < den) {e : Int}
    (he : lastPlace (num / den) = e) : (ofFraction num den).exponent = e := by
  rw [ofFraction_eq hnum hden he]

/-- Numbers of last places that are rounded to no less than `k`. -/
theorem le_mantissa_iff (hnum : 0 < num) (hden : 0 < den) {e : Int}
    (he : lastPlace (num / den) = e) (k : Nat) : k ≤ (ofFraction num den).mantissa ↔
      (k - 1 / 2 : ℚ) * 2 ^ e < num / den ∨
        (k - 1 / 2 : ℚ) * 2 ^ e = num / den ∧ Even k := by
  have hunit : (0 : ℚ) < 2 ^ e := by positivity
  have hpos : 0 < den * Nat.pow 2 e.toNat := Nat.mul_pos hden (Nat.pow_pos two_pos)
  rw [ofFraction_eq hnum hden he, le_roundDiv_iff _ hpos, scaled, lt_div_iff₀ hunit,
    eq_div_iff hunit.ne']

/-- It is no further from the fraction than half of its last place. -/
theorem abs_ofFraction_sub (hnum : 0 < num) (hden : 0 < den) {e : Int}
    (he : lastPlace (num / den) = e) :
    |(ofFraction num den).toRat - num / den| ≤ 2 ^ e / 2 := by
  have hunit : (0 : ℚ) < 2 ^ e := by positivity
  have hpos : 0 < den * Nat.pow 2 e.toNat := Nat.mul_pos hden (Nat.pow_pos two_pos)
  have hround := abs_roundDiv_sub (num * Nat.pow 2 (-e).toNat) hpos
  rw [scaled] at hround
  rw [ofFraction_eq hnum hden he, toRat]
  have hscale : ∀ n : ℚ, |n * 2 ^ e - num / den| = |n - num / den / 2 ^ e| * 2 ^ e := by
    intro n
    rw [← abs_of_pos hunit, ← abs_mul, abs_of_pos hunit, sub_mul, div_mul_cancel₀ _ hunit.ne']
  rw [hscale]
  linarith [mul_le_mul_of_nonneg_right hround hunit.le]

/-- Powers of two that are `k` places apart. -/
theorem zpow_eq_mul (e : Int) (k : Nat) : (2 : ℚ) ^ e = 2 ^ k * 2 ^ (e - k) := by
  rw [zpow_sub₀ two_ne_zero, zpow_natCast]
  field_simp

/-- The least place, and half of it. -/
theorem least_place : (2 : ℚ) ^ (-1074 : Int) = 2 * 2 ^ (-1075 : Int) := by
  rw [zpow_eq_mul (-1074) 1]
  norm_num

/-- The number is not nought exactly if the fraction is more than half of the least place. -/
theorem mantissa_pos_iff (hnum : 0 < num) (hden : 0 < den) :
    0 < (ofFraction num den).mantissa ↔ 2 ^ (-1075 : Int) < (num / den : ℚ) := by
  have hq : (0 : ℚ) < num / den := by positivity
  obtain ⟨hbelow, -⟩ := (log_eq_iff hq _).mp rfl
  generalize hm : Int.log 2 (num / den : ℚ) = m at hbelow
  have hone : ∀ e, lastPlace (num / den) = e →
      (0 < (ofFraction num den).mantissa ↔ (2 ^ e / 2 : ℚ) < num / den) := by
    intro e he
    have hhalf : ((1 : Nat) - 1 / 2 : ℚ) * 2 ^ e = 2 ^ e / 2 := by
      push_cast
      ring
    rw [← Nat.succ_le_iff, le_mantissa_iff hnum hden he, hhalf]
    simp
  rcases le_or_gt (m - 52) (-1074) with hleast | hmore
  · have he : lastPlace (num / den) = -1074 := by rw [lastPlace, hm, max_eq_right hleast]
    rw [hone _ he, least_place, mul_div_cancel_left₀ _ two_ne_zero]
  · have he : lastPlace (num / den) = m - 52 := by rw [lastPlace, hm, max_eq_left hmore.le]
    have hunit : (0 : ℚ) < 2 ^ (m - 52) := by positivity
    have hscale := zpow_eq_mul m 52
    push_cast at hscale
    refine iff_of_true ((hone _ he).mpr (by linarith)) ?_
    calc (2 : ℚ) ^ (-1075 : Int) < 2 ^ m := zpow_lt_zpow_right₀ one_lt_two (by omega)
      _ ≤ num / den := hbelow

/-- A fraction that is more than one power of two below another stays below that. -/
theorem ofFraction_lt_zpow (hnum : 0 < num) (hden : 0 < den) (hp : -1021 ≤ p)
    (hless : Int.log 2 (num / den : ℚ) < p - 1) : (ofFraction num den).toRat < 2 ^ p := by
  have hhalf : (num / den : ℚ) < 2 ^ (p - 1) := lt_zpow_of_log_lt (by positivity) hless
  have hlast : (2 : ℚ) ^ lastPlace (num / den) ≤ 2 ^ (p - 1) := by
    refine zpow_le_zpow_right₀ one_le_two ?_
    unfold lastPlace
    omega
  have hunit : (0 : ℚ) < 2 ^ (p - 1) := by positivity
  have hwhole := zpow_eq_mul p 1
  have hnear := (abs_le.mp (abs_ofFraction_sub hnum hden rfl)).2
  push_cast at hwhole
  linarith

/-- A power of two that a fraction reaches is reached when it is rounded, unless places
are missing. -/
theorem zpow_le_ofFraction (hnum : 0 < num) (hden : 0 < den) {m : Int}
    (hm : Int.log 2 (num / den : ℚ) = m) (hnormal : -1022 ≤ m) :
    (2 : ℚ) ^ m ≤ (ofFraction num den).toRat := by
  have hq : (0 : ℚ) < num / den := by positivity
  obtain ⟨hbelow, -⟩ := (log_eq_iff hq m).mp hm
  have he : lastPlace (num / den) = m - 52 := by
    rw [lastPlace, hm]
    omega
  have hunit : (0 : ℚ) < 2 ^ (m - 52) := by positivity
  have hsplit : (2 : ℚ) ^ m = (2 ^ 52 : Nat) * 2 ^ (m - 52) := by exact_mod_cast zpow_eq_mul m 52
  rw [toRat, exponent_ofFraction hnum hden he, hsplit, mul_le_mul_iff_left₀ hunit, Nat.cast_le,
    le_mantissa_iff hnum hden he]
  refine .inl ?_
  rw [sub_mul, ← hsplit]
  linarith

/-- A power of two is reached from a quarter of a place below it on. -/
theorem zpow_le_ofFraction_iff (hnum : 0 < num) (hden : 0 < den) (hp : -1021 ≤ p) :
    (2 : ℚ) ^ p ≤ (ofFraction num den).toRat ↔ (2 ^ p - 2 ^ (p - 54) : ℚ) ≤ num / den := by
  have hq : (0 : ℚ) < num / den := by positivity
  obtain ⟨hbelow, -⟩ := (log_eq_iff hq _).mp rfl
  generalize hm : Int.log 2 (num / den : ℚ) = m at hbelow
  have hquarter : (0 : ℚ) < 2 ^ (p - 54) := by positivity
  rcases Int.lt_trichotomy m (p - 1) with hless | rfl | hmore
  · -- The fraction is less than half of the power.
    rw [← hm] at hless
    have hhalf : (num / den : ℚ) < 2 ^ (p - 1) := lt_zpow_of_log_lt hq hless
    have hsmall : (2 : ℚ) ^ (p - 54) ≤ 2 ^ (p - 1) := zpow_le_zpow_right₀ one_le_two (by omega)
    have hwhole := zpow_eq_mul p 1
    push_cast at hwhole
    exact iff_of_false (not_le_of_gt (ofFraction_lt_zpow hnum hden hp hless)) (by linarith)
  · -- The power is the even number of last places that follows the greatest mantissa.
    have he : lastPlace (num / den) = p - 53 := by
      rw [lastPlace, hm]
      omega
    have hunit : (0 : ℚ) < 2 ^ (p - 53) := by positivity
    have heven : Even (2 ^ 53) := by decide
    have hsplit : (2 : ℚ) ^ p = (2 ^ 53 : Nat) * 2 ^ (p - 53) := by exact_mod_cast zpow_eq_mul p 53
    have hplace : (2 : ℚ) ^ (p - 53) = 2 * 2 ^ (p - 54) := by
      rw [zpow_eq_mul (p - 53) 1]
      norm_num [sub_sub]
    have hshort : ((2 ^ 53 : Nat) - 1 / 2 : ℚ) * 2 ^ (p - 53) = 2 ^ p - 2 ^ (p - 54) := by
      rw [sub_mul, ← hsplit, hplace]
      ring
    have hreach := le_mantissa_iff hnum hden he (2 ^ 53)
    rw [hshort, and_iff_left heven, ← le_iff_lt_or_eq] at hreach
    rw [← hreach, toRat, exponent_ofFraction hnum hden he, hsplit, mul_le_mul_iff_left₀ hunit,
      Nat.cast_le]
  · have hle : (2 : ℚ) ^ p ≤ 2 ^ m := zpow_le_zpow_right₀ one_le_two (by omega)
    exact iff_of_true (hle.trans (zpow_le_ofFraction hnum hden hm (by omega))) (by linarith)

/-- A fraction is rounded to the nearest binary number. -/
theorem nearest_ofFraction (hnum : 0 < num) (hden : 0 < den) :
    Nearest (num / den) (ofFraction num den) := by
  refine ⟨mantissa_pos_iff hnum hden, fun power => ?_, ?_⟩
  · rw [Binary.atLeast_iff, ← zpow_natCast, zpow_le_ofFraction_iff hnum hden (by omega)]
  · have hq : (0 : ℚ) < num / den := by positivity
    obtain ⟨hbelow, -⟩ := (log_eq_iff hq _).mp rfl
    have hnormal := zpow_eq_mul (Int.log 2 (num / den : ℚ)) 52
    have hleast := least_place
    have hplace : (2 : ℚ) ^ lastPlace (num / den) ≤
        2 ^ (Int.log 2 (num / den : ℚ) - 52) + 2 ^ (-1074 : Int) := by
      have hnormalPos : (0 : ℚ) < 2 ^ (Int.log 2 (num / den : ℚ) - 52) := by positivity
      have hleastPos : (0 : ℚ) < 2 ^ (-1074 : Int) := by positivity
      rcases max_choice (Int.log 2 (num / den : ℚ) - 52) (-1074) with h | h <;>
        rw [lastPlace, h] <;> linarith
    have hnear := abs_ofFraction_sub hnum hden rfl
    push_cast at hnormal
    linarith

/-- A number that is at most half of the least place is rounded to nought. -/
theorem nearest_zero {q : ℚ} (hnonneg : 0 ≤ q) (hsmall : q ≤ 2 ^ (-1075 : Int)) :
    Nearest q zero := by
  refine ⟨iff_of_false (lt_irrefl 0) (not_lt_of_ge hsmall), fun power => ?_, ?_⟩
  · have hpower : (0 : ℚ) < 2 ^ power := by positivity
    have hquarter := zpow_eq_mul power 54
    push_cast at hquarter
    rw [zpow_natCast] at hquarter
    have hone : (1 : ℚ) ≤ 2 ^ power := one_le_pow₀ one_le_two
    have htiny : (2 : ℚ) ^ (-1075 : Int) ≤ 1 / 4 := by
      calc (2 : ℚ) ^ (-1075 : Int) ≤ 2 ^ (-2 : Int) := zpow_le_zpow_right₀ one_le_two (by decide)
        _ = 1 / 4 := by norm_num
    refine iff_of_false (fun h => ?_) (by linarith)
    have hreach := (Binary.atLeast_iff zero power).mp h
    simp only [toRat, zero, Nat.cast_zero, zero_mul] at hreach
    linarith
  · have hshare : 0 ≤ q / 2 ^ 53 := by positivity
    simp only [toRat, zero, Nat.cast_zero, zero_mul, zero_sub, abs_neg, abs_of_nonneg hnonneg]
    linarith

end Binary

end Switchboard
