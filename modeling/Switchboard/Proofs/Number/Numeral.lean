import Switchboard.Proofs.Number.Binary
import Switchboard.Proofs.Text.Letters
import Switchboard.Proofs.Text.Pieces

/-!
# Switchboard.Proofs.Number.Numeral

Decimal numerals, and the binary numbers nearest to them.

1. A numeral of `k` digits is less than `10 ^ k`, and at least `10 ^ (k - 1)` if it does not
   begin with nought (`value_lt`, `le_value`).
2. A number is read as infinite from a quarter of a place below `2 ^ 1024` on, and otherwise
   as the nearest binary number (`Scientific.rounded?_nearest`).  The numbers that are
   beyond all exponents are no exception.
3. A sign, digits with a point, and an exponent of ten, each but one digit optional, are
   read as they are written (`Numeral.parse?_chars`).
-/

namespace Switchboard

open Text

/-! ## digits -/

namespace Text

theorem foldl_digits (cs : List Char) (n : Nat) :
    cs.foldl (fun n c => 10 * n + digitValue c) n = n * 10 ^ cs.length + value cs := by
  induction cs generalizing n with
  | nil => simp [value]
  | cons c cs ih =>
      rw [value, List.foldl_cons, List.foldl_cons, ih, ih (10 * 0 + digitValue c),
        List.length_cons, pow_succ]
      ring

theorem value_cons (c : Char) (cs : List Char) :
    value (c :: cs) = digitValue c * 10 ^ cs.length + value cs := by
  rw [value, List.foldl_cons, foldl_digits]
  ring

theorem value_lt {cs : List Char} (h : ∀ c ∈ cs, isDigit c = true) : value cs < 10 ^ cs.length := by
  induction cs with
  | nil => simp [value]
  | cons c cs ih =>
      obtain ⟨hc, hcs⟩ := List.forall_mem_cons.mp h
      have hdigit : digitValue c ≤ 9 := by
        have hbounds := bounds_of_isDigit hc
        unfold digitValue
        have hnought : '0'.toNat = 48 := rfl
        omega
      have hrest := ih hcs
      have hfirst := Nat.mul_le_mul_right (10 ^ cs.length) hdigit
      rw [value_cons, List.length_cons, pow_succ]
      omega

theorem le_value {c : Char} {cs : List Char} (hc : isDigit c = true) (hne : c ≠ '0') :
    10 ^ cs.length ≤ value (c :: cs) := by
  have hdigit : 1 ≤ digitValue c := by
    have hbounds := bounds_of_isDigit hc
    have hnought : c.toNat ≠ 48 := fun h => hne (Char.toNat_inj.mp h)
    unfold digitValue
    have hzero : '0'.toNat = 48 := rfl
    omega
  have hfirst := Nat.mul_le_mul_right (10 ^ cs.length) hdigit
  rw [value_cons]
  omega

/-- Noughts in front of a numeral count nothing. -/
theorem value_dropWhile (cs : List Char) : value (cs.dropWhile (· == '0')) = value cs := by
  induction cs with
  | nil => rfl
  | cons c cs ih =>
      rw [List.dropWhile_cons]
      split
      · next h =>
          obtain rfl := beq_iff_eq.mp h
          rw [ih, value_cons]
          simp [digitValue]
      · rfl

end Text

/-! ## numbers in scientific writing -/

namespace Scientific

/-- The number without its sign. -/
def size (n : Scientific) : ℚ := value n.digits * 10 ^ n.exponent

/-- The number that is written. -/
def toRat (n : Scientific) : ℚ := if n.negative then -n.size else n.size

theorem size_nonneg (n : Scientific) : 0 ≤ n.size := by
  unfold size
  positivity

/-- A number between two powers of ten: its digits but for noughts in front, and their
weight. -/
theorem size_bounds {n : Scientific} (h : ∀ c ∈ n.digits, isDigit c = true) {c : Char}
    {cs : List Char} (hdigits : n.digits.dropWhile (· == '0') = c :: cs) :
    (10 : ℚ) ^ (n.exponent + cs.length) ≤ n.size ∧
      n.size < 10 ^ (n.exponent + (cs.length + 1 : Nat)) := by
  have hweight : (0 : ℚ) < 10 ^ n.exponent := by positivity
  have hmem : ∀ d ∈ c :: cs, isDigit d = true := fun d hd =>
    h d ((List.dropWhile_sublist _).subset (hdigits ▸ hd))
  have hfirst : c ≠ '0' := by
    have hhead := List.head?_dropWhile_not (· == '0') n.digits
    rw [hdigits] at hhead
    simpa using hhead
  have hleast : (10 ^ cs.length : ℚ) ≤ value (c :: cs) := by
    exact_mod_cast le_value (hmem c List.mem_cons_self) hfirst
  have hmost : (value (c :: cs) : ℚ) < 10 ^ (cs.length + 1) := by
    exact_mod_cast value_lt hmem
  have hsplit : ∀ k : Nat, (10 : ℚ) ^ (n.exponent + k) = 10 ^ k * 10 ^ n.exponent := fun k => by
    rw [zpow_add₀ (by norm_num), zpow_natCast, mul_comm]
  rw [size, ← value_dropWhile, hdigits, hsplit, hsplit]
  exact ⟨mul_le_mul_of_nonneg_right hleast hweight.le, mul_lt_mul_of_pos_right hmost hweight⟩

/-- Numbers are infinite from here on. -/
def infinite : ℚ := 2 ^ 1024 - 2 ^ 970

/-- Numbers are far from infinite up to a whole place. -/
theorem place_lt_infinite : (2 : ℚ) ^ 970 < infinite := by
  have hsplit : (2 : ℚ) ^ 1024 = 2 ^ 54 * 2 ^ 970 := by rw [← pow_add]
  have hplace : (0 : ℚ) < 2 ^ 970 := by positivity
  rw [infinite, hsplit]
  generalize (2 : ℚ) ^ 970 = place at hplace ⊢
  linarith

theorem lt_infinite : (2 : ℚ) ^ (-1075 : Int) < infinite := by
  calc (2 : ℚ) ^ (-1075 : Int) ≤ 1 := zpow_le_one_of_nonpos₀ one_le_two (by decide)
    _ ≤ 2 ^ 970 := one_le_pow₀ one_le_two
    _ < infinite := place_lt_infinite

/-- A number with a first digit beyond all exponents is infinite. -/
theorem infinite_le_of_top {n : Scientific} {k : Nat} (htop : greatestPower < n.exponent + (k + 1))
    (hsize : (10 : ℚ) ^ (n.exponent + k) ≤ n.size) : infinite ≤ n.size := by
  have hpower : (2 : ℚ) ^ 1024 ≤ 10 ^ 310 := by
    exact_mod_cast (by decide +kernel : 2 ^ 1024 ≤ 10 ^ 310)
  calc infinite ≤ 2 ^ 1024 := sub_le_self _ (by positivity)
    _ ≤ 10 ^ 310 := hpower
    _ = 10 ^ (310 : Int) := (zpow_natCast 10 310).symm
    _ ≤ 10 ^ (n.exponent + k) := by
      refine zpow_le_zpow_right₀ (by norm_num) ?_
      unfold greatestPower at htop
      omega
    _ ≤ n.size := hsize

/-- A number with a first digit below all exponents is nought. -/
theorem size_le_of_top {n : Scientific} {k : Nat} (htop : n.exponent + (k + 1) < leastPower)
    (hsize : n.size < 10 ^ (n.exponent + (k + 1 : Nat))) : n.size ≤ 2 ^ (-1075 : Int) := by
  have hpower : (2 : ℚ) ^ 1075 ≤ 10 ^ 331 := by
    exact_mod_cast (by decide +kernel : 2 ^ 1075 ≤ 10 ^ 331)
  calc n.size ≤ 10 ^ (n.exponent + (k + 1 : Nat)) := hsize.le
    _ ≤ 10 ^ (-331 : Int) := by
      refine zpow_le_zpow_right₀ (by norm_num) ?_
      unfold leastPower at htop
      push_cast
      omega
    _ = (10 ^ 331)⁻¹ := by rw [zpow_neg, ← zpow_natCast, Nat.cast_ofNat]
    _ ≤ (2 ^ 1075)⁻¹ := inv_anti₀ (by positivity) hpower
    _ = 2 ^ (-1075 : Int) := by rw [zpow_neg, ← zpow_natCast, Nat.cast_ofNat]

/-- A number as a fraction. -/
theorem size_eq_div (n : Scientific) {digits : List Char} (h : value digits = value n.digits) :
    n.size = (value digits * Nat.pow 10 n.exponent.toNat : Nat) /
      (Nat.pow 10 (-n.exponent).toNat : Nat) := by
  rw [size, ← Binary.pow_toNat_div, h]
  simp only [Nat.pow_eq]
  push_cast
  ring

/-- A number is read as infinite, or as the nearest binary number. -/
theorem rounded?_nearest {n : Scientific} (h : ∀ c ∈ n.digits, isDigit c = true) :
    if infinite ≤ n.size then n.rounded? = none
    else ∃ b, n.rounded? = some b ∧ Binary.Nearest n.size b := by
  have hvalue := value_dropWhile n.digits
  unfold rounded?
  dsimp only
  cases hdigits : n.digits.dropWhile (· == '0') with
  | nil =>
      rw [hdigits] at hvalue
      have hsize : n.size = 0 := by
        rw [size, ← hvalue]
        simp [value]
      rw [hsize, if_neg (not_le_of_gt (lt_trans (by positivity) lt_infinite))]
      exact ⟨_, rfl, Binary.nearest_zero le_rfl (by positivity)⟩
  | cons c cs =>
      obtain ⟨hleast, hmost⟩ := size_bounds h hdigits
      rw [hdigits] at hvalue
      by_cases hlow : n.exponent + (cs.length + 1) < leastPower
      · have hsmall := size_le_of_top hlow hmost
        rw [if_neg (not_le_of_gt (lt_of_le_of_lt hsmall lt_infinite))]
        exact ⟨_, by simp [hlow], Binary.nearest_zero n.size_nonneg hsmall⟩
      · by_cases hhigh : greatestPower < n.exponent + (cs.length + 1)
        · rw [if_pos (infinite_le_of_top hhigh hleast)]
          simp [hlow, hhigh]
        · have hden : 0 < Nat.pow 10 (-n.exponent).toNat := Nat.pow_pos (by decide)
          have hnum : 0 < value (c :: cs) * Nat.pow 10 n.exponent.toNat := by
            refine Nat.pos_of_ne_zero fun hzero => ?_
            have hsize := size_eq_div n hvalue
            rw [hzero, Nat.cast_zero, zero_div] at hsize
            rw [hsize] at hleast
            exact absurd hleast (not_le_of_gt (by positivity))
          have hnear := Binary.nearest_ofFraction hnum hden
          rw [← size_eq_div n hvalue] at hnear
          have hreach := hnear.atLeast_iff 1024
          have hplace : (2 : ℚ) ^ ((1024 : Nat) - 54 : Int) = 2 ^ 970 := zpow_natCast 2 970
          rw [hplace, ← infinite] at hreach
          simp only [List.isEmpty_cons, List.length_cons, Bool.false_or, decide_eq_true_eq]
          push_cast
          rw [if_neg hlow, if_neg hhigh]
          split
          · next hinfinite => rw [if_pos (hreach.mpr hinfinite)]
          · next hfinite => exact ⟨_, if_neg (mt hreach.mp hfinite), hnear⟩

end Scientific

/-! ## numerals -/

/-- A sign, or none. -/
inductive Sign where
  | bare | plus | minus
deriving Repr, DecidableEq

/-- A sign as it is written. -/
def Sign.chars : Sign → List Char
  | .bare => []
  | .plus => ['+']
  | .minus => ['-']

/-- Whether a sign is a minus. -/
def Sign.isMinus : Sign → Bool
  | .minus => true
  | _ => false

/-- What is written of a decimal numeral: a sign, digits with at most one point before,
among or after them, and the mark, the sign and the digits of an exponent. -/
structure Numeral where
  sign : Sign
  whole : List Char
  /-- The digits after the point, if there is a point. -/
  fraction : Option (List Char)
  power : Option (Char × Sign × List Char)
  digits : isNumeral (whole ++ fraction.getD []) = true
  marked : ∀ p ∈ power, (p.1 = 'e' ∨ p.1 = 'E') ∧ isNumeral p.2.2 = true

namespace Numeral

/-- The digits after the point, with the point. -/
def pointed : Option (List Char) → List Char
  | none => []
  | some ds => '.' :: ds

/-- An exponent with its mark. -/
def raised : Option (Char × Sign × List Char) → List Char
  | none => []
  | some (mark, sign, ds) => mark :: (sign.chars ++ ds)

/-- The numeral as it is written. -/
def chars (n : Numeral) : List Char :=
  n.sign.chars ++ (n.whole ++ (pointed n.fraction ++ raised n.power))

/-- The exponent that is written. -/
def exponent (n : Numeral) : Int :=
  match n.power with
  | none => 0
  | some (_, sign, ds) => if sign.isMinus then -(value ds : Int) else value ds

/-- The digits of a numeral, and the weight of the last. -/
def scientific (n : Numeral) : Scientific :=
  ⟨n.sign.isMinus, n.whole ++ n.fraction.getD [], n.exponent - (n.fraction.getD []).length⟩

/-- The number that a numeral denotes. -/
def toRat (n : Numeral) : ℚ := n.scientific.toRat

/-- A sign is read where there is one. -/
theorem signed_chars (sign : Sign) {cs : List Char} (h : ∀ c ∈ cs.head?, c ≠ '-' ∧ c ≠ '+') :
    Scientific.signed (sign.chars ++ cs) = (sign.isMinus, cs) := by
  cases sign with
  | plus => rfl
  | minus => rfl
  | bare =>
      cases cs with
      | nil => rfl
      | cons c cs =>
          obtain ⟨hminus, hplus⟩ := h c rfl
          change Scientific.signed (c :: cs) = _
          unfold Scientific.signed
          split
          · next heq => exact absurd (List.cons.inj heq).1 hminus
          · next heq => exact absurd (List.cons.inj heq).1 hplus
          · rfl

theorem not_sign_of_isDigit {c : Char} (h : isDigit c = true) : c ≠ '-' ∧ c ≠ '+' := by
  constructor <;> rintro rfl <;> exact absurd h (by decide)

/-- Digits are read up to what is none. -/
theorem span_digits {ds rest : List Char} (h : ∀ c ∈ ds, isDigit c = true)
    (hrest : ∀ c ∈ rest.head?, isDigit c = false) :
    (ds ++ rest).takeWhile isDigit = ds ∧ (ds ++ rest).dropWhile isDigit = rest := by
  have hnone : rest.takeWhile isDigit = [] ∧ rest.dropWhile isDigit = rest := by
    cases rest with
    | nil => exact ⟨rfl, rfl⟩
    | cons c rest =>
        have hc := hrest c rfl
        simp [hc]
  rw [List.takeWhile_append_of_pos h, List.dropWhile_append_of_pos h, hnone.1, hnone.2,
    List.append_nil]
  exact ⟨rfl, rfl⟩

theorem exponent?_raised (n : Numeral) :
    Scientific.exponent? (raised n.power) = some n.exponent := by
  have hmarked := n.marked
  unfold exponent
  cases hpower : n.power with
  | none => rfl
  | some p =>
      obtain ⟨mark, sign, ds⟩ := p
      obtain ⟨hmark, hds⟩ := hmarked _ hpower
      have hfirst : ∀ c ∈ ds.head?, c ≠ '-' ∧ c ≠ '+' := fun c hc =>
        not_sign_of_isDigit ((digits_of_isNumeral hds).2 c (List.mem_of_mem_head? hc))
      have hsigned := signed_chars sign hfirst
      simp only [raised, Scientific.exponent?, hsigned, hds, Bool.and_true]
      rw [if_pos (by simpa using hmark)]

/-- No exponent begins with a digit or a point. -/
theorem head_raised (n : Numeral) : ∀ c ∈ (raised n.power).head?, isDigit c = false ∧ c ≠ '.' := by
  intro c hc
  cases hpower : n.power with
  | none =>
      rw [hpower] at hc
      exact nomatch hc
  | some p =>
      obtain ⟨mark, sign, ds⟩ := p
      rw [hpower] at hc
      obtain rfl := Option.some.inj hc
      rcases (n.marked _ hpower).1 with h | h <;> rw [show mark = _ from h] <;> decide

/-- What follows the digits before the point does not begin with a digit. -/
theorem head_pointed (n : Numeral) :
    ∀ c ∈ (pointed n.fraction ++ raised n.power).head?, isDigit c = false := by
  intro c hc
  cases hf : n.fraction with
  | none =>
      rw [hf] at hc
      exact (n.head_raised c hc).1
  | some ds =>
      rw [hf] at hc
      obtain rfl := Option.some.inj hc
      rfl

/-- A numeral without its sign begins with a digit or the point. -/
theorem head_whole (n : Numeral) :
    ∀ c ∈ (n.whole ++ (pointed n.fraction ++ raised n.power)).head?, c ≠ '-' ∧ c ≠ '+' := by
  intro c hc
  obtain ⟨hne, hdigits⟩ := digits_of_isNumeral n.digits
  cases hw : n.whole with
  | cons d ds =>
      rw [hw] at hc hdigits
      obtain rfl := Option.some.inj hc
      exact not_sign_of_isDigit (hdigits d List.mem_cons_self)
  | nil =>
      cases hf : n.fraction with
      | none => simp [hw, hf] at hne
      | some ds =>
          rw [hw, hf] at hc
          obtain rfl := Option.some.inj hc
          decide

/-- The digits after a point, if there is one, and what follows. -/
def fractionOf (cs : List Char) : List Char × List Char :=
  match cs with
  | '.' :: more => (more.takeWhile isDigit, more.dropWhile isDigit)
  | _ => ([], cs)

theorem parse?_eq (cs : List Char) : Scientific.parse? cs =
    let signed := Scientific.signed cs
    let whole := signed.2.takeWhile isDigit
    let fraction := fractionOf (signed.2.dropWhile isDigit)
    if whole.isEmpty && fraction.1.isEmpty then none
    else (Scientific.exponent? fraction.2).map fun e =>
      ⟨signed.1, whole ++ fraction.1, e - fraction.1.length⟩ := rfl

theorem fractionOf_pointed (n : Numeral) :
    fractionOf (pointed n.fraction ++ raised n.power) = (n.fraction.getD [], raised n.power) := by
  have hdigits : ∀ c ∈ n.fraction.getD [], isDigit c = true := fun c hc =>
    (digits_of_isNumeral n.digits).2 c (List.mem_append_right _ hc)
  obtain ⟨htake, hdrop⟩ := span_digits hdigits fun c hc => (n.head_raised c hc).1
  cases hf : n.fraction with
  | none =>
      simp only [pointed, List.nil_append]
      unfold fractionOf
      split
      · next more heq => exact absurd rfl (n.head_raised '.' (by rw [heq]; rfl)).2
      · rfl
  | some ds =>
      rw [hf] at htake hdrop
      exact Prod.ext htake hdrop

/-- A numeral is read as it is written. -/
theorem parse?_chars (n : Numeral) : Scientific.parse? n.chars = some n.scientific := by
  obtain ⟨hne, hdigits⟩ := digits_of_isNumeral n.digits
  have hwhole : ∀ c ∈ n.whole, isDigit c = true := fun c hc =>
    hdigits c (List.mem_append_left _ hc)
  obtain ⟨htake, hdrop⟩ := span_digits hwhole n.head_pointed
  have hsome : ¬ (n.whole.isEmpty && (n.fraction.getD []).isEmpty) = true := by
    simpa [List.isEmpty_iff] using hne
  rw [parse?_eq, chars, signed_chars n.sign n.head_whole]
  dsimp only
  rw [htake, hdrop, n.fractionOf_pointed, if_neg hsome, n.exponent?_raised]
  rfl

end Numeral

end Switchboard
