import Switchboard.Proofs.Decimal.Rational

/-!
# Switchboard.Proofs.Decimal.Precision

How many places a result has, and what becomes of further digits.

1. The value of an expression has as many places as that of its numbers which
   has the most, and no more than the cap. Signs, parentheses and the order of
   operations do not matter (`Reads.widest`, one case per rule).
2. An operation on numbers within the cap works at the wider scale: a sum and
   a difference are exact, a product and a quotient are cut, and a remainder
   is what the cut quotient leaves. It gives a result exactly if every number
   that it computes is a word.
3. An assignment that updates its target does so with the number that the
   target holds, cut to the cap.
-/

namespace Switchboard.Decimal

variable {cap : Nat}

/-! ## places of an expression -/

/-- The places of that number among the tokens which has the most. -/
def widest : List Token → Nat
  | [] => 0
  | .number d :: ts => max d.scale (widest ts)
  | _ :: ts => widest ts

/-- The places of that number in a tree which has the most. -/
def Tree.widest : Tree → Nat
  | .literal d => d.scale
  | .minus t | .plus t | .group t => t.widest
  | .apply l _ r => max l.widest r.widest

theorem scale_of_capped {d v : Decimal} (h : d.capped cap = .ok v) : v.scale = min d.scale cap :=
  scale_of_rescale h

/-- An operation gives the places of the wider operand, up to the cap. -/
theorem scale_of_binary_eq {a b v : Decimal} {op : Operator} (h : a.binary op b cap = .ok v) :
    v.scale = min (max a.scale b.scale) cap := by
  obtain ⟨x, -, h⟩ := ok_of_bind h
  obtain ⟨y, -, h⟩ := ok_of_bind h
  obtain ⟨units, -, h⟩ := ok_of_bind h
  cases h
  rfl

/-- The value of a tree has the most places of its numbers, up to the cap. -/
theorem Tree.scale_of_value_eq {t : Tree} {v : Decimal} (h : t.value cap = .ok v) :
    v.scale = min cap t.widest := by
  induction t generalizing v with
  | literal d =>
      rw [scale_of_capped h, Nat.min_comm]
      rfl
  | minus t ih =>
      obtain ⟨w, hw, h⟩ := ok_of_bind h
      have hoperand := ih hw
      rw [scale_of_binary_eq h, hoperand]
      simp only [zero, Tree.widest]
      omega
  | plus t ih | group t ih => exact ih h
  | apply l op r ihl ihr =>
      obtain ⟨a, ha, h⟩ := ok_of_bind h
      obtain ⟨b, hb, h⟩ := ok_of_bind h
      have hleft := ihl ha
      have hright := ihr hb
      rw [scale_of_binary_eq h, hleft, hright, Tree.widest]
      omega

/-- The places that a part brings along from the front of a sum or a product. -/
def Part.widest : Part → Nat
  | .terms l | .factors l => l.widest
  | _ => 0

/-- The numbers of a tree are those that were there and are not left over. -/
theorem Reads.widest {p : Part} {ts rest : List Token} {t : Tree} (h : Reads p ts t rest) :
    max t.widest (Decimal.widest rest) = max p.widest (Decimal.widest ts) := by
  induction h <;> simp only [Part.widest, Tree.widest, Decimal.widest] at * <;> omega

/-- The value of a list of tokens has the most places of its numbers, up to the cap. -/
theorem scale_of_evaluateTokens {ts : List Token} {v : Decimal}
    (h : evaluateTokens ts cap = .ok v) : v.scale = min cap (widest ts) := by
  obtain ⟨t, hsentence, hvalue⟩ := evaluateTokens_ok_iff.1 h
  have hnumbers : max t.widest 0 = max 0 (widest ts) := Reads.widest hsentence
  rw [Tree.scale_of_value_eq hvalue]
  omega

/-! ## operations on units -/

/-- Every number that an operation computes from its operands is a word. -/
def Operator.Fits (op : Operator) (m n : Int) (scale : Nat) : Prop :=
  match op with
  | .add => InWord (m + n)
  | .sub => InWord (m - n)
  | .mul => InWord (m * n)
  | .div => InWord (m * power scale) ∧ InWord ((m * power scale).tdiv n)
  | .mod => InWord (m.tdiv n)

/-- Operators that need a second operand other than nought. -/
def Operator.divides : Operator → Bool
  | .div | .mod => true
  | _ => false

/-- The units of a result, whether a word holds them or not. -/
def Operator.result (op : Operator) (m n : Int) (scale : Nat) : Int :=
  match op with
  | .add => m + n
  | .sub => m - n
  | .mul => (m * n).tdiv (power scale)
  | .div => (m * power scale).tdiv n
  | .mod => m.tmod n

/-- The least word divided by minus one is no word, and the only such quotient. -/
theorem inWord_tdiv_iff {m n : Int} (hm : InWord m) :
    InWord (m.tdiv n) ↔ ¬(m = least ∧ n = -1) := by
  refine ⟨?_, inWord_tdiv hm⟩
  rintro hword ⟨rfl, rfl⟩
  rw [tdiv_least] at hword
  exact absurd hword (by decide)

theorem checked_ok_iff {n m : Int} : checked n = .ok m ↔ InWord n ∧ m = n := by
  refine ⟨fun h => ?_, fun ⟨hword, hsame⟩ => ?_⟩
  · obtain ⟨rfl, hword⟩ := eq_of_checked h
    exact ⟨hword, rfl⟩
  · rw [hsame, checked_eq hword]

/-- An operation on a word fails only at nought and where a word is exceeded. -/
theorem units_ok_iff {op : Operator} {m n k : Int} {scale : Nat} (hm : InWord m) :
    op.units m n scale = .ok k ↔
      (op.divides = true → n ≠ 0) ∧ op.Fits m n scale ∧ k = op.result m n scale := by
  cases op with
  | add | sub => simp [Operator.units, Operator.divides, Operator.Fits, Operator.result,
      checked_ok_iff]
  | mul =>
      simp only [Operator.units, Operator.divides, Operator.Fits, Operator.result]
      by_cases hword : InWord (m * n)
      · simp [checked_eq hword, hword, Except.map, eq_comm]
      · simp [checked_error hword, hword, Except.map]
  | div =>
      simp only [Operator.units, Operator.divides, Operator.Fits, Operator.result]
      by_cases hnought : n = 0
      · simp [hnought]
      · by_cases hword : InWord (m * power scale)
        · rw [if_neg hnought, checked_eq hword, inWord_tdiv_iff hword]
          simp only [bind, Except.bind]
          split
          · next htrap => simp [htrap]
          · next hother =>
            simp only [Except.ok.injEq, hnought, hword, hother, not_false_eq_true, and_self,
              true_and, ne_eq, imp_true_iff]
            exact eq_comm
        · simp [hnought, checked_error hword, hword, bind, Except.bind]
  | mod =>
      simp only [Operator.units, Operator.divides, Operator.Fits, Operator.result]
      rw [inWord_tdiv_iff hm]
      by_cases hnought : n = 0
      · simp [hnought]
      · rw [if_neg hnought]
        split
        · next htrap => simp [htrap]
        · next hother =>
          simp only [Except.ok.injEq, hnought, hother, not_false_eq_true, true_and, ne_eq,
            imp_true_iff]
          exact eq_comm

/-! ## the numbers denoted -/

/-- What the result of an operation is, told of the numbers denoted. -/
def Operator.Gives (op : Operator) (scale : Nat) (p q r : ℚ) : Prop :=
  match op with
  | .add => r = p + q
  | .sub => r = p - q
  | .mul => r = cut scale (p * q)
  | .div => q ≠ 0 ∧ r = cut scale (p / q)
  | .mod => q ≠ 0 ∧ p = truncate (p / q) * q + r ∧ |r| < |q| ∧
      (r = 0 ∨ (0 < r ∧ 0 < p) ∨ (r < 0 ∧ p < 0))

/-- There is at most one result. -/
theorem Operator.Gives.unique {op : Operator} {scale : Nat} {p q r r' : ℚ}
    (h : op.Gives scale p q r) (h' : op.Gives scale p q r') : r = r' := by
  cases op with
  | add | sub | mul => exact Eq.trans h (Eq.symm h')
  | div => exact h.2.trans h'.2.symm
  | mod => exact add_left_cancel (h.2.1.symm.trans h'.2.1)

theorem Operator.Gives.ne_zero {op : Operator} {scale : Nat} {p q r : ℚ}
    (h : op.Gives scale p q r) (hd : op.divides = true) : q ≠ 0 := by
  cases op with
  | add | sub | mul => cases hd
  | div | mod => exact h.1

/-- A remainder is less than the divisor, and on the side of what is divided. -/
theorem tmod_bounds (m : Int) {n : Int} (hn : n ≠ 0) :
    |m.tmod n| < |n| ∧ (m.tmod n = 0 ∨ (0 < m.tmod n ∧ 0 < m) ∨ (m.tmod n < 0 ∧ m < 0)) := by
  have hsize := Int.natAbs_tmod m n
  have hsmaller : m.natAbs % n.natAbs < n.natAbs := Nat.mod_lt _ (Int.natAbs_pos.2 hn)
  have hwithin : m.natAbs % n.natAbs ≤ m.natAbs := Nat.mod_le _ _
  rw [Int.abs_eq_natAbs, Int.abs_eq_natAbs]
  refine ⟨by omega, ?_⟩
  obtain h | h := Int.le_total 0 m
  · have := Int.tmod_nonneg n h
    omega
  · have := Int.tmod_nonneg n (show 0 ≤ -m by omega)
    rw [Int.neg_tmod] at this
    omega

/-- The units of a result denote what the operation gives. -/
theorem gives_result {op : Operator} {m n : Int} (scale : Nat)
    (hn : op.divides = true → n ≠ 0) :
    op.Gives scale (m / 10 ^ scale) (n / 10 ^ scale) (op.result m n scale / 10 ^ scale) := by
  have hunit : (0 : ℚ) < 10 ^ scale := pow_ten_pos scale
  have hnonzero := hunit.ne'
  cases op with
  | add =>
      simp only [Operator.Gives, Operator.result, Int.cast_add]
      exact add_div _ _ _
  | sub =>
      simp only [Operator.Gives, Operator.result, Int.cast_sub]
      exact sub_div _ _ _
  | mul =>
      have hproduct : (m : ℚ) / 10 ^ scale * (n / 10 ^ scale) * 10 ^ scale =
          (m * n : Int) / (power scale : Int) := by
        rw [Int.cast_mul, power_cast]
        field_simp
      simp only [Operator.Gives, Operator.result, cut]
      rw [hproduct, truncate_div]
  | div =>
      have hdivisor : (n : ℚ) ≠ 0 := Int.cast_ne_zero.2 (hn rfl)
      have hquotient : (m : ℚ) / 10 ^ scale / (n / 10 ^ scale) * 10 ^ scale =
          (m * power scale : Int) / (n : Int) := by
        rw [Int.cast_mul, power_cast]
        field_simp
      refine ⟨div_ne_zero hdivisor hnonzero, ?_⟩
      simp only [Operator.result, cut]
      rw [hquotient, truncate_div]
  | mod =>
      have hdivisor : (n : ℚ) ≠ 0 := Int.cast_ne_zero.2 (hn rfl)
      have hquotient : (m : ℚ) / 10 ^ scale / (n / 10 ^ scale) = m / n := by field_simp
      obtain ⟨hless, hside⟩ := tmod_bounds m (hn rfl)
      refine ⟨div_ne_zero hdivisor hnonzero, ?_, ?_, ?_⟩
      · have hwhole : (m : ℚ) = m.tdiv n * n + m.tmod n := by
          exact_mod_cast (Int.tdiv_mul_add_tmod m n).symm
        rw [hquotient, truncate_div, Operator.result, mul_div_assoc', ← add_div, ← hwhole]
      · rw [abs_div, abs_div, div_lt_div_iff_of_pos_right (abs_pos.2 hnonzero)]
        exact_mod_cast hless
      · obtain hzero | ⟨habove, hup⟩ | ⟨hbelow, hdown⟩ := hside
        · exact .inl (by rw [Operator.result, hzero, Int.cast_zero, zero_div])
        · exact .inr (.inl ⟨div_pos (Int.cast_pos.2 habove) hunit,
            div_pos (Int.cast_pos.2 hup) hunit⟩)
        · exact .inr (.inr ⟨div_neg_of_neg_of_pos (Int.cast_lt_zero.2 hbelow) hunit,
            div_neg_of_neg_of_pos (Int.cast_lt_zero.2 hdown) hunit⟩)

/-! ## operations -/

/-- Units of a decimal at a scale that is no less than its own. -/
def unitsAt (d : Decimal) (scale : Nat) : Int := d.units * power (scale - d.scale)

theorem toRat_eq_unitsAt {d : Decimal} {scale : Nat} (h : d.scale ≤ scale) :
    d.toRat = d.unitsAt scale / 10 ^ scale :=
  eq_div_of_mul_eq (pow_ten_ne_zero scale) (toRat_mul_pow h)

theorem rescale_ok_iff {d v : Decimal} {scale : Nat} (h : d.scale ≤ scale) :
    d.rescale scale = .ok v ↔ InWord (d.unitsAt scale) ∧ v = ⟨d.unitsAt scale, scale⟩ := by
  rw [rescale, if_pos h]
  constructor
  · intro hrescaled
    obtain ⟨n, hn, rfl⟩ := ok_of_map hrescaled
    obtain ⟨hword, rfl⟩ := checked_ok_iff.1 hn
    exact ⟨hword, rfl⟩
  · rintro ⟨hword, rfl⟩
    exact congrArg (Except.map _) (checked_eq hword)

/-- An operation at the wider scale of its operands: every number it computes
is a word, and the result is at this scale and what the operation gives. -/
structure Precise (a : Decimal) (op : Operator) (b r : Decimal) : Prop where
  left : InWord (a.unitsAt (max a.scale b.scale))
  right : InWord (b.unitsAt (max a.scale b.scale))
  fits : op.Fits (a.unitsAt (max a.scale b.scale)) (b.unitsAt (max a.scale b.scale))
    (max a.scale b.scale)
  scale : r.scale = max a.scale b.scale
  gives : op.Gives (max a.scale b.scale) a.toRat b.toRat r.toRat

/-- An operation on decimals within the cap is carried out in units of the wider scale. -/
theorem binary_ok_iff_units {a b r : Decimal} {op : Operator} (ha : a.scale ≤ cap)
    (hb : b.scale ≤ cap) : a.binary op b cap = .ok r ↔
      InWord (a.unitsAt (max a.scale b.scale)) ∧ InWord (b.unitsAt (max a.scale b.scale)) ∧
      ∃ k, op.units (a.unitsAt (max a.scale b.scale)) (b.unitsAt (max a.scale b.scale))
        (max a.scale b.scale) = .ok k ∧ r = ⟨k, max a.scale b.scale⟩ := by
  have hwider : min (max a.scale b.scale) cap = max a.scale b.scale :=
    Nat.min_eq_left (Nat.max_le.2 ⟨ha, hb⟩)
  simp only [binary, hwider]
  generalize hs : max a.scale b.scale = scale
  have hla : a.scale ≤ scale := hs ▸ Nat.le_max_left _ _
  have hlb : b.scale ≤ scale := hs ▸ Nat.le_max_right _ _
  constructor
  · intro h
    obtain ⟨x, hx, h⟩ := ok_of_bind h
    obtain ⟨y, hy, h⟩ := ok_of_bind h
    obtain ⟨k, hk, h⟩ := ok_of_bind h
    cases h
    obtain ⟨hleft, rfl⟩ := (rescale_ok_iff hla).1 hx
    obtain ⟨hright, rfl⟩ := (rescale_ok_iff hlb).1 hy
    exact ⟨hleft, hright, k, hk, rfl⟩
  · rintro ⟨hleft, hright, k, hk, rfl⟩
    rw [(rescale_ok_iff hla).2 ⟨hleft, rfl⟩, (rescale_ok_iff hlb).2 ⟨hright, rfl⟩]
    simp only [bind, Except.bind, hk]
    rfl

/-- An operation on decimals within the cap is precise, and fails only where
there is no result or a number on the way to it is no word. -/
theorem binary_ok_iff {a b r : Decimal} {op : Operator} (ha : a.scale ≤ cap)
    (hb : b.scale ≤ cap) : a.binary op b cap = .ok r ↔ Precise a op b r := by
  have hqa := toRat_eq_unitsAt (Nat.le_max_left a.scale b.scale)
  have hqb := toRat_eq_unitsAt (Nat.le_max_right a.scale b.scale)
  rw [binary_ok_iff_units ha hb]
  constructor
  · rintro ⟨hleft, hright, k, hk, rfl⟩
    obtain ⟨hdivisor, hfits, rfl⟩ := (units_ok_iff hleft).1 hk
    refine ⟨hleft, hright, hfits, rfl, ?_⟩
    rw [hqa, hqb]
    exact gives_result _ hdivisor
  · rintro ⟨hleft, hright, hfits, hscale, hgives⟩
    have hdivisor (hd : op.divides = true) : b.unitsAt (max a.scale b.scale) ≠ 0 := by
      intro hnought
      refine hgives.ne_zero hd ?_
      rw [hqb, hnought, Int.cast_zero, zero_div]
    refine ⟨hleft, hright, _, (units_ok_iff hleft).2 ⟨hdivisor, hfits, rfl⟩, ?_⟩
    refine eq_of_toRat_eq hscale (hgives.unique ?_)
    rw [hqa, hqb]
    exact gives_result _ hdivisor

/-! ## updates -/

/-- A number cut to the cap has no more places, and is cut where it had more. -/
theorem capped_ok_iff {d v : Decimal} (hd : Held d) :
    d.capped cap = .ok v ↔ v.scale = min d.scale cap ∧ v.toRat = cut cap d.toRat := by
  have hcutEq : cut (min d.scale cap) d.toRat = cut cap d.toRat := by
    obtain h | h := Nat.le_total d.scale cap
    · rw [Nat.min_eq_left h, cut_toRat (Nat.le_refl _), cut_toRat h]
    · rw [Nat.min_eq_right h]
  constructor
  · intro h
    exact ⟨scale_of_capped h, (toRat_of_rescale h).trans hcutEq⟩
  · rintro ⟨hscale, hvalue⟩
    obtain ⟨w, hw⟩ : ∃ w, d.capped cap = .ok w := by
      rw [capped, rescale]
      split
      · next hle =>
        have hsame : min d.scale cap - d.scale = 0 := by omega
        rw [hsame, show power 0 = 1 from rfl, Int.mul_one, checked_eq hd.units]
        exact ⟨_, rfl⟩
      · exact ⟨_, rfl⟩
    rw [hw, Except.ok.injEq]
    refine eq_of_toRat_eq ((scale_of_capped hw).trans hscale.symm) ?_
    rw [hvalue, toRat_of_rescale hw, hcutEq]

/-- An update is the operation on what the target holds, cut to the cap. -/
theorem update_ok_iff {current : String} {op : Operator} {value r : Decimal} {decimals : Nat}
    (hv : value.scale ≤ capOf decimals) : assign current (.update op) value decimals = .ok r ↔
      ∃ held d, parse current = .ok held ∧ d.scale = min held.scale (capOf decimals) ∧
        d.toRat = cut (capOf decimals) held.toRat ∧ Precise d op value r := by
  constructor
  · intro h
    obtain ⟨held, hp, h⟩ := ok_of_bind h
    obtain ⟨d, hc, h⟩ := ok_of_bind h
    obtain ⟨hscale, hnumber⟩ := (capped_ok_iff (held_of_parse hp).1).1 hc
    have hwithin : d.scale ≤ capOf decimals := hscale ▸ Nat.min_le_right _ _
    exact ⟨held, d, hp, hscale, hnumber, (binary_ok_iff hwithin hv).1 h⟩
  · rintro ⟨held, d, hp, hscale, hnumber, hprecise⟩
    have hwithin : d.scale ≤ capOf decimals := hscale ▸ Nat.min_le_right _ _
    have hc := (capped_ok_iff (held_of_parse hp).1).2 ⟨hscale, hnumber⟩
    simp only [assign, hp, hc, bind, Except.bind]
    exact (binary_ok_iff hwithin hv).2 hprecise

/-- Scales and digits of script arithmetic. The value of an expression has the
most places of its numbers, up to the cap; an operation within the cap is
precise at the wider scale; and an update is one with what its target holds,
cut to the cap. -/
theorem arithmetic_precise (decimals : Nat) :
    (∀ ts v, evaluateTokens ts (capOf decimals) = .ok v →
      v.scale = min (capOf decimals) (widest ts)) ∧
    (∀ fragments v, evaluate fragments decimals = .ok v →
      ∃ ts, tokensOf fragments = .ok ts ∧ v.scale = min (capOf decimals) (widest ts)) ∧
    (∀ cap a b r (op : Operator), a.scale ≤ cap → b.scale ≤ cap →
      (a.binary op b cap = .ok r ↔ Precise a op b r)) ∧
    ∀ current value r (op : Operator), value.scale ≤ capOf decimals →
      (assign current (.update op) value decimals = .ok r ↔
        ∃ held d, parse current = .ok held ∧ d.scale = min held.scale (capOf decimals) ∧
          d.toRat = cut (capOf decimals) held.toRat ∧ Precise d op value r) := by
  refine ⟨fun ts v => scale_of_evaluateTokens, fun fragments v h => ?_,
    fun cap a b r op ha hb => binary_ok_iff ha hb, fun current value r op hv => update_ok_iff hv⟩
  obtain ⟨ts, hspelled, hvalue⟩ := ok_of_bind h
  exact ⟨ts, hspelled, scale_of_evaluateTokens hvalue⟩

/-- With one place, less than nought: `1.50 * -7` has one place, `-7.5 / 2` is
`-3.7`, and a target of `-7.59` leaves `-1.5` when two divides it. -/
theorem arithmetic_precise_below_nought :
    (∃ v, evaluateTokens [.number ⟨150, 2⟩, .operator .mul, .operator .sub, .number ⟨7, 0⟩]
      (capOf 1) = .ok v ∧ v.scale = 1) ∧
    Precise ⟨-75, 1⟩ .div ⟨2, 0⟩ ⟨-37, 1⟩ ∧
    ∃ held d, parse "-7.59" = .ok held ∧ d.scale = min held.scale (capOf 1) ∧
      d.toRat = cut (capOf 1) held.toRat ∧ Precise d .mod ⟨2, 0⟩ ⟨-15, 1⟩ := by
  obtain ⟨hscale, -, hoperation, hupdate⟩ := arithmetic_precise 1
  have hproduct : Sentence [.number ⟨150, 2⟩, .operator .mul, .operator .sub, .number ⟨7, 0⟩]
      (.apply (.literal ⟨150, 2⟩) .mul (.minus (.literal ⟨7, 0⟩))) :=
    .sum (.product .literal (.factor rfl (.minus .literal) .noFactor)) .noTerm
  have hcomputed : Tree.value 1 (.apply (.literal ⟨150, 2⟩) .mul (.minus (.literal ⟨7, 0⟩))) =
      .ok ⟨-105, 1⟩ := by decide
  have hvalue := evaluateTokens_ok_iff.2 ⟨_, hproduct, hcomputed⟩
  refine ⟨⟨_, hvalue, hscale _ _ hvalue⟩, ?_, ?_⟩
  · exact (hoperation 1 _ _ _ _ (by decide) (by decide)).1 (by decide)
  · exact (hupdate "-7.59" ⟨2, 0⟩ _ _ (by decide)).1 rfl

end Switchboard.Decimal
