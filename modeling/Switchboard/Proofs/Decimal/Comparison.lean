import Mathlib.Algebra.Order.Ring.Unbundled.Basic
import Switchboard.Interpreter.Evaluate
import Switchboard.Proofs.Decimal.Rational

/-!
# Switchboard.Proofs.Decimal.Comparison

Comparing decimals, and the numbers that they denote.

1. The comparison brings both decimals to the wider scale, where a number that
   is too great for a word counts as the greatest one. It is that of the
   numbers denoted, but for one case: of two different numbers the lesser one
   has the greatest number of units, and they compare as equal.
2. Where no two of some numbers are in that case, comparing is a total order
   on them.
3. A numeric test of a script decides its relation in all but the same case.
-/

namespace Switchboard

/-- What a relation says of two numbers. -/
def Relation.Between : Relation → ℚ → ℚ → Prop
  | .eq, p, q => p = q
  | .ne, p, q => p ≠ q
  | .lt, p, q => p < q
  | .le, p, q => p ≤ q
  | .gt, p, q => p > q
  | .ge, p, q => p ≥ q

instance (r : Relation) (p q : ℚ) : Decidable (r.Between p q) := by
  cases r <;> unfold Relation.Between <;> infer_instance

/-- Where two numbers are ordered as they are, a relation holds as it says. -/
theorem Relation.holds_cmp (r : Relation) (p q : ℚ) :
    r.holds (cmp p q) = decide (r.Between p q) := by
  obtain h | rfl | h := lt_trichotomy p q
  · rw [(cmp_eq_lt_iff p q).2 h]
    cases r <;> simp [Relation.holds, Relation.Between, h, h.le, h.ne, h.not_gt, h.not_ge]
  · rw [cmp_self_eq_eq]
    cases r <;> simp [Relation.holds, Relation.Between]
  · rw [(cmp_eq_gt_iff p q).2 h]
    cases r <;> simp [Relation.holds, Relation.Between, h, h.le, h.ne', h.not_gt, h.not_ge]

namespace Decimal

/-! ## words at the wider scale -/

/-- Of a number and a word other than the least, the number counts as no more
than the greatest word and so does not exceed that one. -/
theorem cmp_clamped {m n : Int} (hn : InWord n) (hl : n ≠ least) :
    cmp (clamped m) (clamped n) = if n = greatest ∧ n < m then .eq else cmp m n := by
  rw [inWord_iff] at hn
  by_cases htie : n = greatest ∧ n < m
  · rw [if_pos htie, cmp_eq_eq_iff]
    simp only [clamped, least, greatest] at htie ⊢
    omega
  · rw [if_neg htie]
    obtain h | rfl | h := lt_trichotomy m n
    · rw [(cmp_eq_lt_iff m n).2 h, cmp_eq_lt_iff]
      simp only [clamped, least, greatest] at hl htie ⊢
      omega
    · rw [cmp_self_eq_eq, cmp_self_eq_eq]
    · rw [(cmp_eq_gt_iff m n).2 h, cmp_eq_gt_iff]
      simp only [clamped, least, greatest] at hl htie ⊢
      omega

theorem compare_eq_cmp (a b : Decimal) :
    a.compare b = cmp (clamped (a.units * power (max a.scale b.scale - a.scale)))
      (clamped (b.units * power (max a.scale b.scale - b.scale))) :=
  (cmp_eq_compare _ _).symm

theorem compare_swap (a b : Decimal) : (a.compare b).swap = b.compare a := by
  rw [compare_eq_cmp, compare_eq_cmp, cmp_swap, Nat.max_comm]

/-- Numbers are ordered as their units at the wider scale. -/
theorem cmp_toRat (a b : Decimal) :
    cmp a.toRat b.toRat = cmp (a.units * power (max a.scale b.scale - a.scale))
      (b.units * power (max a.scale b.scale - b.scale)) := by
  rw [← cmp_mul_pos_right (pow_ten_pos (max a.scale b.scale)), toRat_mul_pow (Nat.le_max_left _ _),
    toRat_mul_pow (Nat.le_max_right _ _)]
  exact Int.cast_strictMono.cmp_map_eq _ _

/-! ## the comparison -/

/-- Two different numbers, of which the lesser one has the greatest number of
units: at its scale no word is left for the other one. -/
def Blurred (a b : Decimal) : Prop :=
  (a.toRat < b.toRat ∧ a.units = greatest) ∨ (b.toRat < a.toRat ∧ b.units = greatest)

instance (a b : Decimal) : Decidable (Blurred a b) := inferInstanceAs (Decidable (_ ∨ _))

theorem Blurred.symm {a b : Decimal} (h : Blurred a b) : Blurred b a := Or.symm h

theorem Blurred.ne {a b : Decimal} (h : Blurred a b) : a.toRat ≠ b.toRat :=
  h.elim (fun hless => hless.1.ne) fun hless => hless.1.ne'

/-- The comparison with a decimal whose scale is no less. -/
theorem compare_of_scale_le {a b : Decimal} (hb : Held b) (hl : b.units ≠ least)
    (h : a.scale ≤ b.scale) :
    a.compare b = if Blurred a b then .eq else cmp a.toRat b.toRat := by
  have hscale : max a.scale b.scale = b.scale := Nat.max_eq_right h
  have hordered := cmp_toRat a b
  rw [compare_eq_cmp, hordered]
  rw [hscale, Nat.sub_self, show power 0 = 1 from rfl, Int.mul_one] at hordered ⊢
  rw [cmp_clamped hb.units hl]
  have hless : a.toRat < b.toRat ↔ a.units * power (b.scale - a.scale) < b.units := by
    rw [← cmp_eq_lt_iff, hordered, cmp_eq_lt_iff]
  have hmore : b.toRat < a.toRat ↔ b.units < a.units * power (b.scale - a.scale) := by
    rw [← cmp_eq_gt_iff, hordered, cmp_eq_gt_iff]
  refine if_congr ?_ rfl rfl
  rw [Blurred, hless, hmore]
  constructor
  · rintro ⟨hmost, habove⟩
    exact .inr ⟨habove, hmost⟩
  rintro (⟨hbelow, hmost⟩ | ⟨habove, hmost⟩)
  · -- the greatest number of units is no less at a wider scale
    have hfactor : 0 < power (b.scale - a.scale) :=
      (inWord_power (Nat.le_trans (Nat.sub_le _ _) hb.scale)).2
    have hkept : a.units * 1 ≤ a.units * power (b.scale - a.scale) :=
      Int.mul_le_mul_of_nonneg_left hfactor (by rw [hmost]; decide)
    have hbounds := (inWord_iff.1 hb.units).2
    simp only [greatest] at hmost
    omega
  · exact ⟨hmost, habove⟩

/-- What comparing two decimals that texts denote comes to. -/
theorem compare_eq {a b : Decimal} (ha : Held a ∧ a.units ≠ least) (hb : Held b ∧ b.units ≠ least) :
    a.compare b = if Blurred a b then .eq else cmp a.toRat b.toRat := by
  obtain h | h := Nat.le_total a.scale b.scale
  · exact compare_of_scale_le hb.1 hb.2 h
  · rw [← compare_swap b a, compare_of_scale_le ha.1 ha.2 h, apply_ite Ordering.swap, cmp_swap]
    exact if_congr ⟨Blurred.symm, Blurred.symm⟩ rfl rfl

/-- Comparing is that of the numbers denoted, but for the one case. -/
theorem compare_eq_cmp_iff {a b : Decimal} (ha : Held a ∧ a.units ≠ least)
    (hb : Held b ∧ b.units ≠ least) : a.compare b = cmp a.toRat b.toRat ↔ ¬Blurred a b := by
  rw [compare_eq ha hb]
  refine ⟨fun hsame hblurred => ?_, fun hapart => if_neg hapart⟩
  rw [if_pos hblurred] at hsame
  exact hblurred.ne ((cmp_eq_eq_iff _ _).1 hsame.symm)

/-! ## the order of some numbers -/

/-- Numbers of texts of which no two are in the one case. -/
structure Apart (S : Set Decimal) : Prop where
  denoted : ∀ a ∈ S, ∃ text, parse text = .ok a
  distinct : ∀ a ∈ S, ∀ b ∈ S, ¬Blurred a b

variable {S : Set Decimal}

/-- All numbers of texts that are less than the greatest one of the most places. -/
def BelowLimit : Set Decimal :=
  {a | (∃ text, parse text = .ok a) ∧ a.toRat < greatest / 10 ^ maxScale}

theorem apart_belowLimit : Apart BelowLimit := by
  have hfewer {a : Decimal} (ha : a ∈ BelowLimit) : a.units ≠ greatest := by
    obtain ⟨⟨_, hparsed⟩, hless⟩ := ha
    intro hmost
    have hnonneg : (0 : ℚ) ≤ (greatest : Int) := by norm_num [greatest]
    have hplaces : (10 : ℚ) ^ a.scale ≤ 10 ^ maxScale :=
      pow_le_pow_right₀ (by norm_num) (held_of_parse hparsed).1.scale
    rw [toRat, hmost] at hless
    exact absurd hless (not_lt.2 (div_le_div_of_nonneg_left hnonneg (pow_ten_pos _) hplaces))
  refine ⟨fun a ha => ha.1, fun a ha b hb hblurred => ?_⟩
  obtain ⟨-, hmost⟩ | ⟨-, hmost⟩ := hblurred
  · exact hfewer ha hmost
  · exact hfewer hb hmost

theorem Apart.compare_eq (h : Apart S) (a b : S) :
    a.1.compare b.1 = cmp a.1.toRat b.1.toRat := by
  obtain ⟨_, ha⟩ := h.denoted a a.2
  obtain ⟨_, hb⟩ := h.denoted b b.2
  exact (compare_eq_cmp_iff (held_of_parse ha) (held_of_parse hb)).2 (h.distinct a a.2 b b.2)

theorem isLE_cmp_iff (p q : ℚ) : (cmp p q).isLE ↔ p ≤ q := by
  rw [Ordering.isLE_iff_ne_gt, cmp_eq_gt_iff, not_lt]

/-- Comparing is a total order on them. -/
theorem Apart.transCmp (h : Apart S) : Std.TransCmp fun a b : S => a.1.compare b.1 where
  eq_swap {a b} := (compare_swap b.1 a.1).symm
  isLE_trans {a b c} hab hbc := by
    rw [h.compare_eq, isLE_cmp_iff] at hab hbc ⊢
    exact hab.trans hbc

/-- Comparing as equal is denoting one number. -/
theorem Apart.equal_iff (h : Apart S) (a b : S) :
    a.1.compare b.1 = .eq ↔ a.1.toRat = b.1.toRat := by
  rw [h.compare_eq, cmp_eq_eq_iff]

theorem Apart.equivalence (h : Apart S) :
    Equivalence fun a b : S => a.1.compare b.1 = .eq where
  refl a := (h.equal_iff a a).2 rfl
  symm {a b} hab := (h.equal_iff b a).2 ((h.equal_iff a b).1 hab).symm
  trans {a b c} hab hbc :=
    (h.equal_iff a c).2 (((h.equal_iff a b).1 hab).trans ((h.equal_iff b c).1 hbc))

/-! ## tests -/

/-- A numeric test of two texts asks for the order of their numbers. -/
theorem test_numeric {s : Interpreter} {lhs rhs : Argument} {ta tb : String} {a b : Decimal}
    (hl : s.value lhs = .ok ta) (hr : s.value rhs = .ok tb) (ha : parse ta = .ok a)
    (hb : parse tb = .ok b) (r : Relation) :
    s.test (.compare lhs (.numeric r) rhs) = .ok (r.holds (a.compare b)) := by
  simp [Interpreter.test, Interpreter.number, hl, hr, ha, hb, Except.mapError, bind, Except.bind,
    pure, Except.pure]

/-- The tests decide their relations of two numbers unless these are in the one case. -/
theorem test_numeric_iff {s : Interpreter} {lhs rhs : Argument} {ta tb : String} {a b : Decimal}
    (hl : s.value lhs = .ok ta) (hr : s.value rhs = .ok tb) (ha : parse ta = .ok a)
    (hb : parse tb = .ok b) :
    (∀ r : Relation, s.test (.compare lhs (.numeric r) rhs) =
      .ok (decide (r.Between a.toRat b.toRat))) ↔ ¬Blurred a b := by
  simp only [test_numeric hl hr ha hb, Except.ok.injEq]
  have hexactIff := compare_eq_cmp_iff (held_of_parse ha) (held_of_parse hb)
  constructor
  · intro hdecided hblurred
    have htie : a.compare b = .eq := by
      rw [compare_eq (held_of_parse ha) (held_of_parse hb), if_pos hblurred]
    have hequal : decide (Relation.eq.Between a.toRat b.toRat) = true := by
      rw [← hdecided .eq, htie]
      rfl
    exact hblurred.ne (of_decide_eq_true hequal)
  · intro hapart r
    rw [hexactIff.2 hapart, Relation.holds_cmp]

/-- Decimals that texts denote are ordered as their numbers, by comparing and by
every numeric test of a script, exactly unless the lesser one has the greatest
number of units: then they count as equal. Among numbers of which no two are in
that case the order is total and equality an equivalence. -/
theorem compare_numeric_iff {ta tb : String} {a b : Decimal} (ha : parse ta = .ok a)
    (hb : parse tb = .ok b) :
    (a.compare b = cmp a.toRat b.toRat ↔ ¬Blurred a b) ∧
    (Blurred a b → a.compare b = .eq) ∧
    (∀ (s : Interpreter) lhs rhs, s.value lhs = .ok ta → s.value rhs = .ok tb →
      ((∀ r : Relation, s.test (.compare lhs (.numeric r) rhs) =
        .ok (decide (r.Between a.toRat b.toRat))) ↔ ¬Blurred a b)) ∧
    ∀ S, Apart S → (Std.TransCmp fun a b : S => a.1.compare b.1) ∧
      Equivalence fun a b : S => a.1.compare b.1 = .eq := by
  refine ⟨?_, fun hblurred => ?_, fun s lhs rhs hl hr => ?_,
    fun S hapart => ⟨hapart.transCmp, hapart.equivalence⟩⟩
  · exact compare_eq_cmp_iff (held_of_parse ha) (held_of_parse hb)
  · rw [compare_eq (held_of_parse ha) (held_of_parse hb), if_pos hblurred]
  · exact test_numeric_iff hl hr ha hb

/-- Next to the greatest number of nine places a number less by a unit stays
less; on the other side of nought a number too far out for nine places stays
less than the last one; and all numbers below the limit are in order. -/
theorem compare_numeric_near_the_limits :
    (⟨greatest - 1, 9⟩ : Decimal).compare ⟨greatest, 9⟩ = .lt ∧
    (⟨-170141183460469231731687303716, 0⟩ : Decimal).compare ⟨-greatest, 9⟩ = .lt ∧
    (∀ (s : Interpreter) (r : Relation),
      s.test (.compare (.literal "170141183460469231731687303715") (.numeric r)
        (.literal "170141183460469231731687303715.884105727")) =
      .ok (decide (r.Between (toRat ⟨170141183460469231731687303715, 0⟩)
        (toRat ⟨greatest, 9⟩)))) ∧
    Std.TransCmp fun a b : BelowLimit => a.1.compare b.1 := by
  have hmost : parse "170141183460469231731687303715.884105727" = .ok ⟨greatest, 9⟩ := rfl
  have hbefore : parse "170141183460469231731687303715.884105726" = .ok ⟨greatest - 1, 9⟩ := rfl
  have hwhole : parse "170141183460469231731687303715" =
    .ok ⟨170141183460469231731687303715, 0⟩ := rfl
  have hlowest : parse "-170141183460469231731687303715.884105727" = .ok ⟨-greatest, 9⟩ := rfl
  have hbelow : parse "-170141183460469231731687303716" =
    .ok ⟨-170141183460469231731687303716, 0⟩ := rfl
  refine ⟨?_, ?_, fun s r => ?_, ((compare_numeric_iff hmost hmost).2.2.2 _ apart_belowLimit).1⟩
  · rw [(compare_numeric_iff hbefore hmost).1.2 (by norm_num [Blurred, toRat, greatest]),
      cmp_eq_lt_iff]
    norm_num [toRat, greatest]
  · rw [(compare_numeric_iff hbelow hlowest).1.2 (by norm_num [Blurred, toRat, greatest]),
      cmp_eq_lt_iff]
    norm_num [toRat, greatest]
  · exact ((compare_numeric_iff hwhole hmost).2.2.1 s _ _ rfl rfl).2
      (by norm_num [Blurred, toRat, greatest]) r

/-- The greatest number of nine places compares as equal to every whole number
above it, and so to two that do not compare as equal to each other. -/
theorem equality_not_transitive :
    parse "170141183460469231731687303716" = .ok ⟨170141183460469231731687303716, 0⟩ ∧
    parse "170141183460469231731687303717" = .ok ⟨170141183460469231731687303717, 0⟩ ∧
    parse "170141183460469231731687303715.884105727" = .ok ⟨greatest, 9⟩ ∧
    toRat ⟨greatest, 9⟩ < toRat ⟨170141183460469231731687303716, 0⟩ ∧
    (⟨170141183460469231731687303716, 0⟩ : Decimal).compare ⟨greatest, 9⟩ = .eq ∧
    (⟨greatest, 9⟩ : Decimal).compare ⟨170141183460469231731687303717, 0⟩ = .eq ∧
    (⟨170141183460469231731687303716, 0⟩ : Decimal).compare
      ⟨170141183460469231731687303717, 0⟩ = .lt := by
  refine ⟨rfl, rfl, rfl, ?_, by decide, by decide, by decide⟩
  norm_num [toRat, greatest]

end Decimal

end Switchboard
