import Switchboard.Proofs.Decimal.Evaluation

/-!
# Switchboard.Proofs.Decimal.Word

Arithmetic in words of 128 bits.

1. The functions of `Word` are those of decimals, written as a machine carries
   them out: every operation on words is either checked, so that an overflow is
   reported, or bare, so that a result which no word holds is a trap.
2. On decimals within words both give the same (`Word.binary_eq` and its like):
   the number-theoretic functions hide no trap.
3. All decimals that an expression deals with are within words: its literals,
   and the operands of every operation that its reading comes to.
4. A bare operation does trap at one place: where the least word is divided by
   minus one, for a quotient or for a remainder. An assignment never comes to
   it, an expression can.
-/

namespace Switchboard.Decimal

/-! ## operations on words -/

/-- A number that a word holds. -/
def InWord (n : Int) : Prop := least ≤ n ∧ n ≤ greatest

instance (n : Int) : Decidable (InWord n) := inferInstanceAs (Decidable (_ ∧ _))

namespace Word

/-- The result of an operation that nothing checks: where no word holds it,
the operation traps. -/
def bare (n : Int) : Except Error Int := if InWord n then .ok n else .error .quotientOutOfRange

/-- Ten to the power `n`, unchecked. -/
def power (n : Nat) : Except Error Int := bare (Decimal.power n)

/-- A negated word, unchecked. -/
def negate (n : Int) : Except Error Int := bare (-n)

/-- A quotient of words, unchecked: it traps at nought, too. -/
def quotient (a b : Int) : Except Error Int :=
  if b = 0 then .error .quotientOutOfRange else bare (a.tdiv b)

/-- A remainder of words, unchecked: it traps where the quotient does. -/
def remainder (a b : Int) : Except Error Int := do
  let _ ← quotient a b
  return a.tmod b

/-- The same number with `scale` places. -/
def rescale (d : Decimal) (scale : Nat) : Except Error Decimal :=
  if d.scale = scale then .ok d
  else if d.scale < scale then do
    let factor ← power (scale - d.scale)
    let units ← checked (d.units * factor)
    return ⟨units, scale⟩
  else do
    let factor ← power (d.scale - scale)
    let units ← quotient d.units factor
    return ⟨units, scale⟩

/-- The number with no more than `cap` places. -/
def capped (d : Decimal) (cap : Nat) : Except Error Decimal := rescale d (min d.scale cap)

/-- Units of `a op b`, both operands at `scale`. -/
def units (op : Operator) (a b : Int) (scale : Nat) : Except Error Int :=
  match op with
  | .add => checked (a + b)
  | .sub => checked (a - b)
  | .mul => do
    let n ← checked (a * b)
    let factor ← power scale
    quotient n factor
  | .div =>
    if b = 0 then .error .divideByZero
    else do
      let factor ← power scale
      let n ← checked (a * factor)
      quotient n b
  | .mod => if b = 0 then .error .divideByZero else remainder a b

/-- The value of `a op b` with no more than `cap` places. -/
def binary (a : Decimal) (op : Operator) (b : Decimal) (cap : Nat) : Except Error Decimal := do
  let scale := min (max a.scale b.scale) cap
  let x ← rescale a scale
  let y ← rescale b scale
  let units ← units op x.units y.units scale
  return ⟨units, scale⟩

/-- Units written by the digits: each digit takes a product and a sum. -/
def unitsOf (digits : List Char) : Except Error Int :=
  digits.foldlM (fun n c => do
    let shifted ← checked (n * 10)
    checked (shifted + Text.digitValue c)) 0

/-- The units with their sign. -/
def sign (negative : Bool) (n : Int) : Except Error Int := if negative then negate n else .ok n

/-- The number a text denotes. -/
def parse (text : String) : Except Error Decimal :=
  let cs := Text.trim text.toList
  if cs.isEmpty then .ok zero
  else
    let (negative, body) := signed cs
    let (whole, fraction) := places body
    if (whole.isEmpty && fraction.isEmpty) || !whole.all Text.isDigit ||
        !fraction.all Text.isDigit then
      .error (.invalidNumber text)
    else do
      let fraction := fraction.take maxScale
      let units ← unitsOf (whole ++ fraction)
      let units ← sign negative units
      return ⟨units, fraction.length⟩

/-- What the target holds after an assignment. -/
def assign (current : String) (op : Assignment) (value : Decimal) (decimals : Nat) :
    Except Error Decimal :=
  match op with
  | .set | .ifEmpty => .ok value
  | .update op => do
    let held ← parse current
    let held ← capped held (capOf decimals)
    binary held op value (capOf decimals)

end Word

/-! ## results that are words -/

/-- The bounds of a word, in numbers. -/
theorem inWord_iff {n : Int} : InWord n ↔
    -170141183460469231731687303715884105728 ≤ n ∧ n ≤ 170141183460469231731687303715884105727 :=
  Iff.rfl

/-- What is no greater than a word fits in one, but for the number above the greatest. -/
theorem inWord_of_natAbs_le {n m : Int} (hm : InWord m) (h : n.natAbs ≤ m.natAbs)
    (hn : n ≠ greatest + 1) : InWord n := by
  rw [inWord_iff] at *
  simp only [greatest] at hn
  omega

theorem checked_eq {n : Int} (h : InWord n) : checked n = .ok n := if_pos h

/-- A number that no word holds overflows. -/
theorem checked_error {n : Int} (h : ¬InWord n) : checked n = .error .overflow := if_neg h

/-- A check passes a number on as it is. -/
theorem eq_of_checked {n m : Int} (h : checked n = .ok m) : m = n ∧ InWord m := by
  unfold checked at h
  split at h
  · next hn =>
    cases h
    exact ⟨rfl, hn⟩
  · cases h

theorem Word.bare_eq {n : Int} (h : InWord n) : Word.bare n = .ok n := if_pos h

/-- A quotient of words is a word, but for the least word divided by minus one. -/
theorem inWord_tdiv {a b : Int} (ha : InWord a) (h : ¬(a = least ∧ b = -1)) :
    InWord (a.tdiv b) := by
  have hquotient := Int.natAbs_tdiv a b
  have hsmaller : a.natAbs / b.natAbs ≤ a.natAbs := Nat.div_le_self _ _
  refine inWord_of_natAbs_le ha (hquotient ▸ hsmaller) fun he => ?_
  rw [inWord_iff] at ha
  simp only [least, greatest] at h he
  by_cases hb : b.natAbs ≤ 1
  · obtain rfl | rfl | rfl : b = 0 ∨ b = 1 ∨ b = -1 := by omega
    · simp at he
    · rw [Int.tdiv_one] at he
      omega
    · rw [Int.tdiv_neg, Int.tdiv_one] at he
      omega
  · have hhalved : a.natAbs / b.natAbs ≤ a.natAbs / 2 := Nat.div_le_div_left (by omega) (by decide)
    change _ = a.natAbs / b.natAbs at hquotient
    omega

/-- A remainder is no further from nought than what is divided, on the same side. -/
theorem inWord_tmod {a : Int} (ha : InWord a) (b : Int) : InWord (a.tmod b) := by
  have hremainder := Int.natAbs_tmod a b
  have hsmaller : a.natAbs % b.natAbs ≤ a.natAbs := Nat.mod_le _ _
  rw [inWord_iff] at *
  obtain h | h := Int.le_total 0 a
  · have := Int.tmod_nonneg b h
    omega
  · have := Int.tmod_nonneg b (show 0 ≤ -a by omega)
    rw [Int.neg_tmod] at this
    omega

/-- The one quotient of words that is no word. -/
theorem tdiv_least : Int.tdiv least (-1) = greatest + 1 := by decide

/-- The bare quotient of words traps at one pair of them. -/
theorem Word.quotient_eq {a b : Int} (ha : InWord a) (hb : b ≠ 0) :
    Word.quotient a b =
      if a = least ∧ b = -1 then .error .quotientOutOfRange else .ok (a.tdiv b) := by
  rw [Word.quotient, if_neg hb]
  split
  · next h => rw [h.1, h.2, tdiv_least]; rfl
  · next h => exact Word.bare_eq (inWord_tdiv ha h)

/-- A power of ten is a word as long as it is one of a scale. -/
theorem inWord_power {n : Nat} (h : n ≤ maxScale) : InWord (power n) ∧ 0 < power n := by
  have heach : ∀ n < maxScale + 1, InWord (power n) ∧ 0 < power n := by decide
  exact heach n (Nat.lt_succ_of_le h)

/-- No power of ten that is used overflows. -/
theorem Word.power_eq {n : Nat} (h : n ≤ maxScale) : Word.power n = .ok (Decimal.power n) :=
  Word.bare_eq (inWord_power h).1

/-! ## decimals within words -/

/-- A decimal whose units are a word, with no more places than the most. -/
structure Held (d : Decimal) : Prop where
  units : InWord d.units
  scale : d.scale ≤ maxScale

/-- In rescaling, words give what whole numbers give. -/
theorem Word.rescale_eq {d : Decimal} {scale : Nat} (hd : Held d) (hs : scale ≤ maxScale) :
    Word.rescale d scale = d.rescale scale := by
  have hn := hd.units
  have hp := hd.scale
  unfold Word.rescale Decimal.rescale
  obtain h | h | h := Nat.lt_trichotomy d.scale scale
  · rw [if_neg (Nat.ne_of_lt h), if_pos h, if_pos (Nat.le_of_lt h),
      Word.power_eq (Nat.le_trans (Nat.sub_le _ _) hs)]
    simp only [bind, Except.bind]
    cases checked (d.units * Decimal.power (scale - d.scale)) with
    | error e => rfl
    | ok n => rfl
  · subst h
    rw [if_pos rfl, if_pos (Nat.le_refl _), Nat.sub_self, show Decimal.power 0 = 1 from rfl,
      Int.mul_one, checked_eq hn]
    rfl
  · obtain ⟨hw, hpos⟩ := inWord_power (Nat.le_trans (Nat.sub_le d.scale scale) hp)
    rw [if_neg (Nat.ne_of_gt h), if_neg (Nat.not_lt_of_lt h), if_neg (Nat.not_le_of_lt h),
      Word.power_eq (Nat.le_trans (Nat.sub_le _ _) hp)]
    simp only [bind, Except.bind]
    rw [Word.quotient_eq hn (by omega), if_neg (by omega)]
    rfl

/-- A number stays held when it is rescaled. -/
theorem held_of_rescale {d v : Decimal} {scale : Nat} (hd : Held d) (hs : scale ≤ maxScale)
    (h : d.rescale scale = .ok v) : Held v := by
  refine ⟨?_, by rw [scale_of_rescale h]; exact hs⟩
  rw [Decimal.rescale] at h
  split at h
  · obtain ⟨n, hc, rfl⟩ := ok_of_map h
    exact (eq_of_checked hc).2
  · cases h
    obtain ⟨-, hpos⟩ := inWord_power (Nat.le_trans (Nat.sub_le d.scale scale) hd.scale)
    exact inWord_tdiv hd.units (by omega)

/-- In every operation, words give what whole numbers give, traps included. -/
theorem Word.units_eq {op : Operator} {a b : Int} {scale : Nat} (ha : InWord a)
    (hs : scale ≤ maxScale) : Word.units op a b scale = op.units a b scale := by
  obtain ⟨-, hpos⟩ := inWord_power hs
  cases op with
  | add | sub => rfl
  | mul =>
      simp only [Word.units, Operator.units, Word.power_eq hs, bind]
      cases hc : checked (a * b) with
      | error e => rfl
      | ok n =>
          simp only [Except.bind, Except.map]
          rw [Word.quotient_eq (eq_of_checked hc).2 (by omega), if_neg (by omega)]
  | div =>
      simp only [Word.units, Operator.units, Word.power_eq hs, bind]
      split
      · rfl
      · next hb =>
        simp only [Except.bind]
        cases hc : checked (a * Decimal.power scale) with
        | error e => rfl
        | ok n =>
            simp only
            rw [Word.quotient_eq (eq_of_checked hc).2 hb]
  | mod =>
      simp only [Word.units, Operator.units, Word.remainder, bind]
      split
      · rfl
      · next hb =>
        rw [Word.quotient_eq ha hb]
        split <;> rfl

/-- An operation on words is that on decimals within words. -/
theorem Word.binary_eq {a b : Decimal} {cap : Nat} (ha : Held a) (hb : Held b)
    (hc : cap ≤ maxScale) (op : Operator) : Word.binary a op b cap = a.binary op b cap := by
  have hs : min (max a.scale b.scale) cap ≤ maxScale := Nat.le_trans (Nat.min_le_right _ _) hc
  simp only [Word.binary, Decimal.binary, Word.rescale_eq ha hs, Word.rescale_eq hb hs]
  cases hx : a.rescale (min (max a.scale b.scale) cap) with
  | error e => rfl
  | ok x =>
      simp only [bind, Except.bind, Word.units_eq (held_of_rescale ha hs hx).units hs]

/-- An operation that gives units gives a word. -/
theorem inWord_of_units {op : Operator} {a b n : Int} {scale : Nat} (ha : InWord a)
    (hs : scale ≤ maxScale) (h : op.units a b scale = .ok n) : InWord n := by
  obtain ⟨-, hpos⟩ := inWord_power hs
  cases op with
  | add | sub => exact (eq_of_checked h).2
  | mul =>
      obtain ⟨m, hm, rfl⟩ := ok_of_map h
      exact inWord_tdiv (eq_of_checked hm).2 (by omega)
  | div =>
      simp only [Operator.units] at h
      split at h
      · cases h
      · obtain ⟨m, hm, h⟩ := ok_of_bind h
        split at h
        · cases h
        · next hq =>
          cases h
          exact inWord_tdiv (eq_of_checked hm).2 hq
  | mod =>
      simp only [Operator.units] at h
      split at h
      · cases h
      · split at h
        · cases h
        · cases h
          exact inWord_tmod ha b

/-- The result of an operation is within words. -/
theorem held_of_binary {a b v : Decimal} {op : Operator} {cap : Nat} (ha : Held a)
    (hc : cap ≤ maxScale) (h : a.binary op b cap = .ok v) : Held v := by
  have hs : min (max a.scale b.scale) cap ≤ maxScale := Nat.le_trans (Nat.min_le_right _ _) hc
  obtain ⟨x, hx, h⟩ := ok_of_bind h
  obtain ⟨y, -, h⟩ := ok_of_bind h
  obtain ⟨n, hn, h⟩ := ok_of_bind h
  cases h
  exact ⟨inWord_of_units (held_of_rescale ha hs hx).units hs hn, hs⟩

/-! ## texts -/

/-- A number of units as digits write it: a word, and not less than nought. -/
def Written (n : Int) : Prop := 0 ≤ n ∧ n ≤ greatest

theorem written_iff {n : Int} :
    Written n ↔ 0 ≤ n ∧ n ≤ 170141183460469231731687303715884105727 := Iff.rfl

/-- One more digit overflows in the sum if it does in the product. -/
theorem Word.digit_eq {n : Int} (hn : Written n) (d : Nat) :
    (do let shifted ← checked (n * 10); checked (shifted + d)) = checked (n * 10 + d) := by
  rw [written_iff] at hn
  by_cases h : InWord (n * 10)
  · rw [checked_eq h]
    rfl
  · have hd : ¬InWord (n * 10 + d) := by
      rw [inWord_iff] at *
      omega
    rw [checked_error h, checked_error hd]
    rfl

/-- A digit more, if it is checked, leaves a number that can be written. -/
theorem written_digit {n m : Int} (hn : Written n) {d : Nat} (h : checked (n * 10 + d) = .ok m) :
    Written m := by
  obtain ⟨rfl, hw⟩ := eq_of_checked h
  rw [written_iff] at *
  rw [inWord_iff] at hw
  omega

/-- Digits are read in words as they are in whole numbers. -/
theorem Word.unitsOf_eq (digits : List Char) : Word.unitsOf digits = Decimal.unitsOf digits := by
  have hstart : Written 0 := by simp [written_iff]
  unfold Word.unitsOf Decimal.unitsOf
  generalize (0 : Int) = n at hstart
  induction digits generalizing n with
  | nil => rfl
  | cons c digits ih =>
      rw [List.foldlM_cons, List.foldlM_cons, Word.digit_eq hstart]
      cases hc : checked (n * 10 + Text.digitValue c) with
      | error e => rfl
      | ok m => exact ih m (written_digit hstart hc)

/-- Units that are read from digits can be written. -/
theorem written_of_unitsOf {digits : List Char} {n : Int} (h : unitsOf digits = .ok n) :
    Written n := by
  have hstart : Written 0 := by simp [written_iff]
  unfold unitsOf at h
  generalize (0 : Int) = m at hstart h
  induction digits generalizing m with
  | nil => cases h; exact hstart
  | cons c digits ih =>
      rw [List.foldlM_cons] at h
      obtain ⟨m', hm, h⟩ := ok_of_bind h
      exact ih m' (written_digit hstart hm) h

/-- With a sign, too, they are units of a word, and never the least. -/
theorem Written.signed {n : Int} (hn : Written n) (negative : Bool) :
    InWord (if negative then -n else n) ∧ (if negative then -n else n) ≠ least := by
  rw [written_iff] at hn
  rw [inWord_iff]
  simp only [least]
  split <;> omega

/-- A sign does not overflow, as only what can be written is negated. -/
theorem Word.sign_eq (negative : Bool) {n : Int} (hn : Written n) :
    Word.sign negative n = .ok (if negative then -n else n) := by
  have hbounds := (hn.signed negative).1
  cases negative with
  | true => exact Word.bare_eq hbounds
  | false => rfl

/-- Numerals are read in words as they are in whole numbers. -/
theorem Word.parse_eq (text : String) : Word.parse text = Decimal.parse text := by
  unfold Word.parse Decimal.parse
  generalize Text.trim text.toList = cs
  rcases hs : signed cs with ⟨negative, body⟩
  rcases hp : places body with ⟨whole, fraction⟩
  simp only [hs, hp, Word.unitsOf_eq]
  split
  · rfl
  · split
    · rfl
    · cases hu : Decimal.unitsOf (whole ++ fraction.take maxScale) with
      | error e => rfl
      | ok n =>
          simp only [bind, Except.bind, Word.sign_eq negative (written_of_unitsOf hu)]

/-- A number that a text denotes is within words, and so is its negation. -/
theorem held_of_parse {text : String} {d : Decimal} (h : parse text = .ok d) :
    Held d ∧ d.units ≠ least := by
  unfold parse at h
  simp only at h
  split at h
  · cases h
    exact ⟨⟨by decide, by decide⟩, by decide⟩
  · split at h
    · cases h
    · obtain ⟨n, hn, h⟩ := ok_of_bind h
      have hbounds := (written_of_unitsOf hn).signed (signed (Text.trim text.toList)).1
      cases h
      exact ⟨⟨hbounds.1, List.length_take_le _ _⟩, hbounds.2⟩

/-! ## what an expression deals with -/

/-- Tokens whose numbers are within words. -/
def AllHeld (ts : List Token) : Prop := ∀ d, .number d ∈ ts → Held d

theorem AllHeld.of_suffix {ts us : List Token} (h : AllHeld ts) (hs : us <:+ ts) : AllHeld us :=
  fun d hd => h d (hs.subset hd)

theorem AllHeld.tail {t : Token} {ts : List Token} (h : AllHeld (t :: ts)) : AllHeld ts :=
  h.of_suffix (List.suffix_cons _ _)

/-- Every number that is read from a text is held. -/
theorem Spells.allHeld {cs : List Char} {ts : List Token} (h : Spells cs ts) : AllHeld ts := by
  induction h with
  | nil => simp [AllHeld]
  | blank _ _ ih => exact ih
  | opening _ ih | closing _ ih | operator _ _ ih => simpa [AllHeld] using ih
  | number _ _ _ hvalue _ ih =>
      intro d hd
      obtain hd | hd := List.mem_cons.1 hd
      · cases hd
        exact (held_of_parse hvalue).1
      · exact ih d hd

/-- The literals of an expression are within words. -/
theorem Spelled.allHeld {fragments : List String} {ts : List Token} (h : Spelled fragments ts) :
    AllHeld ts := by
  induction h with
  | nil => simp [AllHeld]
  | cons hfirst _ ih =>
      intro d hd
      obtain hd | hd := List.mem_append.1 hd
      · cases hfirst with
        | number hvalue _ =>
            cases List.mem_singleton.1 hd
            exact (held_of_parse hvalue).1
        | scanned _ hspells => exact hspells.allHeld d hd
      · exact ih d hd

variable {cap : Nat}

theorem held_zero : Held zero := ⟨by decide, by decide⟩

theorem Held.capped {d v : Decimal} (hd : Held d) (h : d.capped cap = .ok v) : Held v :=
  held_of_rescale hd (Nat.le_trans (Nat.min_le_left _ _) hd.scale) h

/-- A tree whose value, if it has one, is within words. -/
def Tree.Held (t : Tree) (cap : Nat) : Prop := ∀ v, t.value cap = .ok v → Decimal.Held v

/-- The value of an operation is within words where its left operand is. -/
theorem Tree.Held.apply {l r : Tree} {op : Operator} (hl : l.Held cap) (hc : cap ≤ maxScale) :
    (Tree.apply l op r).Held cap := by
  intro v h
  obtain ⟨a, ha, h⟩ := ok_of_bind h
  obtain ⟨b, -, h⟩ := ok_of_bind h
  exact held_of_binary (hl a ha) hc h

/-- What has been read of a part before it is within words. -/
def Part.FrontHeld (cap : Nat) : Part → Prop
  | .terms l | .factors l => l.Held cap
  | _ => True

/-- Where the literals are within words, so is the value of every part. -/
theorem Reads.held {p : Part} {ts rest : List Token} {t : Tree} (h : Reads p ts t rest)
    (hc : cap ≤ maxScale) (hliterals : AllHeld ts) (hfront : p.FrontHeld cap) : t.Held cap := by
  induction h with
  | noTerm | noFactor => exact hfront
  | sum hfirst _ ihf iho => exact iho (hliterals.of_suffix hfirst.suffix) (ihf hliterals trivial)
  | product hfirst _ ihf iho =>
      exact iho (hliterals.of_suffix hfirst.suffix) (ihf hliterals trivial)
  | term _ hoperand _ _ iho =>
      exact iho (hliterals.tail.of_suffix hoperand.suffix) (Tree.Held.apply hfront hc)
  | factor _ hoperand _ _ iho =>
      exact iho (hliterals.tail.of_suffix hoperand.suffix) (Tree.Held.apply hfront hc)
  | minus _ _ =>
      intro v h
      obtain ⟨w, -, h⟩ := ok_of_bind h
      exact held_of_binary held_zero hc h
  | plus _ ih => exact ih hliterals.tail trivial
  | literal => exact fun v h => (hliterals _ (.head _)).capped h
  | group _ ih => exact ih hliterals.tail trivial

/-- The operands of every operation that reading comes to are within words. -/
theorem Comes.held {whole : List Token} {a b : Decimal} {op : Operator}
    (h : Comes cap whole a op b) (hc : cap ≤ maxScale) (hliterals : AllHeld whole) :
    Held a ∧ Held b := by
  cases h with
  | term hdue hfront _ hleft hoperand _ hright =>
      have hhere := hliterals.of_suffix hdue.suffix
      have hbehind := (hhere.of_suffix hfront.suffix).tail
      exact ⟨hfront.held hc hhere trivial _ hleft, hoperand.held hc hbehind trivial _ hright⟩
  | factor hdue hfront _ hleft hoperand hright =>
      have hhere := hliterals.of_suffix hdue.suffix
      have hbehind := (hhere.of_suffix hfront.suffix).tail
      exact ⟨hfront.held hc hhere trivial _ hleft, hoperand.held hc hbehind trivial _ hright⟩
  | minus hdue hoperand hright =>
      have hbehind := (hliterals.of_suffix hdue.suffix).tail
      exact ⟨held_zero, hoperand.held hc hbehind trivial _ hright⟩

theorem capOf_le (decimals : Nat) : capOf decimals ≤ maxScale := Nat.min_le_right _ _

/-- The value of an expression is within words. -/
theorem held_of_evaluate {fragments : List String} {decimals : Nat} {v : Decimal}
    (h : evaluate fragments decimals = .ok v) : Held v := by
  obtain ⟨ts, t, hspelled, hsentence, hvalue⟩ := evaluate_ok_iff.1 h
  exact Reads.held hsentence (capOf_le decimals) hspelled.allHeld trivial v hvalue

/-! ## the quotient that no word holds -/

/-- The least word is to be divided by minus one: as a quotient, which only
whole numbers come to, or as a remainder. -/
def OutOfRange (a : Decimal) (op : Operator) (b : Decimal) (cap : Nat) : Prop :=
  let scale := min (max a.scale b.scale) cap
  a.rescale scale = .ok ⟨least, scale⟩ ∧ b.rescale scale = .ok ⟨-1, scale⟩ ∧
    (op = .mod ∨ op = .div ∧ scale = 0)

theorem power_succ (n : Nat) : power (n + 1) = power n * 10 := by
  simp only [power, Nat.pow_eq, Nat.pow_succ]
  omega

/-- The least word is no multiple of ten. -/
theorem ne_least_of_mul_power (n : Int) (k : Nat) : n * power (k + 1) ≠ least := by
  rw [power_succ, ← Int.mul_assoc]
  simp only [least]
  omega

/-- A check does not trap. -/
theorem checked_ne_trap (n : Int) : checked n ≠ .error .quotientOutOfRange := by
  unfold checked
  split <;> exact nofun

/-- Units trap exactly where the least word is divided by minus one, at no places. -/
theorem units_trap_iff (op : Operator) (a b : Int) (scale : Nat) :
    op.units a b scale = .error .quotientOutOfRange ↔
      a = least ∧ b = -1 ∧ (op = .mod ∨ op = .div ∧ scale = 0) := by
  cases op with
  | add | sub | mul => simp [Operator.units, checked_ne_trap, map_ne_error]
  | div =>
      constructor
      · intro h
        simp only [Operator.units, bind] at h
        split at h
        · cases h
        · cases hc : checked (a * power scale) with
          | error e =>
              rw [hc] at h
              exact absurd (hc.trans h) (checked_ne_trap _)
          | ok n =>
              obtain ⟨rfl, -⟩ := eq_of_checked hc
              simp only [hc, Except.bind] at h
              split at h
              · next htrap =>
                cases scale with
                | zero => exact ⟨(Int.mul_one a).symm.trans htrap.1, htrap.2, .inr ⟨rfl, rfl⟩⟩
                | succ k => exact absurd htrap.1 (ne_least_of_mul_power a k)
              · cases h
      · rintro ⟨rfl, rfl, h | ⟨-, rfl⟩⟩
        · cases h
        · rfl
  | mod =>
      simp only [Operator.units]
      constructor
      · intro h
        split at h
        · cases h
        · split at h
          · next htrap => exact ⟨htrap.1, htrap.2, .inl trivial⟩
          · cases h
      · rintro ⟨rfl, rfl, -⟩
        rfl

/-- An operation traps exactly at this quotient. -/
theorem binary_trap_iff {a b : Decimal} {op : Operator} :
    a.binary op b cap = .error .quotientOutOfRange ↔ OutOfRange a op b cap := by
  simp only [binary, OutOfRange]
  generalize min (max a.scale b.scale) cap = scale
  cases hx : a.rescale scale with
  | error e =>
      cases rescale_error hx
      simp [bind, Except.bind]
  | ok x =>
      cases hy : b.rescale scale with
      | error e =>
          cases rescale_error hy
          simp [bind, Except.bind]
      | ok y =>
          obtain ⟨m, s⟩ := x
          obtain ⟨n, s'⟩ := y
          obtain rfl : s = scale := scale_of_rescale hx
          obtain rfl : s' = s := scale_of_rescale hy
          have htrap := units_trap_iff op m n s'
          simp only [bind, Except.bind, Except.ok.injEq, Decimal.mk.injEq, and_true, ← htrap]
          cases op.units m n s' with
          | error e => simp
          | ok units => simp [pure, Except.pure]

/-! ## assignment -/

/-- Units that are not the least of a word are not made so at another scale. -/
theorem ne_least_of_rescale {d v : Decimal} {scale : Nat} (hd : Held d) (hu : d.units ≠ least)
    (h : d.rescale scale = .ok v) : v.units ≠ least := by
  rw [Decimal.rescale] at h
  split at h
  · obtain ⟨n, hn, rfl⟩ := ok_of_map h
    obtain ⟨rfl, -⟩ := eq_of_checked hn
    cases scale - d.scale with
    | zero => rwa [show power 0 = 1 from rfl, Int.mul_one]
    | succ k => exact ne_least_of_mul_power d.units k
  · cases h
    have hsmaller : (d.units.tdiv (power (d.scale - scale))).natAbs ≤ d.units.natAbs := by
      rw [Int.natAbs_tdiv]
      exact Nat.div_le_self _ _
    have hbounds := inWord_iff.1 hd.units
    simp only [least] at hu ⊢
    omega

theorem Word.capped_eq {d : Decimal} (hd : Held d) (cap : Nat) :
    Word.capped d cap = d.capped cap :=
  Word.rescale_eq hd (Nat.le_trans (Nat.min_le_left _ _) hd.scale)

/-- An assignment computes in words what it computes in whole numbers. -/
theorem Word.assign_eq {value : Decimal} (hv : Held value) (current : String) (op : Assignment)
    (decimals : Nat) :
    Word.assign current op value decimals = Decimal.assign current op value decimals := by
  cases op with
  | set | ifEmpty => rfl
  | update op =>
      simp only [Word.assign, Decimal.assign, Word.parse_eq]
      cases hp : Decimal.parse current with
      | error e => rfl
      | ok held =>
          have hh := (held_of_parse hp).1
          simp only [bind, Except.bind, Word.capped_eq hh]
          cases hc : held.capped (capOf decimals) with
          | error e => rfl
          | ok d => exact Word.binary_eq (hh.capped hc) hv (capOf_le decimals) op

/-- A text never denotes the least word, so an assignment never traps. -/
theorem assign_ne_trap (current : String) (op : Assignment) (value : Decimal) (decimals : Nat) :
    assign current op value decimals ≠ .error .quotientOutOfRange := by
  cases op with
  | set | ifEmpty => exact nofun
  | update op =>
      refine bind_ne_error (parse_ne_trap current) fun held hp => ?_
      obtain ⟨hh, hl⟩ := held_of_parse hp
      refine bind_ne_error (rescale_ne_trap _ _) fun d hc => ?_
      rw [ne_eq, binary_trap_iff]
      rintro ⟨hr, -⟩
      exact ne_least_of_rescale (hh.capped hc) (ne_least_of_rescale hh hl hc) hr rfl

/-! ## script arithmetic -/

/-- An expression and its assignment, carried out with words: every text,
literal, operation and update gives what it gives for decimals. -/
structure WithinWords (fragments : List String) (current : String) (op : Assignment)
    (decimals : Nat) : Prop where
  text : ∀ text, Word.parse text = parse text
  literal : ∀ ts d, Spelled fragments ts → .number d ∈ ts →
    Word.capped d (capOf decimals) = d.capped (capOf decimals)
  operation : ∀ ts a op b, Spelled fragments ts → Comes (capOf decimals) ts a op b →
    Word.binary a op b (capOf decimals) = a.binary op b (capOf decimals)
  assignment : ∀ value, evaluate fragments decimals = .ok value →
    Word.assign current op value decimals = assign current op value decimals

/-- No step of evaluating and assigning leaves the words. -/
theorem withinWords (fragments : List String) (current : String) (op : Assignment)
    (decimals : Nat) : WithinWords fragments current op decimals where
  text := Word.parse_eq
  literal ts d hspelled hd := Word.capped_eq (hspelled.allHeld d hd) _
  operation ts a op b hspelled hcomes := by
    have hc := capOf_le decimals
    obtain ⟨ha, hb⟩ := hcomes.held hc hspelled.allHeld
    exact Word.binary_eq ha hb hc op
  assignment value h := Word.assign_eq (held_of_evaluate h) current op decimals

/-- Script arithmetic stays within words, and traps at one operation only: an
expression that comes to dividing the least word by minus one. -/
theorem arithmetic_traps_iff (fragments : List String) (current : String) (op : Assignment)
    (decimals : Nat) :
    WithinWords fragments current op decimals ∧
      ((do let value ← evaluate fragments decimals; assign current op value decimals) =
          .error .quotientOutOfRange ↔
        ∃ ts a op b, Spelled fragments ts ∧ Comes (capOf decimals) ts a op b ∧
          OutOfRange a op b (capOf decimals)) := by
  refine ⟨withinWords fragments current op decimals, ?_⟩
  simp only [← binary_trap_iff, ← evaluate_trap_iff]
  cases evaluate fragments decimals with
  | error e => exact ⟨fun h => by cases h; rfl, fun h => by cases h; rfl⟩
  | ok value =>
      refine ⟨fun h => ?_, nofun⟩
      exact absurd h (assign_ne_trap current op value decimals)

/-- A script that assigns the least word divided by a negated one ends there,
without an error that it could handle. -/
theorem assign_least_by_negated_one_traps :
    (do
      let value ←
        evaluate ["(", "-170141183460469231731687303715884105727", "-", "1", ")", "/", "-", "1"] 0
      assign "" .set value 0) = .error .quotientOutOfRange := by
  have hminus : tokens "-" = .ok [.operator .sub] := (Spells.operator rfl .nil).scan
  have hone : tokens "1" = .ok [.number ⟨1, 0⟩] := rfl
  have hdivisor : Spelled ["-", "1"] [.operator .sub, .number ⟨1, 0⟩] :=
    .cons (tokens_ok_iff.1 hminus) (.cons (tokens_ok_iff.1 hone) .nil)
  rw [evaluate_least_div hdivisor (.minus .literal) rfl]
  rfl

end Switchboard.Decimal
