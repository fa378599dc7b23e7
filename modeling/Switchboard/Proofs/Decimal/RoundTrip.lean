import Switchboard.Proofs.Decimal.Word
import Switchboard.Proofs.Number.Numeral

/-!
# Switchboard.Proofs.Decimal.RoundTrip

Decimals that are written and read again.

1. Digits are read as the number they denote if a word holds it, and refused
   otherwise (`unitsOf_eq`).
2. A text of a sign, digits, and digits after a point is read as that number of
   units (`parse_chars`), and the text of a decimal has this form, with as many
   digits after the point as the decimal has places (`toList_render`).
3. So a decimal within words is read again from its text, the least word
   excepted: its sign is read last, and without it no word holds the number.
-/

namespace Switchboard.Decimal

open Text

/-! ## digits -/

/-- Digits are read as far as a word holds the number. By induction on the digits, from
what has been read before: it only grows, so that what exceeds a word stays beyond it. -/
theorem foldlM_digits (digits : List Char) {n : Int} (hn : Written n) :
    digits.foldlM (fun n c => checked (n * 10 + digitValue c)) n =
      if n * 10 ^ digits.length + value digits ≤ greatest then
        .ok (n * 10 ^ digits.length + value digits)
      else .error .overflow := by
  induction digits generalizing n with
  | nil =>
      rw [written_iff] at hn
      simp [value, greatest, hn.2, pure, Except.pure]
  | cons c digits ih =>
      have hsplit : n * 10 ^ (c :: digits).length + value (c :: digits) =
          (n * 10 + digitValue c) * 10 ^ digits.length + value digits := by
        rw [value_cons, List.length_cons, pow_succ]
        push_cast
        ring
      have hgrows : n * 10 + digitValue c ≤
          (n * 10 + digitValue c) * 10 ^ digits.length + value digits := by
        have hfirst : 0 ≤ n * 10 + digitValue c := by
          have := hn.1
          omega
        have hweight : (1 : Int) ≤ 10 ^ digits.length := one_le_pow₀ (by decide)
        have := le_mul_of_one_le_right hfirst hweight
        omega
      rw [List.foldlM_cons, hsplit]
      by_cases hfits : n * 10 + digitValue c ≤ greatest
      · have hmore : Written (n * 10 + digitValue c) := ⟨by have := hn.1; omega, hfits⟩
        have hheld : InWord (n * 10 + digitValue c) :=
          ⟨by have := hn.1; simp only [least]; omega, hfits⟩
        rw [checked_eq hheld]
        exact ih hmore
      · have hlost : ¬InWord (n * 10 + digitValue c) := fun hheld => hfits hheld.2
        rw [checked_error hlost, if_neg fun hall => hfits (hgrows.trans hall)]
        rfl

/-- Digits are read as the number they denote, if a word holds it. -/
theorem unitsOf_eq (digits : List Char) :
    unitsOf digits =
      if (value digits : Int) ≤ greatest then .ok (value digits) else .error .overflow := by
  have hstart : Written 0 := by simp [written_iff]
  have hread := foldlM_digits digits hstart
  rwa [zero_mul, zero_add] at hread

/-! ## the text of a number -/

/-- The sign in front of a number. -/
def minus (negative : Bool) : List Char := if negative then ['-'] else []

/-- The digits of the places, with a point before them if there are any. -/
def pointed : List Char → List Char
  | [] => []
  | c :: cs => '.' :: c :: cs

section
variable {negative : Bool} {whole fraction : List Char}

theorem signed_minus (hw : whole ≠ []) (hdigits : ∀ c ∈ whole, isDigit c = true)
    (rest : List Char) :
    signed (minus negative ++ (whole ++ rest)) = (negative, whole ++ rest) := by
  cases negative with
  | true => rfl
  | false =>
      obtain ⟨c, cs, rfl⟩ := List.exists_cons_of_ne_nil hw
      obtain ⟨hminus, hplus⟩ := Numeral.not_sign_of_isDigit (hdigits c List.mem_cons_self)
      change signed (c :: (cs ++ rest)) = _
      unfold signed
      split
      · next heq => exact absurd (List.cons.inj heq).1 hminus
      · next heq => exact absurd (List.cons.inj heq).1 hplus
      · rfl

/-- There is no point among digits, so a number is cut at its own. -/
theorem places_pointed (hdigits : ∀ c ∈ whole, isDigit c = true) :
    places (whole ++ pointed fraction) = (whole, fraction) := by
  have hapart : '.' ∉ whole := fun h => absurd (hdigits '.' h) (by decide)
  cases fraction with
  | nil =>
      rw [pointed, List.append_nil, places, cut?_eq_none hapart]
      rfl
  | cons c cs =>
      rw [pointed, places, cut?_append hapart]
      rfl

theorem trim_number (hw : ∀ c ∈ whole, isDigit c = true) (hf : ∀ c ∈ fraction, isDigit c = true) :
    trim (minus negative ++ (whole ++ pointed fraction)) =
      minus negative ++ (whole ++ pointed fraction) := by
  have hminus : ∀ c ∈ minus negative, isBlank c = false := by
    cases negative
    · exact List.forall_mem_nil _
    · exact List.forall_mem_singleton.mpr (by decide)
  have hpointed : ∀ c ∈ pointed fraction, isBlank c = false := by
    cases fraction with
    | nil => exact List.forall_mem_nil _
    | cons c cs =>
        exact List.forall_mem_cons.mpr ⟨by decide, fun d hd => isBlank_of_isDigit (hf d hd)⟩
  refine trim_of_solid ?_
  simp only [List.forall_mem_append]
  exact ⟨hminus, fun c hc => isBlank_of_isDigit (hw c hc), hpointed⟩

/-- A number that is written with no more places than the most is read as its units, if a
word holds them. -/
theorem parse_chars (hne : whole ≠ []) (hw : ∀ c ∈ whole, isDigit c = true)
    (hf : ∀ c ∈ fraction, isDigit c = true) (hlen : fraction.length ≤ maxScale) {text : String}
    (ht : text.toList = minus negative ++ (whole ++ pointed fraction)) :
    parse text =
      if (value (whole ++ fraction) : Int) ≤ greatest then
        .ok ⟨if negative then -(value (whole ++ fraction) : Int) else value (whole ++ fraction),
          fraction.length⟩
      else .error .overflow := by
  have hsome : (minus negative ++ (whole ++ pointed fraction)).isEmpty = false := by
    simp [hne]
  have hwell : ((whole.isEmpty && fraction.isEmpty) || !whole.all isDigit ||
      !fraction.all isDigit) = false := by
    rw [List.all_eq_true.mpr hw, List.all_eq_true.mpr hf]
    simp [hne]
  unfold parse
  simp only [ht, trim_number hw hf, hsome, signed_minus hne hw, places_pointed hw, hwell,
    List.take_of_length_le hlen, unitsOf_eq, Bool.false_eq_true, if_false]
  split <;> rfl

end

/-! ## the text of a decimal -/

/-- The digits before the point. -/
def wholeDigits (d : Decimal) : List Char := Nat.toDigits 10 (d.units.natAbs / 10 ^ d.scale)

/-- The digits after the point. -/
def fractionDigits (d : Decimal) : List Char :=
  if d.scale = 0 then [] else (padded d.scale (d.units.natAbs % 10 ^ d.scale)).toList

theorem isDigit_toDigits (n : Nat) : ∀ c ∈ Nat.toDigits 10 n, isDigit c = true := fun _ hc =>
  Nat.isDigit_of_mem_toDigits (by decide) (by decide) hc

theorem value_toDigits (n : Nat) : value (Nat.toDigits 10 n) = n := Nat.ofDigitChars_ten_toDigits

theorem value_append (a b : List Char) : value (a ++ b) = value a * 10 ^ b.length + value b := by
  rw [value, List.foldl_append, foldl_digits]
  rfl

theorem toList_padded (width n : Nat) :
    (padded width n).toList =
      List.replicate (width - (Nat.toDigits 10 n).length) '0' ++ Nat.toDigits 10 n := by
  rw [padded, Nat.toString_eq_repr, ← Nat.toList_repr, String.toList_append, String.toList_ofList,
    String.length_toList]

/-- A number that fits a width is written in it, with the same value. -/
theorem padded_spec {width n : Nat} (hw : width ≠ 0) (hn : n < 10 ^ width) :
    (padded width n).toList.length = width ∧ value (padded width n).toList = n ∧
      ∀ c ∈ (padded width n).toList, isDigit c = true := by
  have hshort : (Nat.toDigits 10 n).length ≤ width :=
    (Nat.length_toDigits_le_iff (by decide) (Nat.pos_of_ne_zero hw)).mpr hn
  rw [toList_padded]
  refine ⟨?_, ?_, List.forall_mem_append.mpr ⟨fun c hc => ?_, isDigit_toDigits n⟩⟩
  · rw [List.length_append, List.length_replicate]
    omega
  · have hnoughts : ∀ k, value (List.replicate k '0') = 0 := fun _ =>
      Nat.ofDigitChars_replicate_zero.trans (mul_zero _)
    rw [value_append, hnoughts, value_toDigits, zero_mul, zero_add]
  · rw [List.eq_of_mem_replicate hc]
    rfl

variable (d : Decimal)

theorem wholeDigits_spec : d.wholeDigits ≠ [] ∧ ∀ c ∈ d.wholeDigits, isDigit c = true :=
  ⟨Nat.toDigits_ne_nil, isDigit_toDigits _⟩

theorem fractionDigits_spec :
    d.fractionDigits.length = d.scale ∧ value d.fractionDigits = d.units.natAbs % 10 ^ d.scale ∧
      ∀ c ∈ d.fractionDigits, isDigit c = true := by
  unfold fractionDigits
  split
  · next hs =>
    rw [hs, pow_zero, Nat.mod_one]
    exact ⟨rfl, rfl, List.forall_mem_nil _⟩
  · next hs => exact padded_spec hs (Nat.mod_lt _ (by positivity))

/-- The digits of a decimal denote its units, but for the sign. -/
theorem value_digits : value (d.wholeDigits ++ d.fractionDigits) = d.units.natAbs := by
  obtain ⟨hlength, hfraction, -⟩ := d.fractionDigits_spec
  rw [value_append, hlength, hfraction, wholeDigits, value_toDigits]
  exact Nat.div_add_mod' _ _

theorem toList_toString (n : Int) :
    (toString n).toList = minus (decide (n < 0)) ++ Nat.toDigits 10 n.natAbs := by
  cases n with
  | ofNat n => exact Nat.toList_repr
  | negSucc n =>
      have hnegative : Int.negSucc n < 0 := Int.negSucc_lt_zero n
      have hwritten : toString (Int.negSucc n) = "-" ++ (n + 1).repr := rfl
      rw [hwritten, String.toList_append, Nat.toList_repr, decide_eq_true hnegative]
      rfl

/-- How a decimal is written. -/
theorem toList_render :
    d.render.toList =
      minus (decide (d.units < 0)) ++ (d.wholeDigits ++ pointed d.fractionDigits) := by
  obtain ⟨hlength, -, -⟩ := d.fractionDigits_spec
  unfold render
  split
  · next hs =>
    rw [hs] at hlength
    rw [List.eq_nil_of_length_eq_zero hlength, wholeDigits, hs, pow_zero, Nat.div_one, pointed,
      List.append_nil]
    exact toList_toString d.units
  · next hs =>
    obtain ⟨c, cs, hdigits⟩ := List.exists_cons_of_length_pos (hlength ▸ Nat.pos_of_ne_zero hs)
    have hfraction : d.fractionDigits = (padded d.scale (d.units.natAbs % 10 ^ d.scale)).toList :=
      if_neg hs
    have hsign : (if d.units < 0 then "-" else "").toList = minus (decide (d.units < 0)) := by
      by_cases hnegative : d.units < 0 <;> simp [minus, hnegative]
    simp only [String.toList_append, hsign, Nat.pow_eq, Nat.toString_eq_repr, Nat.toList_repr,
      ← hfraction, hdigits, pointed, wholeDigits, List.append_assoc]
    rfl

/-! ## reading what is written -/

/-- A decimal is read from its text if a word holds its units without their sign. -/
theorem parse_render_eq (hs : d.scale ≤ maxScale) :
    parse d.render =
      if (d.units.natAbs : Int) ≤ greatest then .ok d else .error .overflow := by
  obtain ⟨hsome, hwhole⟩ := d.wholeDigits_spec
  obtain ⟨hlength, -, hfraction⟩ := d.fractionDigits_spec
  have hunits : (if decide (d.units < 0) = true then -(d.units.natAbs : Int) else d.units.natAbs) =
      d.units := by
    simp only [decide_eq_true_eq]
    split <;> omega
  rw [parse_chars hsome hwhole hfraction (hlength ▸ hs) d.toList_render, value_digits, hunits,
    hlength]

/-- A decimal whose units are a word but not the least one is read again from its text, and
so is every number that is read from any text. Of the least word the text is refused. -/
theorem parse_render_round_trip :
    (∀ d : Decimal, d.scale ≤ 9 → least < d.units → d.units ≤ greatest →
      parse d.render = .ok d) ∧
    (∀ scale ≤ 9, parse (render ⟨least, scale⟩) = .error .overflow) ∧
    ∀ (text : String) (d : Decimal), parse text = .ok d → parse d.render = .ok d := by
  have hread : ∀ d : Decimal, d.scale ≤ 9 → least < d.units → d.units ≤ greatest →
      parse d.render = .ok d := by
    intro d hs hl hg
    rw [parse_render_eq d hs, if_pos]
    simp only [least, greatest] at *
    omega
  refine ⟨hread, fun scale hs => ?_, fun text d h => ?_⟩
  · have hbeyond : ¬(least.natAbs : Int) ≤ greatest := by decide
    rw [parse_render_eq ⟨least, scale⟩ hs, if_neg hbeyond]
  · obtain ⟨⟨hunits, hscale⟩, habove⟩ := held_of_parse h
    exact hread d hscale (lt_of_le_of_ne hunits.1 (Ne.symm habove)) hunits.2

/-- A number between minus one and nought keeps its sign and its noughts, the units next to
the least ones are read again, and a text with more places than are kept has a shorter text
of the same number. -/
theorem parse_render_round_trip_near_bounds :
    render ⟨-5, 2⟩ = "-0.05" ∧ parse "-0.05" = .ok ⟨-5, 2⟩ ∧
    parse (render ⟨least + 1, 9⟩) = .ok ⟨least + 1, 9⟩ ∧
    parse (render ⟨least, 0⟩) = .error .overflow ∧
    parse " -007.01234567899\t" = .ok ⟨-7012345678, 9⟩ ∧
    parse (render ⟨-7012345678, 9⟩) = .ok ⟨-7012345678, 9⟩ := by
  have hwritten : render ⟨-5, 2⟩ = "-0.05" := by decide
  have hlong : parse " -007.01234567899\t" = .ok ⟨-7012345678, 9⟩ := rfl
  obtain ⟨hread, hleast, hagain⟩ := parse_render_round_trip
  refine ⟨hwritten, hwritten ▸ hread ⟨-5, 2⟩ (by decide) (by decide) (by decide),
    hread ⟨_, 9⟩ (by decide) (by decide) (by decide), hleast 0 (by decide), hlong, hagain _ _ hlong⟩

end Switchboard.Decimal
