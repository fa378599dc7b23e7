import Mathlib.Data.List.Forall2
import Switchboard.Proofs.Script.Chain
import Switchboard.Proofs.Text.Numeral
import Switchboard.Proofs.Text.Pieces
import Switchboard.Script.Statement

/-!
# Switchboard.Proofs.Script.Argument

What the tokens of a statement spell, behind its first word.

```
argument ::= '%' name | '@' name | '^' name | name '=' argument | text
```

1. A token spells an argument by the mark that it begins with, by a name in front of a
   `=`, or as it stands (`Argument.Spelled`).
2. Targets, sizes, delimiters, the signs of assignments and the names of headers are
   spelled in ways of their own.
3. What is read of tokens is what they spell, and nothing else.
-/

namespace Switchboard

open Text

/-! ## arguments -/

namespace Argument

/-- The marks that a word may begin with. -/
def marks : List Char := ['%', '@', '^']

/-- The argument that a word spells. -/
inductive Word : List Char → Argument → Prop
  | symbol (name : List Char) : Word ('%' :: name) (.symbol (String.ofList name))
  | label (name : List Char) : Word ('@' :: name) (.label (String.ofList name))
  | event (name : List Char) : Word ('^' :: name) (.event (String.ofList name))
  | keyword {name value : List Char} {arg : Argument} : isName name = true → Word value arg →
      Word (name ++ '=' :: value) (.keyword (String.ofList name) arg)
  | literal {cs : List Char} : (∀ c ∈ cs.head?, c ∉ marks) →
      (∀ name value, cs = name ++ '=' :: value → isName name = false) →
      Word cs (.literal (String.ofList cs))

/-- The argument that a token spells.  Quoted text has no marks. -/
inductive Spelled : Token → Argument → Prop
  | quoted (text : String) : Spelled ⟨text, true⟩ (.literal text)
  | word {text : String} {arg : Argument} : Word text.toList arg → Spelled (.bare text) arg

/-- A name has no `=` in it, and begins with no mark. -/
theorem of_isName {name : List Char} (h : isName name = true) :
    '=' ∉ name ∧ ∀ rest, ∀ c ∈ (name ++ rest).head?, c ∉ marks := by
  cases name with
  | nil => contradiction
  | cons c name =>
      obtain ⟨hc, hname⟩ := Bool.and_eq_true_iff.mp h
      have hrest : '=' ∉ name := fun hmem =>
        absurd (List.all_eq_true.mp hname _ hmem) (by decide)
      refine ⟨fun hmem => ?_, fun rest d hd => ?_⟩
      · rcases List.mem_cons.mp hmem with rfl | hmem
        · exact absurd hc (by decide)
        · exact hrest hmem
      · obtain rfl : c = d := by simpa using hd
        intro hmark
        have hmarks : ∀ d ∈ marks, isNameStart d = false := by simp [marks, isNameStart]
        exact absurd hc (ne_true_of_eq_false (hmarks c hmark))

/-- A word without a mark may be cut at its first `=`. -/
theorem ofWord_plain {cs : List Char} (h : ∀ c ∈ cs.head?, c ∉ marks) :
    ofWord cs = (match cut? '=' cs with
      | some (name, value) =>
        if isName name then .keyword (String.ofList name) (ofWord value)
        else .literal (String.ofList cs)
      | none => .literal (String.ofList cs)) := by
  rw [ofWord.eq_def]
  split
  · exact absurd (h '%' rfl) (by decide)
  · exact absurd (h '@' rfl) (by decide)
  · exact absurd (h '^' rfl) (by decide)
  · split <;> simp_all

/-- A word is read as the argument that it spells. -/
theorem Word.ofWord {cs : List Char} {arg : Argument} (h : Word cs arg) : ofWord cs = arg := by
  induction h with
  | symbol name => rw [Argument.ofWord.eq_def]; rfl
  | label name => rw [Argument.ofWord.eq_def]; rfl
  | event name => rw [Argument.ofWord.eq_def]; rfl
  | keyword hname _ ih =>
      obtain ⟨hfirst, hmark⟩ := of_isName hname
      rw [ofWord_plain (hmark _), cut?_append hfirst]
      simp [hname, ih]
  | @literal cs hmark hplain =>
      rw [ofWord_plain hmark]
      cases hcut : cut? '=' cs with
      | none => rfl
      | some cut => simp [hplain _ _ (eq_of_cut? hcut)]

/-- Every word spells the argument as which it is read. -/
theorem word_ofWord (cs : List Char) : Word cs (ofWord cs) := by
  -- a name in front of the first `=` would have been found there
  have hplain {cs : List Char} {cut : Option (List Char × List Char)} (hcut : cut? '=' cs = cut)
      (hno : ∀ name value, cut = some (name, value) → isName name = false) :
      ∀ name value, cs = name ++ '=' :: value → isName name = false := by
    rintro name value rfl
    by_contra hname
    have hname : isName name = true := by simpa using hname
    rw [cut?_append (of_isName hname).1] at hcut
    exact ne_true_of_eq_false (hno name value hcut.symm) hname
  have hmarks {cs : List Char} (hsymbol : ∀ name, cs = '%' :: name → False)
      (hlabel : ∀ name, cs = '@' :: name → False) (hevent : ∀ name, cs = '^' :: name → False) :
      ∀ c ∈ cs.head?, c ∉ marks := by
    intro c hc hmark
    obtain ⟨rest, rfl⟩ := List.head?_eq_some_iff.mp hc
    simp only [marks, List.mem_cons, List.not_mem_nil, or_false] at hmark
    rcases hmark with rfl | rfl | rfl
    · exact hsymbol rest rfl
    · exact hlabel rest rfl
    · exact hevent rest rfl
  fun_induction ofWord cs with
  | case1 name => exact .symbol name
  | case2 name => exact .label name
  | case3 name => exact .event name
  | case4 cs hsymbol hlabel hevent name value hcut hname ih =>
      rw [eq_of_cut? hcut]
      exact .keyword hname ih
  | case5 cs hsymbol hlabel hevent name value hcut hname =>
      refine .literal (hmarks hsymbol hlabel hevent) (hplain hcut ?_)
      rintro _ _ ⟨rfl, rfl⟩
      simpa using hname
  | case6 cs hsymbol hlabel hevent hcut =>
      exact .literal (hmarks hsymbol hlabel hevent) (hplain hcut nofun)

/-- A token stands for the argument that it spells, and for no other one. -/
theorem spelled_iff {t : Token} {arg : Argument} : Spelled t arg ↔ t.argument = arg := by
  obtain ⟨text, quoted⟩ := t
  constructor
  · rintro (_ | hword)
    · rfl
    · exact hword.ofWord
  · rintro rfl
    cases quoted with
    | true => exact .quoted text
    | false => exact .word (word_ofWord text.toList)

/-- Tokens spell exactly the arguments that are read from them. -/
theorem spelled_arguments_iff {ts : List Token} {args : List Argument} :
    List.Forall₂ Spelled ts args ↔ Statement.arguments ts = args := by
  rw [Statement.arguments]
  constructor
  · intro h
    induction h with
    | nil => rfl
    | cons ht _ ih => rw [List.map_cons, spelled_iff.mp ht, ih]
  · rintro rfl
    induction ts with
    | nil => exact .nil
    | cons t ts ih => exact .cons (spelled_iff.mpr rfl) ih

end Argument

/-! ## targets, sizes and other parts -/

/-- A token names a symbol, perhaps with marks in front of the name. -/
def Token.Names (t : Token) (name : String) : Prop :=
  ∃ k, t.text.toList = List.replicate k '%' ++ name.toList ∧ ∀ c ∈ name.toList.head?, c ≠ '%'

/-- A token names the symbol that a statement writes to.  It may not be quoted. -/
structure Token.Target (t : Token) (name : String) : Prop where
  bare : t.quoted = false
  names : t.Names name

/-- A token names exactly the symbol that is read from it. -/
theorem Token.names_iff {t : Token} {name : String} : t.Names name ↔ t.symbolName = name := by
  rw [Token.symbolName]
  constructor
  · rintro ⟨k, htext, hname⟩
    have hdrop : name.toList.dropWhile (· == '%') = name.toList := by
      cases hn : name.toList with
      | nil => rfl
      | cons c cs => rw [List.dropWhile_cons_of_neg (by simpa using hname c (by rw [hn]; rfl))]
    rw [htext, List.dropWhile_append_of_pos (by simp), hdrop, String.ofList_toList]
  · rintro rfl
    refine ⟨(t.text.toList.takeWhile (· == '%')).length, ?_, fun c hc => ?_⟩
    · rw [String.toList_ofList, ← List.eq_replicate_iff.mpr ⟨rfl, fun c hc => ?_⟩,
        List.takeWhile_append_dropWhile]
      simpa using List.mem_takeWhile_imp hc
    · rw [String.toList_ofList] at hc
      have hhead := List.head?_dropWhile_not (· == '%') t.text.toList
      rw [hc] at hhead
      simpa using hhead

/-- So do tokens that follow each other. -/
theorem Token.names_all_iff {ts : List Token} {names : List String} :
    List.Forall₂ Token.Names ts names ↔ ts.map Token.symbolName = names := by
  constructor
  · intro h
    induction h with
    | nil => rfl
    | cons ht _ ih => rw [List.map_cons, Token.names_iff.mp ht, ih]
  · rintro rfl
    induction ts with
    | nil => exact .nil
    | cons t ts ih => exact .cons (Token.names_iff.mpr rfl) ih

/-- The sizes and the values among arguments: the last size counts. -/
inductive Argument.Sized : List Argument → Option Nat → List Argument → Prop
  | nil : Sized [] none []
  | value {arg : Argument} {args values : List Argument} {size : Option Nat} :
      (∀ value, arg ≠ .keyword "size" value) → Sized args size values →
      Sized (arg :: args) size (arg :: values)
  | size {text : String} {n : Nat} {args values : List Argument} {later : Option Nat} :
      Denotes (wordBound 64) text.toList n → Sized args later values →
      Sized (.keyword "size" (.literal text) :: args) (later.or (some n)) values

/-- The character between the pieces of a list: a comma unless a token gives one. -/
inductive Token.Separates : List Token → Char → Prop
  | comma : Separates [] ','
  | given {t : Token} {c : Char} (extra : List Token) : t.text.toList = [c] →
      Separates (t :: extra) c

/-- An assignment is written by its own sign, and a plain one also by `:=`. -/
def Decimal.Assignment.Sign (op : Decimal.Assignment) (sign : String) : Prop :=
  sign = op.text ∨ op = .set ∧ sign = ":="

/-- The name of a header, with or without its mark. -/
def Token.Calls (t : Token) (name : String) : Prop :=
  t.text.toList = '@' :: name.toList ∨ t.text = name ∧ ∀ c ∈ name.toList.head?, c ≠ '@'

namespace Statement

/-- A target is read exactly where a first token gives it. -/
theorem target_eq_ok_iff {keyword name : String} {ts : List Token} :
    target keyword ts = .ok name ↔ ∃ t rest, ts = t :: rest ∧ t.Target name := by
  cases ts with
  | nil => simp [target]
  | cons t rest =>
      cases hq : t.quoted with
      | true => simpa [target, hq] using fun ht : t.Target name => by simpa [hq] using ht.bare
      | false =>
          simp only [target, hq]
          constructor
          · intro h
            exact ⟨t, rest, rfl, hq, Token.names_iff.mpr (by simpa using h)⟩
          · rintro ⟨t, rest, ⟨rfl, rfl⟩, ht⟩
            simpa using Token.names_iff.mp ht.names

/-- The last size that is given counts, and is no value. -/
theorem sized_eq_ok_iff {args values : List Argument} {size size' : Option Nat} :
    sized size args = .ok (size', values) ↔
      ∃ later, Argument.Sized args later values ∧ size' = later.or size := by
  induction args generalizing size values with
  | nil =>
      constructor
      · intro h
        obtain ⟨rfl, rfl⟩ : size = size' ∧ [] = values := by simpa [sized] using h
        exact ⟨none, .nil, rfl⟩
      · rintro ⟨later, ⟨⟩, rfl⟩
        rfl
  | cons arg args ih =>
      constructor
      · intro h
        unfold sized at h
        split at h
        · split at h
          · split at h
            · next n hn =>
                obtain ⟨later, hlater, rfl⟩ := ih.mp h
                refine ⟨later.or (some n), .size (readNat_eq_some_iff.mp hn) hlater, ?_⟩
                rw [Option.or_assoc, Option.some_or]
            · contradiction
          · contradiction
        · next hother =>
            cases hrest : sized size args with
            | error p => simp [hrest, Except.map] at h
            | ok pair =>
                obtain ⟨found, others⟩ := pair
                obtain ⟨rfl, rfl⟩ : found = size' ∧ arg :: others = values := by
                  simpa [hrest, Except.map] using h
                obtain ⟨later, hlater, rfl⟩ := ih.mp hrest
                exact ⟨later, .value hother hlater, rfl⟩
      · rintro ⟨later, hsized, rfl⟩
        cases hsized with
        | value hother hrest =>
            unfold sized
            split
            · exact absurd rfl (hother _)
            · rw [ih.mpr ⟨_, hrest, rfl⟩]
              rfl
        | @size text n _ _ later hn hrest =>
            simp only [sized, readNat_eq_some_iff.mpr hn]
            refine ih.mpr ⟨_, hrest, ?_⟩
            rw [Option.or_assoc, Option.some_or]

/-- Bindings are read exactly from tokens that are all written `name=value`. -/
theorem bindings_eq_ok_iff {ts : List Token} {bound : List (String × Argument)} :
    bindings ts = .ok bound ↔
      List.Forall₂ (fun t b => Argument.Spelled t (.keyword b.1 b.2)) ts bound := by
  induction ts generalizing bound with
  | nil => simp [bindings, eq_comm]
  | cons t ts ih =>
      rw [bindings]
      constructor
      · intro h
        split at h
        · next name value harg =>
            cases hrest : bindings ts with
            | error p => simp [hrest, Except.map] at h
            | ok others =>
                obtain rfl : (name, value) :: others = bound := by
                  simpa [hrest, Except.map] using h
                exact .cons (Argument.spelled_iff.mpr harg) (ih.mp hrest)
        · contradiction
      · intro h
        cases h with
        | cons ht hrest =>
            rw [Argument.spelled_iff.mp ht, ih.mpr hrest]
            rfl

/-- A delimiter is read exactly from a token of one character, or as the comma where there
is no token. -/
theorem delimiter_eq_ok_iff {ts : List Token} {c : Char} :
    delimiter ts.head? = .ok c ↔ Token.Separates ts c := by
  cases ts with
  | nil =>
      constructor
      · intro h
        obtain rfl := Except.ok.inj h
        exact .comma
      · rintro ⟨⟩
        rfl
  | cons t extra =>
      constructor
      · intro h
        simp only [List.head?_cons, delimiter] at h
        split at h
        · next d hd =>
            obtain rfl := Except.ok.inj h
            exact .given extra hd
        · contradiction
      · rintro (_ | ⟨_, hc⟩)
        simp [delimiter, hc]

/-- An assignment is read exactly from its sign. -/
theorem assignment_eq_some_iff {sign : String} {op : Decimal.Assignment} :
    Decimal.Assignment.ofText? sign = some op ↔ op.Sign sign := by
  constructor
  · intro h
    unfold Decimal.Assignment.ofText? at h
    split at h
    case h_2 =>
      obtain rfl := Option.some.inj h
      exact .inr ⟨rfl, rfl⟩
    case h_9 => contradiction
    all_goals
      obtain rfl := Option.some.inj h
      exact .inl rfl
  · rintro (rfl | ⟨rfl, rfl⟩)
    · cases op with
      | update op => cases op <;> rfl
      | _ => rfl
    · rfl

/-- A token calls exactly the header that it names without its marks. -/
theorem calls_iff {t : Token} {name : String} : t.Calls name ↔ Header.bare t.text = name := by
  have hbare : Header.bare t.text = name ↔
      (after? '@' t.text.toList).getD t.text.toList = name.toList := by
    rw [Header.bare, ← String.toList_inj, String.toList_ofList]
  rw [hbare, Token.Calls, ← String.toList_inj]
  generalize t.text.toList = cs
  generalize name.toList = n
  constructor
  · rintro (rfl | ⟨rfl, hmark⟩)
    · simp [after?]
    · cases cs with
      | nil => rfl
      | cons c cs => simp [after?, show c ≠ '@' from hmark c rfl]
  · rintro rfl
    cases cs with
    | nil => exact .inr ⟨rfl, by simp [after?]⟩
    | cons c cs =>
        by_cases hc : c = '@'
        · exact .inl (by simp [after?, hc])
        · refine .inr ⟨by simp [after?, hc], fun d hd => ?_⟩
          obtain rfl : c = d := by simpa [after?, hc] using hd
          exact hc

end Statement

end Switchboard
