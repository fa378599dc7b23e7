import Mathlib.Algebra.Ring.Parity
import Switchboard.Script.Token

/-!
# Switchboard.Proofs.Script.Tokens

Statements as they are written, and their tokens.

1. A token is written between quotes if it is quoted, and bare otherwise. Every
   token can be written that holds no quote and, if it is bare, is a word
   (`Writable`).
2. Inside of quotes everything is taken up to the next quote (`scan_string`);
   outside, a word is taken up to the next blank (`scan_word`).
3. So tokens are found again wherever blanks stand between them, and a statement
   has no tokens exactly if one of its quotes has no partner.
-/

namespace Switchboard.Token

open Text

/-! ## writing -/

/-- Tokens that can be written: nothing in quotes can be a quote, and a bare token is a word
without blanks and quotes. -/
structure Writable (t : Token) : Prop where
  unquoted : '"' ∉ t.text.toList
  word : t.quoted = false → t.text.toList ≠ [] ∧ ∀ c ∈ t.text.toList, isBlank c = false

/-- A token as it is written. -/
def written (t : Token) : List Char :=
  if t.quoted then '"' :: (t.text.toList ++ ['"']) else t.text.toList

/-- A statement: each token with the blanks behind it. -/
def laidOut (parts : List (Token × List Char)) : List Char :=
  parts.flatMap fun part => part.1.written ++ part.2

/-! ## scanning what is written -/

section
variable {text cs gap rest : List Char} {quoted : Bool}

/-- Blanks before a token do not matter. -/
theorem scan_blanks (h : ∀ c ∈ gap, isBlank c = true) (rest : List Char) :
    scan .between (gap ++ rest) = scan .between rest := by
  induction gap with
  | nil => rfl
  | cons c gap ih =>
      obtain ⟨hblank, hothers⟩ := List.forall_mem_cons.mp h
      rw [List.cons_append, scan, if_pos hblank, ih hothers]

/-- Quoted text ends at the next quote, whatever it holds. -/
theorem scan_string (h : '"' ∉ cs) (rest : List Char) :
    scan (.string text quoted) (cs ++ '"' :: rest) = scan (.inside (text ++ cs) quoted) rest := by
  induction cs generalizing text with
  | nil => rw [List.nil_append, List.append_nil, scan, if_pos rfl]
  | cons c cs ih =>
      obtain ⟨hother, hothers⟩ := not_or.mp (List.mem_cons.not.mp h)
      rw [List.cons_append, scan, if_neg (Ne.symm hother), ih hothers, List.append_assoc]
      rfl

/-- A word goes on up to a blank or a quote. -/
theorem scan_word (hblank : ∀ c ∈ cs, isBlank c = false) (h : '"' ∉ cs) (rest : List Char) :
    scan (.inside text quoted) (cs ++ rest) = scan (.inside (text ++ cs) quoted) rest := by
  induction cs generalizing text with
  | nil => rw [List.nil_append, List.append_nil]
  | cons c cs ih =>
      obtain ⟨hsolid, hsolids⟩ := List.forall_mem_cons.mp hblank
      obtain ⟨hother, hothers⟩ := not_or.mp (List.mem_cons.not.mp h)
      rw [List.cons_append, scan, if_neg (ne_true_of_eq_false hsolid), if_neg (Ne.symm hother),
        ih hsolids hothers, List.append_assoc]
      rfl

/-- A token ends at a blank, or with the statement. -/
theorem scan_end (h : ∀ c ∈ rest.head?, isBlank c = true) :
    scan (.inside text quoted) rest =
      (scan .between rest).map (⟨String.ofList text, quoted⟩ :: ·) := by
  cases rest with
  | nil => rfl
  | cons c rest =>
      have hblank := h c rfl
      rw [scan, if_pos hblank, scan, if_pos hblank]

/-- A token that is written is found, and the scan goes on behind it. -/
theorem scan_written {t : Token} (w : t.Writable) (h : ∀ c ∈ rest.head?, isBlank c = true) :
    scan .between (t.written ++ rest) = (scan .between rest).map (t :: ·) := by
  obtain ⟨text, quoted⟩ := t
  cases quoted with
  | true =>
      have hopens : scan .between (written ⟨text, true⟩ ++ rest) =
          scan (.string [] true) (text.toList ++ '"' :: rest) := by
        rw [written, if_pos rfl, List.cons_append, List.append_assoc, List.singleton_append, scan,
          if_neg (by decide), if_pos rfl]
      rw [hopens, scan_string w.unquoted, scan_end h, List.nil_append, String.ofList_toList]
  | false =>
      obtain ⟨hsome, hsolid⟩ := w.word rfl
      have hbare := w.unquoted
      have hwhole : scan .between (written ⟨text, false⟩ ++ rest) =
          scan (.inside text.toList false) rest := by
        rw [written, if_neg Bool.false_ne_true]
        change scan .between (text.toList ++ rest) = _
        cases hc : text.toList with
        | nil => exact absurd hc hsome
        | cons c cs =>
            simp only [hc] at hsolid hbare
            obtain ⟨hfirst, hothers⟩ := List.forall_mem_cons.mp hsolid
            obtain ⟨hquote, hquotes⟩ := not_or.mp (List.mem_cons.not.mp hbare)
            rw [List.cons_append, scan, if_neg (ne_true_of_eq_false hfirst),
              if_neg (Ne.symm hquote), scan_word hothers hquotes]
            rfl
      rw [hwhole, scan_end h, String.ofList_toList]

end

/-- By induction on the tokens: what follows a token begins with a blank, or is nothing. -/
theorem scan_laidOut {parts : List (Token × List Char)}
    (hw : ∀ part ∈ parts, part.1.Writable ∧ ∀ c ∈ part.2, isBlank c = true)
    (hgap : ∀ part ∈ parts.dropLast, part.2 ≠ []) :
    scan .between (laidOut parts) = some (parts.map Prod.fst) := by
  induction parts with
  | nil => rfl
  | cons part parts ih =>
      obtain ⟨t, gap⟩ := part
      obtain ⟨⟨hwritable, hblanks⟩, hothers⟩ := List.forall_mem_cons.mp hw
      have hlaid : laidOut ((t, gap) :: parts) = t.written ++ (gap ++ laidOut parts) := by
        rw [laidOut, List.flatMap_cons, List.append_assoc]
        rfl
      have hapart : ∀ c ∈ (gap ++ laidOut parts).head?, isBlank c = true := by
        cases gap with
        | cons c gap =>
            intro d hd
            exact Option.some.inj hd ▸ hblanks c List.mem_cons_self
        | nil =>
            cases parts with
            | nil => exact nofun
            | cons next parts => exact absurd rfl (hgap (t, []) List.mem_cons_self)
      have hlater : ∀ part ∈ parts.dropLast, part.2 ≠ [] := by
        cases parts with
        | nil => exact nofun
        | cons next parts => exact fun part hp => hgap part (List.mem_cons_of_mem _ hp)
      rw [hlaid, scan_written hwritable hapart, scan_blanks hblanks, ih hothers hlater]
      rfl

/-! ## quotes without a partner -/

/-- The quotes that are open where a scan stands. -/
def Place.openQuotes : Place → Nat
  | .between | .inside .. => 0
  | .string .. => 1

/-- A scan fails if the quotes to come and the one that is open, if any, do not pair up.
One case for each place and each kind of character. -/
theorem scan_eq_none_iff (place : Place) (cs : List Char) :
    scan place cs = none ↔ Odd (place.openQuotes + cs.count '"') := by
  have hnotQuote : ∀ c, isBlank c = true → c ≠ '"' := by
    rintro c hblank rfl
    exact absurd hblank (by decide)
  fun_induction scan place cs with
  | case1 => simp [Place.openQuotes]
  | case2 text quoted => simp [Place.openQuotes]
  | case3 text quoted => simp [Place.openQuotes]
  | case4 c cs hblank ih => simpa [Place.openQuotes, hnotQuote c hblank] using ih
  | case5 cs _ ih => simpa [Place.openQuotes, Nat.add_comm] using ih
  | case6 c cs _ hother ih => simpa [Place.openQuotes, hother] using ih
  | case7 text quoted c cs hblank ih => simpa [Place.openQuotes, hnotQuote c hblank] using ih
  | case8 text quoted cs _ ih => simpa [Place.openQuotes, Nat.add_comm] using ih
  | case9 text quoted c cs _ hother ih => simpa [Place.openQuotes, hother] using ih
  | case10 text quoted cs ih =>
      -- the quote closes the one that is open
      have hpair : Place.openQuotes (.string text quoted) + ('"' :: cs).count '"' =
          cs.count '"' + 2 := by
        simp only [Place.openQuotes, List.count_cons_self]
        omega
      refine ih.trans ?_
      rw [hpair, Place.openQuotes, Nat.zero_add, Nat.odd_add (m := cs.count '"')]
      simp
  | case11 text quoted c cs hother ih => simpa [Place.openQuotes, hother] using ih

/-- Tokens are found as they were written, and a statement is refused exactly if the number of
its quotes is odd. -/
theorem tokenize_laidOut :
    (∀ (front : List Char) (parts : List (Token × List Char)),
      (∀ c ∈ front, isBlank c = true) →
      (∀ part ∈ parts, part.1.Writable ∧ ∀ c ∈ part.2, isBlank c = true) →
      (∀ part ∈ parts.dropLast, part.2 ≠ []) →
      tokenize (front ++ laidOut parts) = .ok (parts.map Prod.fst)) ∧
    ∀ line : List Char,
      (tokenize line = .error .unterminatedString ↔ Odd (line.count '"')) ∧
      ((∃ tokens, tokenize line = .ok tokens) ↔ ¬Odd (line.count '"')) := by
  refine ⟨fun front parts hfront hw hgap => ?_, fun line => ?_⟩
  · rw [tokenize, scan_blanks hfront, scan_laidOut hw hgap]
  · have hfails := scan_eq_none_iff .between line
    rw [Place.openQuotes, Nat.zero_add] at hfails
    rw [← hfails, tokenize]
    cases scan .between line <;> simp

/-- Empty and blank texts in quotes are tokens, next to each other or not, and blanks of every
kind stand between tokens. -/
theorem tokenize_laidOut_blank_texts :
    tokenize " set\tx  \"\" \" a\tb\" ".toList =
      .ok [⟨"set", false⟩, ⟨"x", false⟩, ⟨"", true⟩, ⟨" a\tb", true⟩] ∧
    tokenize "a\"b\" \"c".toList = .error .unterminatedString := by
  have hword : ∀ text : String, '"' ∉ text.toList → text.toList ≠ [] →
      (text.toList.all fun c => !isBlank c) = true → Writable ⟨text, false⟩ :=
    fun _ hbare hsome hsolid => ⟨hbare, fun _ => ⟨hsome, by simpa using hsolid⟩⟩
  have hquoted : ∀ text : String, '"' ∉ text.toList → Writable ⟨text, true⟩ :=
    fun _ hbare => ⟨hbare, nofun⟩
  have hwritten := tokenize_laidOut.1 [' ']
    [(⟨"set", false⟩, ['\t']), (⟨"x", false⟩, [' ', ' ']), (⟨"", true⟩, [' ']),
      (⟨" a\tb", true⟩, [' '])] (List.all_eq_true.1 rfl) ?_ (by decide)
  · exact ⟨hwritten, ((tokenize_laidOut.2 _).1).2 (by decide)⟩
  · simp only [List.forall_mem_cons]
    have hnone := List.forall_mem_nil (isBlank · = true)
    exact ⟨⟨hword _ (by decide) (by decide) rfl, rfl, hnone⟩,
      ⟨hword _ (by decide) (by decide) rfl, rfl, rfl, hnone⟩, ⟨hquoted _ (by decide), rfl, hnone⟩,
      ⟨hquoted _ (by decide), rfl, hnone⟩, List.forall_mem_nil _⟩

end Switchboard.Token
