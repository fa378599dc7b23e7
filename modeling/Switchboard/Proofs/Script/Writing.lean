import Switchboard.Proofs.Script.Section
import Switchboard.Proofs.Script.Tokens
import Switchboard.Proofs.Text.Pieces

/-!
# Switchboard.Proofs.Script.Writing

Statements and other lines as they stand in a source.

1. A token is written in parts, each bare or between quotes; it counts as quoted if
   it begins with a quote (`Token.WrittenAs`).  Every token can be written so, and
   most can in many ways.
2. A line writes tokens if it is made of them, with blanks between them and around
   them (`Token.Line`).  Those tokens, and no others, are found in it
   (`tokenize_eq_ok_iff`).
3. A line is blank, or its first character that is not blank says what it is:
   `Entry.ofLine_of_begins`.
4. The lines of a source are those it was put together from (`map_sourceLines`).
-/

namespace Switchboard

open Text

/-! ## tokens in parts -/

/-- Characters that go on with a token, and the text that they add to it: what stands
between quotes as it is, and outside of quotes no blank. -/
inductive Token.Parts : List Char → List Char → Prop
  | nil : Parts [] []
  | bare {c : Char} {cs text : List Char} : isBlank c = false → c ≠ '"' → Parts cs text →
      Parts (c :: cs) (c :: text)
  | quoted {inner cs text : List Char} : '"' ∉ inner → Parts cs text →
      Parts ('"' :: (inner ++ '"' :: cs)) (inner ++ text)

/-- A token as it may be written. -/
structure Token.WrittenAs (t : Token) (cs : List Char) : Prop where
  parts : Parts cs t.text.toList
  nonempty : cs ≠ []
  quoted : t.quoted = true ↔ cs.head? = some '"'

/-- A line that writes tokens, with blanks around each. -/
inductive Token.Line : List Char → List Token → Prop
  | nil {gap : List Char} : (∀ c ∈ gap, isBlank c = true) → Line gap []
  | cons {gap cs rest : List Char} {t : Token} {tokens : List Token} :
      (∀ c ∈ gap, isBlank c = true) → t.WrittenAs cs → (∀ c ∈ rest.head?, isBlank c = true) →
      Line rest tokens → Line (gap ++ cs ++ rest) (t :: tokens)

namespace Token

variable {cs text rest gap : List Char} {quoted : Bool} {tokens : List Token}

/-- A quote is no blank. -/
theorem ne_quote_of_blank {c : Char} (h : isBlank c = true) : c ≠ '"' := by
  rintro rfl
  exact absurd h (by decide)

/-! ### what is written is found -/

/-- Inside of a token its further parts are read up to a blank.  A quote that opens there
does not make the token a quoted one, since it has begun already. -/
theorem Parts.scan {more : List Char} (h : Parts cs more) (hq : quoted = true ∨ text ≠ [])
    (rest : List Char) :
    scan (.inside text quoted) (cs ++ rest) = scan (.inside (text ++ more) quoted) rest := by
  induction h generalizing text with
  | nil => rw [List.nil_append, List.append_nil]
  | @bare c cs more hblank hquote _ ih =>
      rw [List.cons_append, Token.scan, if_neg (ne_true_of_eq_false hblank), if_neg hquote,
        ih (.inr (by simp)), List.append_assoc]
      rfl
  | @quoted inner cs more hinner _ ih =>
      have hopen : (quoted || text.isEmpty) = quoted := by
        rcases hq with rfl | hne
        · rfl
        · simp [hne]
      have hmore : quoted = true ∨ text ++ inner ≠ [] := hq.imp_right fun hne => by simp [hne]
      rw [List.cons_append, List.append_assoc, List.cons_append, Token.scan, if_neg (by decide),
        if_pos rfl, hopen, scan_string hinner, ih hmore, List.append_assoc]

/-- A token is found where it is written, and the scan goes on behind it. -/
theorem WrittenAs.scan {t : Token} (h : t.WrittenAs cs) (hr : ∀ c ∈ rest.head?, isBlank c = true) :
    scan .between (cs ++ rest) = (scan .between rest).map (t :: ·) := by
  obtain ⟨hparts, hne, hquoted⟩ := h
  obtain ⟨text, quoted⟩ := t
  have hwhole :
      Token.scan .between (cs ++ rest) = Token.scan (.inside text.toList quoted) rest := by
    generalize text.toList = whole at hparts
    cases hparts with
    | nil => exact absurd rfl hne
    | @bare c cs more hblank hquote hmore =>
        obtain rfl : quoted = false := by simpa [hquote] using hquoted
        rw [List.cons_append, Token.scan, if_neg (ne_true_of_eq_false hblank), if_neg hquote,
          hmore.scan (.inr (by simp))]
        rfl
    | @quoted inner cs more hinner hmore =>
        obtain rfl : quoted = true := by simpa using hquoted
        rw [List.cons_append, List.append_assoc, List.cons_append, Token.scan, if_neg (by decide),
          if_pos rfl, scan_string hinner, List.nil_append, hmore.scan (.inl rfl)]
  rw [hwhole, scan_end hr, String.ofList_toList]

theorem Line.scan (h : Line cs tokens) : Token.scan .between cs = some tokens := by
  induction h with
  | @nil gap hgap =>
      have hblanks := scan_blanks hgap []
      rwa [List.append_nil] at hblanks
  | cons hgap ht hr _ ih => rw [List.append_assoc, scan_blanks hgap, ht.scan hr, ih]; rfl

/-! ### what is found is written -/

/-- Blanks may stand before a line. -/
theorem Line.blank (h : Line cs tokens) {c : Char} (hc : isBlank c = true) :
    Line (c :: cs) tokens := by
  cases h with
  | nil hgap => exact .nil (List.forall_mem_cons.mpr ⟨hc, hgap⟩)
  | @cons gap cs rest t tokens hgap ht hr hrest =>
      exact @Line.cons (c :: gap) cs rest t tokens (List.forall_mem_cons.mpr ⟨hc, hgap⟩) ht hr hrest

/-- What is found from some place on: all tokens are to come, or the rest of one is to be
read first. -/
def Place.Found (cs : List Char) (tokens : List Token) : Place → Prop
  | .between => Line cs tokens
  | .inside text quoted => (quoted = true ∨ text ≠ []) → ∃ part more rest others,
      cs = part ++ rest ∧ Parts part more ∧ (∀ c ∈ rest.head?, isBlank c = true) ∧
      Line rest others ∧ tokens = ⟨String.ofList (text ++ more), quoted⟩ :: others
  | .string text quoted => (quoted = true ∨ text ≠ []) → ∃ inner part more rest others,
      cs = inner ++ '"' :: (part ++ rest) ∧ '"' ∉ inner ∧ Parts part more ∧
      (∀ c ∈ rest.head?, isBlank c = true) ∧ Line rest others ∧
      tokens = ⟨String.ofList (text ++ (inner ++ more)), quoted⟩ :: others

/-- A scan finds only what is written there.  One case for each place and each kind of
character. -/
theorem found_of_scan {place : Place} (h : Token.scan place cs = some tokens) :
    place.Found cs tokens := by
  fun_induction Token.scan place cs generalizing tokens with
  | case1 =>
      obtain rfl := Option.some.inj h
      exact .nil (List.forall_mem_nil _)
  | case2 text quoted =>
      obtain rfl := Option.some.inj h
      exact fun _ => ⟨[], [], [], [], rfl, .nil, by simp, .nil (List.forall_mem_nil _), by simp⟩
  | case3 text quoted => contradiction
  | case4 c cs hblank ih => exact (ih h).blank hblank
  | case5 cs _ ih =>
      obtain ⟨inner, part, more, rest, others, rfl, hinner, hparts, hr, hline, rfl⟩ :=
        ih h (.inl rfl)
      have ht : (⟨String.ofList ([] ++ (inner ++ more)), true⟩ : Token).WrittenAs
          ('"' :: (inner ++ '"' :: part)) :=
        ⟨by simpa using Parts.quoted hinner hparts, by simp, by simp⟩
      change Line _ _
      simpa using Line.cons (List.forall_mem_nil _) ht hr hline
  | case6 c cs hblank hquote ih =>
      obtain ⟨part, more, rest, others, rfl, hparts, hr, hline, rfl⟩ := ih h (.inr (by simp))
      have ht : (⟨String.ofList ([c] ++ more), false⟩ : Token).WrittenAs (c :: part) :=
        ⟨by simpa using Parts.bare (by simpa using hblank) hquote hparts, by simp,
          by simpa using hquote⟩
      change Line _ _
      simpa using Line.cons (List.forall_mem_nil _) ht hr hline
  | case7 text quoted c cs hblank ih =>
      obtain ⟨others, hothers, rfl⟩ := Option.map_eq_some_iff.mp h
      exact fun _ => ⟨[], [], c :: cs, others, rfl, .nil,
        fun d hd => Option.some.inj hd ▸ hblank, (ih hothers).blank hblank, by simp⟩
  | case8 text quoted cs _ ih =>
      intro hq
      have hopen : (quoted || text.isEmpty) = quoted := by
        rcases hq with rfl | hne
        · rfl
        · simp [hne]
      rw [hopen] at ih h
      obtain ⟨inner, part, more, rest, others, rfl, hinner, hparts, hr, hline, rfl⟩ := ih h hq
      exact ⟨'"' :: (inner ++ '"' :: part), inner ++ more, rest, others, by simp,
        .quoted hinner hparts, hr, hline, rfl⟩
  | case9 text quoted c cs hblank hquote ih =>
      intro _
      obtain ⟨part, more, rest, others, rfl, hparts, hr, hline, rfl⟩ := ih h (.inr (by simp))
      exact ⟨c :: part, c :: more, rest, others, rfl, .bare (by simpa using hblank) hquote hparts,
        hr, hline, by simp⟩
  | case10 text quoted cs ih =>
      intro hq
      obtain ⟨part, more, rest, others, rfl, hparts, hr, hline, rfl⟩ := ih h hq
      exact ⟨[], part, more, rest, others, rfl, by simp, hparts, hr, hline, rfl⟩
  | case11 text quoted c cs hquote ih =>
      intro hq
      obtain ⟨inner, part, more, rest, others, rfl, hinner, hparts, hr, hline, rfl⟩ :=
        ih h (hq.imp_right fun _ => by simp)
      exact ⟨c :: inner, part, more, rest, others, rfl, by simp [hinner, Ne.symm hquote], hparts,
        hr, hline, by simp⟩

/-- The tokens of a line are those that it writes. -/
theorem tokenize_eq_ok_iff : tokenize cs = .ok tokens ↔ Line cs tokens := by
  rw [tokenize]
  constructor
  · intro h
    cases hscan : Token.scan .between cs with
    | none => simp [hscan] at h
    | some found =>
        obtain rfl : found = tokens := by simpa [hscan] using h
        exact found_of_scan hscan
  · intro h
    rw [h.scan]

/-! ### blanks around a line -/

/-- A blank at the end changes nothing. -/
theorem scan_concat (place : Place) {c : Char} (hc : isBlank c = true) (cs : List Char) :
    Token.scan place (cs ++ [c]) = Token.scan place cs := by
  fun_induction Token.scan place cs with
  | case1 => simp [Token.scan, hc]
  | case2 text quoted => simp [Token.scan, hc]
  | case3 text quoted => simp [Token.scan, ne_quote_of_blank hc]
  | case4 d cs hblank ih => rw [List.cons_append, Token.scan, if_pos hblank, ih]
  | case5 cs hblank ih => rw [List.cons_append, Token.scan, if_neg hblank, if_pos rfl, ih]
  | case6 d cs hblank hquote ih =>
      rw [List.cons_append, Token.scan, if_neg hblank, if_neg hquote, ih]
  | case7 text quoted d cs hblank ih => rw [List.cons_append, Token.scan, if_pos hblank, ih]
  | case8 text quoted cs hblank ih =>
      rw [List.cons_append, Token.scan, if_neg hblank, if_pos rfl, ih]
  | case9 text quoted d cs hblank hquote ih =>
      rw [List.cons_append, Token.scan, if_neg hblank, if_neg hquote, ih]
  | case10 text quoted cs ih => rw [List.cons_append, Token.scan, if_pos rfl, ih]
  | case11 text quoted d cs hquote ih => rw [List.cons_append, Token.scan, if_neg hquote, ih]

theorem scan_append_blanks (place : Place) (h : ∀ c ∈ gap, isBlank c = true) (cs : List Char) :
    Token.scan place (cs ++ gap) = Token.scan place cs := by
  induction gap generalizing cs with
  | nil => rw [List.append_nil]
  | cons c gap ih =>
      obtain ⟨hc, hgap⟩ := List.forall_mem_cons.mp h
      rw [List.append_cons, ih hgap, scan_concat place hc]

/-- The blanks around a line do not matter for its tokens. -/
theorem tokenize_trim (cs : List Char) : tokenize (trim cs) = tokenize cs := by
  obtain ⟨front, hfront, hblank⟩ : ∃ front, cs = front ++ trimStart cs ∧
      ∀ c ∈ front, isBlank c = true :=
    ⟨cs.takeWhile isBlank, List.takeWhile_append_dropWhile.symm,
      fun c hc => List.mem_takeWhile_imp hc⟩
  obtain ⟨back, hback, hblank'⟩ := eq_append_trimEnd (trimStart cs)
  rw [tokenize, tokenize]
  conv_rhs => rw [hfront, scan_blanks hblank, hback, scan_append_blanks _ hblank']
  rfl

end Token

/-! ## the lines of a source -/

/-- Past its blanks a line begins with a character. -/
def Text.Begins (raw : List Char) (c : Char) : Prop :=
  ∃ gap rest, raw = gap ++ c :: rest ∧ (∀ d ∈ gap, isBlank d = true) ∧ isBlank c = false

namespace Compiler

/-- The characters that mark lines other than statements. -/
def lineMarks : List Char := ['#', '@', '^']

theorem Entry.ofLine_of_blank {raw : List Char} (h : ∀ c ∈ raw, isBlank c = true) :
    Entry.ofLine raw = .skipped := by
  rw [Entry.ofLine, trim_blanks h]

/-- The first character that is not blank says what a line is. -/
theorem Entry.ofLine_of_begins {raw : List Char} {c : Char} (h : Begins raw c) :
    (c = '#' → Entry.ofLine raw = .skipped) ∧
      (c = '@' → ∃ mark, Entry.ofLine raw = .header mark) ∧
      (c = '^' → ∃ mark, Entry.ofLine raw = .event mark) ∧
      (c ∉ lineMarks → Entry.ofLine raw = .statement (trim raw)) := by
  obtain ⟨gap, cs, rfl, hgap, hc⟩ := h
  obtain ⟨rest, hrest⟩ := trim_of_blanks hgap hc cs
  simp only [Entry.ofLine, hrest]
  refine ⟨?_, ?_, ?_, fun hmarks => ?_⟩
  · rintro rfl
    rfl
  · rintro rfl
    exact ⟨rest, rfl⟩
  · rintro rfl
    exact ⟨rest, rfl⟩
  · have hne : c ≠ '#' ∧ c ≠ '@' ∧ c ≠ '^' := by simpa [lineMarks] using hmarks
    split
    · contradiction
    · next heq => exact absurd (List.cons.inj heq).1 hne.1
    · next heq => exact absurd (List.cons.inj heq).1 hne.2.1
    · next heq => exact absurd (List.cons.inj heq).1 hne.2.2
    · rfl

theorem Entry.ofLine_dropReturn (raw : List Char) :
    Entry.ofLine (dropReturn raw) = Entry.ofLine raw := by
  rw [Entry.ofLine, Entry.ofLine, trim_dropReturn]

/-- A line is blank or begins somewhere. -/
theorem blank_or_begins (raw : List Char) :
    (∀ c ∈ raw, isBlank c = true) ∨ ∃ c, Begins raw c := by
  induction raw with
  | nil => exact .inl (List.forall_mem_nil _)
  | cons c raw ih =>
      cases hc : isBlank c with
      | false => exact .inr ⟨c, [], raw, rfl, List.forall_mem_nil _, hc⟩
      | true =>
          refine ih.imp (fun h => List.forall_mem_cons.mpr ⟨hc, h⟩) ?_
          rintro ⟨d, gap, rest, rfl, hgap, hd⟩
          exact ⟨d, c :: gap, rest, rfl, List.forall_mem_cons.mpr ⟨hc, hgap⟩, hd⟩

/-- What the lines of a source are does not depend on the line feeds: the source may have
been put together from lines, of which an empty one at the end is none. -/
theorem map_sourceLines {lines : List (List Char)} (hne : lines ≠ [])
    (h : ∀ line ∈ lines, '\n' ∉ line) :
    let entries := (sourceLines (String.ofList (['\n'].intercalate lines))).map
      (Entry.ofLine ·.2)
    entries = lines.map Entry.ofLine ∨ entries ++ [.skipped] = lines.map Entry.ofLine := by
  intro entries
  have hentries : entries =
      (Text.lines (['\n'].intercalate lines)).map Entry.ofLine := by
    refine List.ext_getElem ?_ fun i _ _ => ?_
    · simp [entries, sourceLines]
    · simp [entries, sourceLines]
  rw [hentries]
  exact map_lines_intercalate Entry.ofLine_dropReturn hne h

end Compiler

end Switchboard
