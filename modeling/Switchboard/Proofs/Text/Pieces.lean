import Mathlib.Data.List.TakeWhile
import Switchboard.Text.Pieces

/-!
# Switchboard.Proofs.Text.Pieces

What texts are divided into.

1. Pieces of a text with a separator are those before it and those after it
   (`pieces_append`), and they are what the text is split into (`pieces_eq_splitOn`).
   So words do not depend on the blanks between them (`words_append`), and lines that
   are joined by line feeds are found again (`pieces_intercalate`,
   `map_lines_intercalate`).  There is one way to divide a text (`Divides`).
2. A text is cut at its first separator (`cut?_append`).
3. To trim a text leaves its words, and the first of its characters that is not
   blank (`words_trim`, `trim_of_blanks`); a text without blanks stays as it is.
-/

namespace Switchboard.Text

/-! ## pieces -/

section
variable {α : Type} {p : α → Bool}

theorem pieces_ne_nil (cs : List α) : pieces p cs ≠ [] := by
  have hlen := length_pieces p cs
  intro hnil
  simp [hnil] at hlen

/-- A text without a separator is one piece. -/
theorem pieces_of_none {cs : List α} (h : ∀ c ∈ cs, p c = false) : pieces p cs = [cs] := by
  induction cs with
  | nil => rfl
  | cons c cs ih =>
      obtain ⟨hc, hcs⟩ := List.forall_mem_cons.mp h
      rw [pieces, if_neg (by simp [hc]), ih hcs]

/-- The pieces of a text with a separator lie on its two sides. -/
theorem pieces_append {c : α} (hc : p c = true) (a b : List α) :
    pieces p (a ++ c :: b) = pieces p a ++ pieces p b := by
  induction a with
  | nil => simp [pieces, hc]
  | cons x a ih =>
      rw [List.cons_append, pieces, ih]
      by_cases hx : p x = true
      · rw [if_pos hx, pieces, if_pos hx, List.cons_append]
      · rw [if_neg hx, pieces, if_neg hx]
        obtain ⟨piece, others, ha⟩ := List.exists_cons_of_ne_nil (pieces_ne_nil (p := p) a)
        simp [ha]

/-- Pieces that are joined by separators are found again. -/
theorem pieces_intercalate {c : α} (hc : p c = true) {parts : List (List α)} (hne : parts ≠ [])
    (h : ∀ part ∈ parts, ∀ x ∈ part, p x = false) :
    pieces p ([c].intercalate parts) = parts := by
  induction parts with
  | nil => exact absurd rfl hne
  | cons part parts ih =>
      obtain ⟨hpart, hparts⟩ := List.forall_mem_cons.mp h
      cases parts with
      | nil => simpa using pieces_of_none hpart
      | cons next rest =>
          rw [List.intercalate_cons_cons, List.append_assoc, List.singleton_append,
            pieces_append hc, pieces_of_none hpart, ih (by simp) hparts]
          rfl

/-- Every text is put together from pieces. -/
theorem exists_intercalate [DecidableEq α] (c : α) (cs : List α) :
    ∃ parts, parts ≠ [] ∧ (∀ part ∈ parts, c ∉ part) ∧ cs = [c].intercalate parts := by
  induction cs with
  | nil => exact ⟨[[]], by simp, by simp, by simp⟩
  | cons x cs ih =>
      obtain ⟨parts, hne, hparts, rfl⟩ := ih
      by_cases hx : x = c
      · refine ⟨[] :: parts, by simp, by simpa using hparts, ?_⟩
        rw [hx]
        simp [List.intercalate_cons_of_ne_nil hne]
      · obtain ⟨part, others, rfl⟩ := List.exists_cons_of_ne_nil hne
        refine ⟨(x :: part) :: others, by simp, ?_, ?_⟩
        · simpa [Ne.symm hx] using hparts
        · cases others with
          | nil => simp
          | cons next rest => simp [List.intercalate_cons_cons]

/-- To cut a text at one character is to split it there. -/
theorem pieces_eq_splitOn [DecidableEq α] (c : α) (cs : List α) :
    pieces (· == c) cs = cs.splitOn c := by
  obtain ⟨parts, hne, hparts, rfl⟩ := exists_intercalate c cs
  rw [List.splitOn_intercalate c hparts hne,
    pieces_intercalate (by simp) hne fun part hpart x hx => ?_]
  rw [beq_eq_false_iff_ne]
  rintro rfl
  exact hparts part hpart hx

/-- A text is divided at a character: the parts without it make up the text again, and the
empty text has none. -/
structure Divides (c : α) (cs : List α) (parts : List (List α)) : Prop where
  joined : [c].intercalate parts = cs
  apart : ∀ part ∈ parts, c ∉ part
  empty : parts = [] ↔ cs = []

/-- There is one way to divide a text. -/
theorem Divides.eq_splitOn [DecidableEq α] {c : α} {cs : List α} {parts : List (List α)}
    (h : Divides c cs parts) : parts = if cs = [] then [] else cs.splitOn c := by
  split
  · next hempty => exact h.empty.mpr hempty
  · next hne =>
      rw [← h.joined, List.splitOn_intercalate c h.apart (mt h.empty.mp hne)]

end

/-! ## words -/

section
variable {cs rest gap word : List Char}

/-- The words of a text with a blank lie on its two sides. -/
theorem words_append {c : Char} (hc : isBlank c = true) (a b : List Char) :
    words (a ++ c :: b) = words a ++ words b := by
  rw [words, pieces_append hc, List.filter_append]
  rfl

theorem words_of_blanks (h : ∀ c ∈ gap, isBlank c = true) : words gap = [] := by
  induction gap with
  | nil => rfl
  | cons c gap ih =>
      obtain ⟨hc, hgap⟩ := List.forall_mem_cons.mp h
      rw [← List.nil_append (c :: gap), words_append hc, ih hgap]
      rfl

theorem words_after_blanks (h : ∀ c ∈ gap, isBlank c = true) (cs : List Char) :
    words (gap ++ cs) = words cs := by
  induction gap with
  | nil => rfl
  | cons c gap ih =>
      obtain ⟨hc, hgap⟩ := List.forall_mem_cons.mp h
      rw [List.cons_append, ← List.nil_append (c :: (gap ++ cs)), words_append hc, ih hgap]
      rfl

theorem words_before_blanks (h : ∀ c ∈ gap, isBlank c = true) (cs : List Char) :
    words (cs ++ gap) = words cs := by
  cases gap with
  | nil => rw [List.append_nil]
  | cons c gap =>
      obtain ⟨hc, hgap⟩ := List.forall_mem_cons.mp h
      rw [words_append hc, words_of_blanks hgap, List.append_nil]

/-- A word ends at a blank, or with the text. -/
theorem words_cons (hne : word ≠ []) (hw : ∀ c ∈ word, isBlank c = false)
    (hr : ∀ c ∈ rest.head?, isBlank c = true) : words (word ++ rest) = word :: words rest := by
  have hword : words word = [word] := by
    rw [words, pieces_of_none hw]
    simp [hne]
  cases rest with
  | nil => rw [List.append_nil, hword]; rfl
  | cons c rest =>
      have hc : isBlank c = true := hr c rfl
      rw [words_append hc, hword, ← List.nil_append (c :: rest), words_append hc]
      rfl

/-! ## trimming -/

theorem trimStart_of_blanks (h : ∀ c ∈ gap, isBlank c = true) (cs : List Char) :
    trimStart (gap ++ cs) = trimStart cs := by
  rw [trimStart, List.dropWhile_append_of_pos h]
  rfl

theorem eq_append_trimEnd (cs : List Char) :
    ∃ gap, cs = trimEnd cs ++ gap ∧ ∀ c ∈ gap, isBlank c = true := by
  refine ⟨(cs.reverse.takeWhile isBlank).reverse, ?_, fun c hc => ?_⟩
  · rw [trimEnd, trimEndOf, ← List.reverse_append, List.takeWhile_append_dropWhile,
      List.reverse_reverse]
  · exact List.mem_takeWhile_imp (List.mem_reverse.mp hc)

theorem words_trim (cs : List Char) : words (trim cs) = words cs := by
  have hstart : words (trimStart cs) = words cs := by
    have hsplit : cs.takeWhile isBlank ++ trimStart cs = cs := List.takeWhile_append_dropWhile
    rw [← words_after_blanks (fun c hc => List.mem_takeWhile_imp hc) (trimStart cs), hsplit]
  obtain ⟨gap, hgap, hblank⟩ := eq_append_trimEnd (trimStart cs)
  rw [← hstart, trim, ← words_before_blanks hblank (trimEnd (trimStart cs)), ← hgap]

/-- Past the blanks at its beginning a text begins as it did. -/
theorem trim_of_blanks (h : ∀ c ∈ gap, isBlank c = true) {c : Char} (hc : isBlank c = false)
    (cs : List Char) : ∃ rest, trim (gap ++ c :: cs) = c :: rest := by
  have hstart : trimStart (gap ++ c :: cs) = c :: cs := by
    rw [trimStart_of_blanks h, trimStart, List.dropWhile_cons_of_neg (by simp [hc])]
  obtain ⟨tail, htail, hblank⟩ := eq_append_trimEnd (c :: cs)
  rw [trim, hstart]
  cases he : trimEnd (c :: cs) with
  | nil =>
      rw [he, List.nil_append] at htail
      simp [hblank c (htail ▸ List.mem_cons_self)] at hc
  | cons d rest =>
      rw [he, List.cons_append] at htail
      exact ⟨rest, by rw [(List.cons.inj htail).1]⟩

theorem trim_blanks (h : ∀ c ∈ gap, isBlank c = true) : trim gap = [] := by
  have hstart := trimStart_of_blanks h []
  rw [List.append_nil] at hstart
  rw [trim, hstart]
  rfl

theorem trim_concat {c : Char} (hc : isBlank c = true) (cs : List Char) :
    trim (cs ++ [c]) = trim cs := by
  have hend : ∀ ds, trimEnd (ds ++ [c]) = trimEnd ds := by
    intro ds
    simp [trimEnd, trimEndOf, hc]
  by_cases hall : ∀ d ∈ cs, isBlank d = true
  · rw [trim_blanks hall, trim_blanks (by simpa [or_imp, forall_and, hc] using hall)]
  · have hstart : trimStart (cs ++ [c]) = trimStart cs ++ [c] := by
      rw [trimStart, List.dropWhile_append, if_neg]
      · rfl
      · rwa [List.isEmpty_iff, List.dropWhile_eq_nil_iff]
    rw [trim, hstart, hend]
    rfl

/-- A text without blanks is left alone where blanks are cut off. -/
theorem trim_of_solid (h : ∀ c ∈ cs, isBlank c = false) : trim cs = cs := by
  have hkept : ∀ ds : List Char, (∀ c ∈ ds, isBlank c = false) → ds.dropWhile isBlank = ds := by
    intro ds hds
    cases ds with
    | nil => rfl
    | cons c ds => rw [List.dropWhile_cons, hds c List.mem_cons_self, if_neg Bool.false_ne_true]
  rw [trim, trimStart, hkept _ h, trimEnd, trimEndOf,
    hkept _ fun c hc => h c (List.mem_reverse.mp hc), List.reverse_reverse]

/-- A carriage return before a line feed is a blank like others. -/
theorem trim_dropReturn (cs : List Char) : trim (dropReturn cs) = trim cs := by
  unfold dropReturn
  split
  · next h =>
      obtain ⟨ds, rfl⟩ := List.getLast?_eq_some_iff.mp h
      rw [List.dropLast_concat, trim_concat (by decide)]
  · rfl

end

/-! ## lines -/

/-- The lines that a text was put together from are its lines, but for carriage returns at
their ends.  An empty line at the end is none. -/
theorem map_lines_intercalate {α : Type} {f : List Char → α} (hf : ∀ cs, f (dropReturn cs) = f cs)
    {ls : List (List Char)} (hne : ls ≠ []) (h : ∀ line ∈ ls, '\n' ∉ line) :
    (lines (['\n'].intercalate ls)).map f = ls.map f ∨
      (lines (['\n'].intercalate ls)).map f ++ [f []] = ls.map f := by
  have hpieces : pieces (· == '\n') (['\n'].intercalate ls) = ls :=
    pieces_intercalate (by decide) hne fun line hl c hc => by
      rw [beq_eq_false_iff_ne]
      rintro rfl
      exact h line hl hc
  obtain ⟨front, last, rfl⟩ : ∃ front last, ls = front ++ [last] :=
    ⟨_, _, (List.dropLast_concat_getLast hne).symm⟩
  cases last with
  | nil => exact .inr (by simp [lines, hpieces, hf])
  | cons c cs => exact .inl (by simp [lines, hpieces, hf])

/-! ## one separator -/

section
variable {sep : Char}

theorem cut?_eq_none {cs : List Char} (h : sep ∉ cs) : cut? sep cs = none := by
  induction cs with
  | nil => rfl
  | cons c cs ih =>
      obtain ⟨hc, hcs⟩ := not_or.mp (List.mem_cons.not.mp h)
      rw [cut?, if_neg (by simpa using Ne.symm hc), ih hcs]
      rfl

/-- A text is cut at its first separator. -/
theorem cut?_append {a : List Char} (h : sep ∉ a) (b : List Char) :
    cut? sep (a ++ sep :: b) = some (a, b) := by
  induction a with
  | nil => simp [cut?]
  | cons c a ih =>
      obtain ⟨hc, ha⟩ := not_or.mp (List.mem_cons.not.mp h)
      rw [List.cons_append, cut?, if_neg (by simpa using Ne.symm hc), ih ha]
      rfl

end

end Switchboard.Text
