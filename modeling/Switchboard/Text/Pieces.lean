import Switchboard.Text.Blank

/-!
# Switchboard.Text.Pieces

Dividing a text at separators.

1. `pieces p` cuts at every character of the class `p`: a text with `n` of
   them has `n + 1` pieces, empty ones included.
2. `words` are the pieces between blanks that are not empty.
3. `lines` end at a line feed, which a carriage return may precede; a text
   that ends in a line feed has no further, empty line after it.
4. `cut?` divides a text at the first separator only.
-/

namespace Switchboard.Text

/-! ## pieces -/

/-- The pieces of a list, such as a text, between the members of the class `p`. -/
def pieces {α : Type} (p : α → Bool) : List α → List (List α)
  | [] => [[]]
  | c :: cs =>
    if p c then [] :: pieces p cs
    else match pieces p cs with
      | [] => [[c]]
      | piece :: others => (c :: piece) :: others

/-- A text has one piece more than separators. -/
theorem length_pieces {α : Type} (p : α → Bool) (cs : List α) :
    (pieces p cs).length = cs.countP p + 1 := by
  induction cs with
  | nil => rfl
  | cons c cs ih =>
      by_cases h : p c = true
      · simp [pieces, h, ih]
      · rw [pieces, if_neg h]
        cases hp : pieces p cs with
        | nil => simp [hp] at ih
        | cons piece others => simpa [hp, h] using ih

/-- The words of a text: its longest runs of characters that are not blank. -/
def words (cs : List Char) : List (List Char) :=
  (pieces isBlank cs).filter fun w => !w.isEmpty

/-! ## lines -/

/-- A line without the carriage return at its end. -/
def dropReturn (cs : List Char) : List Char :=
  match cs.getLast? with
  | some '\r' => cs.dropLast
  | _ => cs

/-- The lines of a text. The last piece is a line only if it is not empty,
and keeps a carriage return, since no line feed ends it. -/
def lines (cs : List Char) : List (List Char) :=
  let parts := pieces (· == '\n') cs
  let last := parts.getLastD []
  parts.dropLast.map dropReturn ++ if last.isEmpty then [] else [last]

/-- The lines of a text, each with its number, counted from one. -/
def numberedLines (cs : List Char) : List (Nat × List Char) :=
  (lines cs).mapIdx fun i line => (i + 1, line)

/-! ## one separator -/

/-- The parts of a text before and after the first `sep`, if there is one. -/
def cut? (sep : Char) : List Char → Option (List Char × List Char)
  | [] => none
  | c :: cs => if c == sep then some ([], cs) else (cut? sep cs).map fun (a, b) => (c :: a, b)

/-- The parts of a cut, joined by the separator, are the text. -/
theorem eq_of_cut? {sep : Char} {cs a b : List Char} (h : cut? sep cs = some (a, b)) :
    cs = a ++ sep :: b := by
  induction cs generalizing a with
  | nil => simp [cut?] at h
  | cons c cs ih =>
      rw [cut?] at h
      split at h
      · next hc => simp_all
      · obtain ⟨⟨x, y⟩, hx, he⟩ := Option.map_eq_some_iff.1 h
        simp only [Prod.mk.injEq] at he
        obtain ⟨rfl, rfl⟩ := he
        rw [ih hx]
        rfl

/-- The text after the mark `c`, if it begins with that mark. -/
def after? (c : Char) : List Char → Option (List Char)
  | [] => none
  | d :: cs => if d == c then some cs else none

/-- The text joined from parts, with `sep` between neighbours. -/
def joined (sep : String) (parts : List String) : String :=
  sep.intercalate parts

end Switchboard.Text
