/-!
# Switchboard.Text.Blank

Blank characters and the texts left when they are cut off.

1. A character is blank when it has the `White_Space` property of Unicode;
   the property covers twenty-five characters, six of them ASCII.
2. `trim` cuts blanks off both ends; `words` are the longest runs without one.

Texts are handled as lists of characters here and in the other `Text`
modules: every reader of this library walks such a list from the front.
-/

namespace Switchboard.Text

/-! ## the property -/

/-- Blank characters: those with the `White_Space` property. -/
def isBlank (c : Char) : Bool :=
  let n := c.toNat
  (9 ≤ n && n ≤ 13) || n == 0x20 || n == 0x85 || n == 0xa0 || n == 0x1680 ||
    (0x2000 ≤ n && n ≤ 0x200a) || n == 0x2028 || n == 0x2029 || n == 0x202f ||
    n == 0x205f || n == 0x3000

/-- Every character that core counts as whitespace is blank. -/
theorem isBlank_of_isWhitespace {c : Char} (h : c.isWhitespace = true) : isBlank c = true := by
  simp only [Char.isWhitespace, Bool.or_eq_true, decide_eq_true_eq] at h
  rcases h with ((rfl | rfl) | rfl) | rfl <;> decide

/-! ## cutting blanks -/

/-- The text from its first character that is not blank. -/
def trimStart (cs : List Char) : List Char := cs.dropWhile isBlank

/-- The text without the characters of the class `p` at its end. -/
def trimEndOf (p : Char → Bool) (cs : List Char) : List Char :=
  (cs.reverse.dropWhile p).reverse

/-- The text up to its last character that is not blank. -/
def trimEnd (cs : List Char) : List Char := trimEndOf isBlank cs

/-- The text without the blanks at both ends. -/
def trim (cs : List Char) : List Char := trimEnd (trimStart cs)

/-- A text with a blank anywhere in it. -/
def hasBlank (cs : List Char) : Bool := cs.any isBlank

end Switchboard.Text
