import Switchboard.Text.Hexadecimal
import Switchboard.Text.Pattern.Flags

/-!
# Switchboard.Text.Pattern.Escape

What a backslash begins in a search pattern.

1. A mark of ASCII after it stands for itself.
2. `x`, `u` and `U` take two, four and eight hexadecimal digits, and a few
   letters stand for control characters.
3. `A` and `z` are the ends of the text; `b`, `B`, `<` and `>` are borders of
   words. `d`, `s` and `w` are digits, blanks and the characters of words.
4. Which characters make up words, digits and blanks is known for ASCII only,
   so borders and these three are refused where characters are matched. All
   other characters (`D`, `S`, `W`) and classes by property (`p`, `P`) are
   refused everywhere.
-/

namespace Switchboard.Text.Pattern

/-- What was written with a backslash. -/
inductive Escape where
  /-- A character that stands for itself; `byte` tells that it was written as
  the number of a byte. -/
  | character (c : Char) (byte : Bool)
  /-- Digits, blanks or the characters of words. -/
  | kind
  /-- A place in the text. -/
  | place
deriving Repr, DecidableEq

namespace Escape

/-- The control character that a letter stands for. -/
def control? : Char → Option Char
  | 'a' => some '\x07'
  | 'f' => some '\x0c'
  | 't' => some '\t'
  | 'n' => some '\n'
  | 'r' => some '\r'
  | 'v' => some '\x0b'
  | _ => none

/-- Marks that stand for themselves after a backslash. -/
def isMark (c : Char) : Bool := c.toNat < 0x80 && !c.isAlphanum && c != '<' && c != '>'

/-- The next `count` characters, without what the flags leave out between
them, and the text after them. -/
def take? (flags : Flags) : Nat → List Char → Option (List Char × List Char)
  | 0, cs => some ([], cs)
  | count + 1, cs =>
    match flags.skip cs with
    | [] => none
    | c :: rest => (take? flags count rest).map fun (taken, rest) => (c :: taken, rest)

/-- A character with a number of `count` hexadecimal digits. -/
def numbered? (flags : Flags) (byte : Bool) (count : Nat) (cs : List Char) :
    Option (Escape × List Char) := do
  let (digits, rest) ← take? flags count cs
  let c ← scalar? digits
  return (character c byte, rest)

/-- Read what follows a backslash. -/
def read? (flags : Flags) : List Char → Option (Escape × List Char)
  | [] => none
  | 'x' :: rest => numbered? flags true 2 rest
  | 'u' :: rest => numbered? flags false 4 rest
  | 'U' :: rest => numbered? flags false 8 rest
  | c :: rest =>
    if isMark c then some (character c false, rest)
    else if c == 'A' || c == 'z' then some (place, rest)
    else if ['b', 'B', '<', '>'].contains c then
      if flags.unicode then none else some (place, rest)
    else if ['d', 's', 'w'].contains c then
      if flags.unicode then none else some (kind, rest)
    else (control? c).map fun control => (character control false, rest)

end Escape

end Switchboard.Text.Pattern
