import Switchboard.Text.Blank

/-!
# Switchboard.Text.Pattern.Flags

The flags of a search pattern, and what they decide.

1. `i` disregards case, `u` matches characters and not bytes, `x` leaves out
   blanks and comments. `m`, `s`, `U` and `R` change what a pattern matches,
   but not whether it is one.
2. Case can be disregarded in ASCII only: a pattern that disregards it and
   matches characters must not name any.
3. A pattern of bytes must match whole characters all the same, so that no
   byte above 0x7f may stand in it by itself.
-/

namespace Switchboard.Text.Pattern

/-- The flags in force at one place of a pattern. -/
structure Flags where
  /-- Case is disregarded. -/
  ignoreCase : Bool := false
  /-- Characters are matched, and not bytes. -/
  unicode : Bool := true
  /-- Blanks and comments are left out. -/
  spaced : Bool := false
deriving Repr, DecidableEq

namespace Flags

/-- Letters of flags. -/
def isLetter (c : Char) : Bool := "imsUuRx".toList.contains c

/-- The flags after a letter among marks of a group, switched on or off. -/
def switch (flags : Flags) (on : Bool) : Char → Flags
  | 'i' => { flags with ignoreCase := on }
  | 'u' => { flags with unicode := on }
  | 'x' => { flags with spaced := on }
  | _ => flags

/-- Whether a character may stand for itself. `byte` tells that it was written
as the number of a byte. -/
def admits (flags : Flags) (byte : Bool) (c : Char) : Bool :=
  if flags.unicode then !flags.ignoreCase else !byte || c.toNat < 0x80

/-- Whether a character may be a member of a class. -/
def admitsMember (flags : Flags) (c : Char) : Bool := flags.admits true c

/-- Whether a class may hold the characters that it does not name. -/
def admitsOthers (flags : Flags) : Bool := flags.unicode

end Flags

/-! ## blanks and comments -/

/-- The text after blanks and comments. A comment goes from `#` to the end of
the line; `comment` tells whether one has begun. -/
def afterSpace (comment : Bool) : List Char → List Char
  | [] => []
  | c :: rest =>
    if comment then afterSpace (c != '\n') rest
    else if isBlank c then afterSpace false rest
    else if c == '#' then afterSpace true rest
    else c :: rest

/-- The text after what the flags leave out. -/
def Flags.skip (flags : Flags) (cs : List Char) : List Char :=
  if flags.spaced then afterSpace false cs else cs

/-- The next character of a class. Here the mark of a comment is passed over,
and the comment is not. -/
def Flags.peek? (flags : Flags) (cs : List Char) : Option Char :=
  if flags.spaced then
    match cs.dropWhile isBlank with
    | '#' :: rest => (rest.dropWhile isBlank).head?
    | rest => rest.head?
  else cs.head?

end Switchboard.Text.Pattern
