import Switchboard.Text.Alphanumeric
import Switchboard.Text.Pattern.Flags

/-!
# Switchboard.Text.Pattern.Head

The beginning of a group of a search pattern, after its bracket.

1. `?<name>` and `?P<name>` name a group. A name begins with a letter or `_`
   and goes on with letters, numbers, `_`, `.`, `[` and `]`.
2. `?flags:` sets flags in a group, and `?flags)` sets them in the rest of the
   group around. Flags after `-` are switched off; none stands twice.
-/

namespace Switchboard.Text.Pattern

/-- The beginning of a group. -/
inductive Head where
  /-- A group with flags of its own and perhaps a name. -/
  | group (flags : Flags) (name : Option (List Char))
  /-- Flags for the rest of the group around. -/
  | setting (flags : Flags)
deriving Repr, DecidableEq

namespace Head

/-- Characters that a name may begin with. -/
def beginsName (c : Char) : Bool := c == '_' || isAlphabetic c

/-- Characters that a name may go on with. -/
def continuesName (c : Char) : Bool :=
  isAlphanumeric c || ['_', '.', '[', ']'].contains c

/-- A name and the text after the mark that ends it. -/
def name? (cs : List Char) : Option (List Char × List Char) :=
  match cs.takeWhile continuesName, cs.dropWhile continuesName with
  | first :: more, '>' :: rest => if beginsName first then some (first :: more, rest) else none
  | _, _ => none

/-- The rest of a head with flags. `marks` are the letters and dashes so far,
the last one in front. -/
def setting? (flags : Flags) (marks : List Char) : List Char → Option (Head × List Char)
  | [] => none
  | c :: rest =>
    if c == ':' || c == ')' then
      if marks.head? == some '-' then none
      else if c == ':' then some (group flags none, rest)
      else if marks.isEmpty then none
      else some (setting flags, rest)
    else if marks.contains c then none
    else if c == '-' then setting? flags (c :: marks) rest
    else if Flags.isLetter c then
      setting? (flags.switch (!marks.contains '-') c) (c :: marks) rest
    else none

/-- Read the head of a group that stands among `flags`. -/
def read? (flags : Flags) (cs : List Char) : Option (Head × List Char) :=
  let named := fun cs => (name? cs).map fun (name, rest) => (group flags (some name), rest)
  match flags.skip cs with
  | '?' :: 'P' :: '<' :: rest => named rest
  | '?' :: '<' :: rest => named rest
  | '?' :: rest => setting? flags [] rest
  | rest => some (group flags none, rest)

end Head

end Switchboard.Text.Pattern
