import Switchboard.Text.Pattern.Escape
import Switchboard.Text.Pattern.Height

/-!
# Switchboard.Text.Pattern.Class

Classes of characters, in square brackets.

1. A class lists characters, ranges, named classes such as `[:alpha:]`, and
   further classes. `^` at its beginning takes all other characters.
2. `-` stands for itself at the beginning of a class, and `]` does as the
   very first character.
3. `&&`, `--` and `~~` take what the parts on both sides have in common, what
   only the left one has, and what only one of them has.
4. A range goes from a character up to one that is not below it.
-/

namespace Switchboard.Text.Pattern.Class

/-! ## members -/

/-- The names of classes. -/
def names : List String :=
  ["alnum", "alpha", "ascii", "blank", "cntrl", "digit", "graph", "lower", "print", "punct",
    "space", "upper", "word", "xdigit"]

/-- The text after the name of a class, its colon and its bracket. -/
def afterName? (cs : List Char) : Option (List Char) :=
  match cs.dropWhile (· != ':') with
  | ':' :: ']' :: rest =>
    if names.contains (String.ofList (cs.takeWhile (· != ':'))) then some rest else none
  | _ => none

/-- A named class after its first bracket: whether the characters outside it
are meant, and the text after it. -/
def named? : List Char → Option (Bool × List Char)
  | ':' :: '^' :: rest => (afterName? rest).map (true, ·)
  | ':' :: rest => (afterName? rest).map (false, ·)
  | _ => none

/-- Whether a named class may stand in a class. -/
def admitsNamed (flags : Flags) (others : Bool) : Bool :=
  flags.admitsMember 'a' && (!others || flags.admitsOthers)

/-- A member of a class: a character, or nothing for more than one. -/
def member? (flags : Flags) : List Char → Option (Option Char × List Char)
  | [] => none
  | '\\' :: rest =>
    match Escape.read? flags rest with
    | some (.character c _, rest) => some (some c, rest)
    | some (.kind, rest) => some (none, rest)
    | _ => none
  | c :: rest => some (some c, rest)

/-- The text after a member or a range of them. A dash before another dash or
before the end of the class makes no range. -/
def afterMember? (flags : Flags) (cs : List Char) : Option (List Char) := do
  let (first, rest) ← member? flags cs
  if first.all flags.admitsMember then
    match flags.skip rest with
    | '-' :: more =>
      if [some ']', some '-'].contains (flags.peek? more) then some ('-' :: more)
      else do
        let (last, rest) ← member? flags (flags.skip more)
        match first, last with
        | some a, some b => if flags.admitsMember b && a ≤ b then some rest else none
        | _, _ => none
    | rest => some rest
  else none

/-! ## classes -/

/-- A class that is being read. -/
structure Partial where
  /-- The height of what stands before the last operator, if there is one. -/
  left : Option Nat := none
  /-- The heights of the members after it. -/
  members : List Nat := []
  /-- Nothing but dashes has been read. -/
  fresh : Bool := true
deriving Repr, DecidableEq

namespace Partial

/-- The height of what has been read. -/
def height (c : Partial) : Nat :=
  match c.left with
  | none => row c.members
  | some left => around (max left (row c.members))

/-- The class with one more member. -/
def add (c : Partial) (member : Nat) : Partial :=
  { c with members := member :: c.members, fresh := false }

/-- The class with one more dash at its beginning. -/
def addDash (c : Partial) : Partial := { c with members := 0 :: c.members }

/-- The class after an operator. -/
def operate (c : Partial) : Partial := ⟨some c.height, [], false⟩

end Partial

/-- The text after the first bracket of a class and the mark for all other
characters. -/
def afterOpening? (flags : Flags) (cs : List Char) : Option (List Char) :=
  match flags.skip cs with
  | '^' :: rest => if flags.admitsOthers then some rest else none
  | rest => some rest

/-- Marks that are operators when they stand twice. -/
def isOperator (c : Char) : Bool := c == '&' || c == '-' || c == '~'

/-- Read the rest of a class that stands in the classes `outer`: the height of
the outermost, and the text after it. -/
def rest? (flags : Flags) (fuel : Nat) (here : Partial) (outer : List Partial) (cs : List Char) :
    Option (Nat × List Char) :=
  match fuel, flags.skip cs with
  | 0, _ => none
  | _, [] => none
  | fuel + 1, c :: rest =>
    if here.fresh && c == '-' then
      if flags.admitsMember c then rest? flags fuel here.addDash outer rest else none
    else if here.fresh && here.members.isEmpty && c == ']' then
      if flags.admitsMember c then rest? flags fuel (here.add 0) outer rest else none
    else if c == '[' then
      match named? rest with
      | some (others, rest) =>
        if admitsNamed flags others then rest? flags fuel (here.add 0) outer rest else none
      | none => (afterOpening? flags rest).bind (rest? flags fuel {} (here :: outer) ·)
    else if c == ']' then
      match outer with
      | [] => some (around here.height, rest)
      | next :: outer => rest? flags fuel (next.add (around here.height)) outer rest
    else if isOperator c && rest.head? == some c then
      rest? flags fuel here.operate outer (rest.drop 1)
    else (afterMember? flags (c :: rest)).bind (rest? flags fuel (here.add 0) outer ·)

/-- Read a class after its first bracket: its height, and the text after it. -/
def read? (flags : Flags) (cs : List Char) : Option (Nat × List Char) :=
  (afterOpening? flags cs).bind fun rest => rest? flags cs.length {} [] rest

end Switchboard.Text.Pattern.Class
