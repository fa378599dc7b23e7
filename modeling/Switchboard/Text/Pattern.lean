import Switchboard.Text.Pattern.Class
import Switchboard.Text.Pattern.Head

/-!
# Switchboard.Text.Pattern

Whether a text is a search pattern.

1. Round brackets enclose groups and must be balanced; `|` stands between
   alternatives. No two groups have the same name.
2. `*`, `+` and `?` repeat the part before them, so there must be one. Flags
   are no part that can be repeated.
3. A count of repetitions in braces is never complete: these patterns come
   from places where a closing brace ends them.
4. Parts stand in each other two hundred and fifty deep at most.
-/

namespace Switchboard.Text.Pattern

/-! ## groups -/

/-- A group that is being read. The whole pattern is one as well. -/
structure Partial where
  flags : Flags := {}
  /-- The height of the highest alternative before, if there is one. -/
  before : Option Nat := none
  /-- The heights of the parts of the present alternative, the last one in
  front, and nothing for flags. -/
  parts : List (Option Nat) := []
deriving Repr, DecidableEq

namespace Partial

/-- The height of the present alternative. -/
def present (p : Partial) : Nat := row (p.parts.map (·.getD 0))

/-- The height of what has been read. -/
def height (p : Partial) : Nat :=
  match p.before with
  | none => p.present
  | some before => around (max before p.present)

/-- The group with one more part. -/
def add (p : Partial) (height : Nat) : Partial := { p with parts := some height :: p.parts }

/-- The group with other flags for its rest. -/
def set (p : Partial) (flags : Flags) : Partial := { p with flags, parts := none :: p.parts }

/-- The group after the mark between alternatives. -/
def alternate (p : Partial) : Partial :=
  { p with before := some (max (p.before.getD 0) p.present), parts := [] }

/-- The group with its last part repeated. -/
def repeat? (p : Partial) : Option Partial :=
  match p.parts with
  | some height :: parts => some { p with parts := some (around height) :: parts }
  | _ => none

end Partial

/-! ## patterns -/

/-- A pattern that is being read. -/
structure Reader where
  /-- The innermost group. -/
  here : Partial := {}
  /-- The groups around it, the innermost first. -/
  outer : List Partial := []
  /-- The names of groups so far. -/
  names : List (List Char) := []
deriving Repr, DecidableEq

namespace Reader

/-- The flags in force. -/
def flags (r : Reader) : Flags := r.here.flags

/-- One more part of the innermost group. -/
def add (r : Reader) (height : Nat) : Reader := { r with here := r.here.add height }

/-- Begin a group. -/
def enter? (r : Reader) (flags : Flags) (name : Option (List Char)) : Option Reader :=
  if name.any r.names.contains then none
  else some ⟨{ flags }, r.here :: r.outer, name.toList ++ r.names⟩

/-- End a group. -/
def leave? (r : Reader) : Option Reader :=
  match r.outer with
  | [] => none
  | next :: outer => some { r with here := next.add (around r.here.height), outer }

/-- A character that stands for itself. -/
def character? (r : Reader) (byte : Bool) (c : Char) : Option Reader :=
  if r.flags.admits byte c then some (r.add 0) else none

/-- Read what one character begins. -/
def step? (r : Reader) (c : Char) (rest : List Char) : Option (Reader × List Char) :=
  match c with
  | '(' => do
    let (head, rest) ← Head.read? r.flags rest
    match head with
    | .group flags name => (r.enter? flags name).map (·, rest)
    | .setting flags => some ({ r with here := r.here.set flags }, rest)
  | ')' => r.leave?.map (·, rest)
  | '|' => some ({ r with here := r.here.alternate }, rest)
  | '[' => (Class.read? r.flags rest).map fun (height, rest) => (r.add height, rest)
  | '\\' => do
    let (escape, rest) ← Escape.read? r.flags rest
    match escape with
    | .character c byte => (r.character? byte c).map (·, rest)
    | .kind | .place => some (r.add 0, rest)
  | '.' => if r.flags.admitsOthers then some (r.add 0, rest) else none
  | '^' | '$' => some (r.add 0, rest)
  | '\x7b' => none
  | _ =>
    if c == '*' || c == '+' || c == '?' then
      let rest := if rest.head? == some '?' then rest.drop 1 else rest
      r.here.repeat?.map fun here => ({ r with here }, rest)
    else (r.character? false c).map (·, rest)

/-- The height of a pattern after its rest has been read. -/
def height? (fuel : Nat) (r : Reader) (cs : List Char) : Option Nat :=
  match fuel, r.flags.skip cs with
  | _, [] => if r.outer.isEmpty then some r.here.height else none
  | 0, _ => none
  | fuel + 1, c :: rest => do
    let (r, rest) ← r.step? c rest
    height? fuel r rest

end Reader

/-- Whether a text is a pattern. -/
def isPattern (cs : List Char) : Bool :=
  (Reader.height? cs.length {} cs).any (· ≤ heightLimit)

end Switchboard.Text.Pattern
