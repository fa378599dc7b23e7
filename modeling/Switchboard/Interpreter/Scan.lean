import Switchboard.Script.Fault
import Switchboard.Script.Command

/-!
# Switchboard.Interpreter.Scan

Searching forward over the lines of a header.

1. `next` finds the line that divides or closes the block around a line,
   stepping over blocks of the same kind that open after it.
2. `closer` finds the line that closes that block, and `taken` the branch to
   enter, by testing the conditions of the dividing lines in turn.
3. `pastLoop` finds the line after a loop: everything deeper than its first
   line belongs to it.
4. Every search goes at least one line forward, so that it ends.
-/

namespace Switchboard.Scan

/-! ## roles -/

/-- What a line does to a block of some kind. -/
inductive Role where
  | opens | divides | closes | other
deriving Repr, DecidableEq

/-- The role of a command for branches. -/
def branchRole : Command → Role
  | .branch _ => .opens
  | .elseBranch _ | .otherBranch => .divides
  | .endBranch => .closes
  | _ => .other

/-- The role of a command for choices. -/
def choiceRole : Command → Role
  | .choice _ true => .opens
  | .choice _ false | .otherChoice => .divides
  | .endChoice => .closes
  | _ => .other

/-- The condition that a line of a branch puts before its body. -/
def branchGuard : Command → Option Condition
  | .branch cond | .elseBranch cond => some cond
  | _ => none

/-- The condition that a line of a choice puts before its body. -/
def choiceGuard : Command → Option Condition
  | .choice cond _ => some cond
  | _ => none

/-! ## searches -/

/-- How many lines come before the one that divides or closes the block in
which `nesting` more are open; all of them if there is no such line. -/
def distance (role : Command → Role) : Nat → List Line → Nat
  | _, [] => 0
  | nesting, l :: rest =>
    match role l.command with
    | .opens => distance role (nesting + 1) rest + 1
    | .closes => if nesting = 0 then 0 else distance role (nesting - 1) rest + 1
    | .divides => if nesting = 0 then 0 else distance role nesting rest + 1
    | .other => distance role nesting rest + 1

/-- The next line that divides or closes the block around line `start`. -/
def next (role : Command → Role) (lines : List Line) (start : Nat) : Nat :=
  start + 1 + distance role 0 (lines.drop (start + 1))

/-- A search ends after the line it started from. -/
theorem lt_next (role : Command → Role) (lines : List Line) (start : Nat) :
    start < next role lines start := by
  simp only [next]
  omega

/-- The line that closes the block around line `start`, or the end. -/
def closer (role : Command → Role) (lines : List Line) (start : Nat) : Nat :=
  let at_ := next role lines start
  if h : at_ < lines.length then
    if role lines[at_].command = .closes then at_ else closer role lines at_
  else at_
termination_by lines.length - start
decreasing_by
  have := lt_next role lines start
  omega

/-- The line at which the branch to be taken begins. Line `start` begins the
first branch that may be; a branch is taken if it has no condition, or its
condition holds. -/
def taken (role : Command → Role) (guard : Command → Option Condition)
    (holds : Condition → Except Fault Bool) (lines : List Line) (start : Nat) : Except Fault Nat :=
  if h : start < lines.length then
    match guard lines[start].command with
    | none => .ok (start + 1)
    | some cond =>
      match holds cond with
      | .error e => .error e
      | .ok true => .ok (start + 1)
      | .ok false => taken role guard holds lines (next role lines start)
  else .ok (start + 1)
termination_by lines.length - start
decreasing_by
  have := lt_next role lines start
  omega

/-- The first line after `start` that is no deeper than `depth`. -/
def pastLoop (lines : List Line) (start depth : Nat) : Nat :=
  start + 1 + ((lines.drop (start + 1)).takeWhile fun l => depth < l.depth).length

end Switchboard.Scan
