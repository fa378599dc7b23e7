import Switchboard.SegmentKind
import Switchboard.Directory
import Switchboard.Schedule.Parser

/-!
# Switchboard.Config.Problem

What can be wrong with a configuration and the files it names, and the words
for it.
-/

namespace Switchboard.Config

/-- What is wrong with a configuration. -/
inductive Problem where
  /-- The text says nothing that a configuration could say. -/
  | unreadable
  | cannotRead (path : String) (cause : FileProblem)
  | noSlots
  | notPositive (setting : String)
  | logLevel (level : String)
  | logDirective (directive : String)
  | duplicate (kind : SegmentKind) (name : String)
  | emptySpan (name : String)
  | unknownSpan (group span : String)
  | unknownSlot (owner : String) (slot total : Nat)
  | schedule (file : String) (line : Nat) (problem : Schedule.Problem)
deriving Repr, DecidableEq

/-- The problem in words. -/
def Problem.message : Problem → String
  | .unreadable => "Invalid config"
  | .cannotRead path cause => s!"Cannot read {path}: {cause.message}"
  | .noSlots => "At least one timeslot must be configured"
  | .notPositive setting => s!"{setting} must be greater than zero"
  | .logLevel level => s!"Invalid log level: {level}"
  | .logDirective directive => s!"Invalid log directive '{directive}'"
  | .duplicate kind name => s!"Duplicate {kind.word} {name}"
  | .emptySpan name => s!"Span {name} has no slots"
  | .unknownSpan group span => s!"Group {group} references unknown span {span}"
  | .unknownSlot owner slot total =>
    s!"{owner} references timeslot {slot} but only {total} exist"
  | .schedule file line problem => s!"{file}:{line}: {problem.message}"

end Switchboard.Config
