import Switchboard.Decimal.Expression
import Switchboard.Script.Problem

/-!
# Switchboard.Script.Fault

What can go wrong with a script.

1. A `Fault` is raised by a line that cannot be carried out, or stands for a
   source that the compiler refused.
2. A script can handle every fault of a line but two: a quotient that no
   word holds, and a host that broke down while it executed a command.
   These end the work at once.
-/

namespace Switchboard

/-- Why a script line could not be carried out. -/
inductive Fault where
  | symbolNotFound (name : String)
  | symbolSpaceExhausted (limit : Nat)
  | labelNotFound (targets : String)
  | stackOverflow (depth : Nat)
  | notInLoop (command : String)
  | arithmetic (error : Decimal.Error)
  | unknownCommand (name : String)
  | commandFailed (command reason : String)
  | hostAborted (command : String)
  | raised (message : String)
  | rejected (diagnostics : List Diagnostic)
deriving Repr, DecidableEq

namespace Fault

/-- Faults that no handler sees. -/
def isFatal : Fault → Bool
  | .arithmetic .quotientOutOfRange | .hostAborted _ => true
  | _ => false

/-- The fault in words, as handlers see it. -/
def message : Fault → String
  | .symbolNotFound name => s!"symbol not found: {name}"
  | .symbolSpaceExhausted limit => s!"symbol space exhausted ({limit} symbols)"
  | .labelNotFound targets => s!"label not found: {targets}"
  | .stackOverflow depth => s!"stack overflow: frame depth {depth} exceeds maximum"
  | .notInLoop command => s!"{command} outside of loop"
  | .arithmetic error => error.message
  | .unknownCommand name => s!"unknown command: {name}"
  | .commandFailed command reason => s!"{command}: {reason}"
  | .hostAborted command => s!"{command}: aborted"
  | .raised message => message
  | .rejected diagnostics => s!"compile failed with {diagnostics.length} error(s)"

end Fault

end Switchboard
