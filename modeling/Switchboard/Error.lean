import Switchboard.Config.Problem
import Switchboard.Event
import Switchboard.Script.Fault
import Switchboard.Script.Problem

/-!
# Switchboard.Error

What can fail in an exchange, and the words for it.
-/

namespace Switchboard

/-- Why an operation of an exchange failed. -/
inductive Error where
  | config (problem : Config.Problem)
  /-- The scripts do not compile. -/
  | compile (diagnostics : List Diagnostic)
  | script (fault : Fault)
  | scriptNotFound (entry : String)
  | noFreeSlot (group : String)
  | groupLimit (group : String) (limit : Nat)
  | unknownSegment (name : String)
  | unknownSlot (slot : SlotId)
  /-- A slot does not take an event in its state. -/
  | rejected (slot : SlotId) (event : String) (state : SlotState)
  | queueFull
  | queueClosed
  | callDetail (message : String)
  | file (cause : FileProblem)
  /-- A segment has more slots than can be numbered. -/
  | capacity
deriving Repr, DecidableEq

namespace Error

/-- The error in words. -/
def message : Error → String
  | .config problem => s!"Configuration error: {problem.message}"
  | .compile diagnostics => s!"Script compile failed with {diagnostics.length} error(s)"
  | .script fault => s!"Script error: {fault.message}"
  | .scriptNotFound entry => s!"Script entry not found: {entry}"
  | .noFreeSlot group => s!"No free timeslot in {group}"
  | .groupLimit group limit => s!"Group {group} is at its limit of {limit} calls"
  | .unknownSegment name => s!"Unknown segment: {name}"
  | .unknownSlot slot => s!"Unknown timeslot: {slot}"
  | .rejected slot event state => s!"Timeslot {slot} rejected {event} while {state.label}"
  | .queueFull => "Message queue is full"
  | .queueClosed => "Message queue is closed"
  | .callDetail message => s!"Call detail write failed: {message}"
  | .file cause => s!"I/O error: {cause.message}"
  | .capacity => "capacity overflow"

/-- Whether an error says that there is no room for a call just now. -/
def isExhaustion : Error → Bool
  | .noFreeSlot _ | .groupLimit _ _ => true
  | _ => false

end Error

end Switchboard
