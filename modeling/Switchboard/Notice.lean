import Switchboard.Error
import Switchboard.Interpreter.Handler
import Switchboard.LogLevel
import Switchboard.Record.Basic

/-!
# Switchboard.Notice

Messages to whoever runs an exchange: what a script said, what went wrong, and
the records that are written as messages.
-/

namespace Switchboard

/-- A message. -/
inductive Notice where
  /-- A script ended by an error. -/
  | fault (report : Interpreter.Report)
  /-- A rule names a script that is not loaded. -/
  | scheduleMissed (script : String)
  /-- A slot of a segment refused an event. -/
  | refused (kind : SegmentKind) (segment : String) (error : Error)
  | loadFailed (error : Error)
  | diagnostic (d : Diagnostic)
  | reloadFailed (generation : Nat) (error : Error)
  /-- A slot was listed as free already when it became free. -/
  | alreadyIdle (slot : SlotId)
  /-- A script said something. -/
  | said (slot : SlotId) (text : String)
  /-- Nobody writes the record that was handed in. -/
  | recordRefused (slot : SlotId)
  /-- A record could not be written. -/
  | recordLost (record : CallRecord) (error : Error)
  | flushFailed (error : Error)
  /-- An event went to no slot. -/
  | eventLost (event : Event) (error : Error)
  /-- A record, written as a message. -/
  | callDetail (record : CallRecord)
deriving Repr, DecidableEq

namespace Notice

/-- How important a message is. -/
def level : Notice → LogLevel
  | .loadFailed _ | .diagnostic _ | .reloadFailed _ _ => .error
  | .said _ _ | .callDetail _ => .info
  | _ => .warn

/-- A record in one line of a message. -/
def recordText (r : CallRecord) : String :=
  s!"kind={r.kind.name} slot={r.slot} sequence={r.sequence} cid={r.cid} " ++
    s!"reason={r.reason} script={r.script}"

/-- The message in words. -/
def message : Notice → String
  | .fault report => report.message
  | .scheduleMissed script => s!"Schedule selected {script} which is not in the current image"
  | .refused kind segment error => s!"{kind.word} {segment}: {error.message}"
  | .loadFailed error => s!"Initial script load failed: {error.message}"
  | .diagnostic d => d.text
  | .reloadFailed generation error =>
    s!"Script reload failed, keeping generation {generation}: {error.message}"
  | .alreadyIdle slot => s!"Slot {slot} was already in the idle pool"
  | .said slot text => s!"Slot {slot}: {text}"
  | .recordRefused slot => s!"Call detail poster stopped, dropping record for slot {slot}"
  | .recordLost r error =>
    s!"Dropping {r.kind.name} record for slot {r.slot} sequence {r.sequence}: {error.message}"
  | .flushFailed error => s!"Call detail flush failed: {error.message}"
  | .eventLost event error => s!"Dropping {event.text}: {error.message}"
  | .callDetail record => "call detail " ++ recordText record

/-- The message with its level in front. -/
def text (n : Notice) : String := s!"{n.level.name} {n.message}"

end Notice

end Switchboard
