/-!
# Switchboard.Event

Slots, their states, and the events posted to them.
-/

namespace Switchboard

/-- Slots are numbered from nought. -/
abbrev SlotId := Nat

/-- The state of a slot. -/
inductive SlotState where
  /-- Out of service. -/
  | offline
  /-- Free for a call. -/
  | idle
  /-- Running a script for a call. -/
  | scripting
  /-- Its call has ended, and it waits to be free again. -/
  | releasing
deriving Repr, DecidableEq

namespace SlotState

/-- All states. -/
def all : List SlotState := [.offline, .idle, .scripting, .releasing]

/-- The character for a state in the status line. -/
def code : SlotState → Char
  | .offline => '-'
  | .idle => 'i'
  | .scripting => 's'
  | .releasing => 'r'

/-- The word for a state. -/
def label : SlotState → String
  | .offline => "offline"
  | .idle => "idle"
  | .scripting => "scripting"
  | .releasing => "releasing"

end SlotState

/-- An event posted to a slot. -/
inductive Event where
  /-- Return to service. -/
  | enable
  /-- Leave service, ending a call. -/
  | disable
  /-- A timer has run out. -/
  | timeout
  /-- The other side dropped the call. -/
  | drop
  /-- The other side hung up. -/
  | hangup
  /-- Be free again. -/
  | release
  /-- The process ends, and every call with it. -/
  | shutdown
  /-- Anything else; the script may handle it by name. -/
  | signal (name : String)
deriving Repr, DecidableEq

namespace Event

/-- The events that are no signals. -/
def plain : List Event := [.enable, .disable, .timeout, .drop, .hangup, .release, .shutdown]

/-- The name of an event. -/
def name : Event → String
  | .enable => "enable"
  | .disable => "disable"
  | .timeout => "timeout"
  | .drop => "drop"
  | .hangup => "hangup"
  | .release => "release"
  | .shutdown => "shutdown"
  | .signal name => name

/-- The event in messages. -/
def text : Event → String
  | .signal name => s!"signal ^{name}"
  | e => e.name

end Event

/-- A slot that is free again, and the number of the call it carried. -/
structure Release where
  slot : SlotId
  sequence : Nat
deriving Repr, DecidableEq

/-- What posting an event did. -/
inductive Outcome where
  /-- The event was taken. -/
  | handled
  /-- The slot is free again. -/
  | released (r : Release)
  /-- The slot takes no such event in its state; nothing changed. -/
  | rejected
deriving Repr, DecidableEq

end Switchboard
