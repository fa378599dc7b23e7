import Switchboard.Exchange.Basic

/-!
# Switchboard.Mailbox

Events waiting to be posted.

1. A mailbox holds a limited number of messages, at least one, in the order of
   sending. One that is closed takes no more.
2. A message for a slot that does not exist is lost with a message to whoever
   runs the exchange.
3. Messages are posted in order, until none is left or the work on one of them is
   broken off.
-/

namespace Switchboard

/-- An event for a slot. -/
structure Message where
  slot : SlotId
  event : Event
deriving Repr, DecidableEq

/-- Messages that wait. -/
structure Mailbox where
  capacity : Nat
  messages : List Message
  isOpen : Bool
deriving Repr, DecidableEq

namespace Mailbox

/-- An empty mailbox. -/
def new (capacity : Nat) : Mailbox := ⟨max capacity 1, [], true⟩

/-- Whether there is no room for a message. -/
def isFull (m : Mailbox) : Bool := m.capacity ≤ m.messages.length

/-- Send a message, if it can be taken at once. -/
def send (m : Mailbox) (message : Message) : Except Error Mailbox :=
  if !m.isOpen then .error .queueClosed
  else if m.isFull then .error .queueFull
  else .ok { m with messages := m.messages ++ [message] }

/-- Take no more messages, and forget those that wait. -/
def close (m : Mailbox) : Mailbox := { m with messages := [], isOpen := false }

end Mailbox

namespace Exchange

variable {σ : Type}

/-- Post a message. The answer is none if there is no such slot. -/
def deliver (x : Exchange σ) (m : Message) : Exchange σ × Option Outcome :=
  match x.post m.slot m.event with
  | (x, .ok outcome) => (x, some outcome)
  | (x, .error error) => ({ x with ledger := x.ledger.note (.eventLost m.event error) }, none)

/-- Whether the work on a message is broken off. -/
def breaksOn (x : Exchange σ) (m : Message) : Bool :=
  x.breaksOff m.slot (Station.post x.office m.event)

/-- Post messages in order.  When the work on one of them is broken off, those behind it are
lost; the answer tells whether the last was reached and its work done. -/
def deliverAll (x : Exchange σ) : List Message → Exchange σ × Bool
  | [] => (x, true)
  | m :: rest =>
    if x.breaksOn m then ((x.deliver m).1, false) else (x.deliver m).1.deliverAll rest

end Exchange

end Switchboard
