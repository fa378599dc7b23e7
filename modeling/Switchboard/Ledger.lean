import Switchboard.Adapter
import Switchboard.IdlePool
import Switchboard.Notice
import Switchboard.Record.Pool
import Switchboard.Segment.Basic

/-!
# Switchboard.Ledger

The books that all slots keep together.

1. They list the free slots, the slots reserved for groups, the calls by their
   identities, the counts of the segments and the records.
2. They also say what happened: the messages sent and the orders given to
   devices, the earliest first.
3. Workers are called when there is something to do for them; each is called
   once until it comes.
-/

namespace Switchboard

/-- Those who do the work in the background. -/
inductive Worker where
  /-- Ends the pauses that have run out. -/
  | ticker
  /-- Posts the events that are queued. -/
  | dispatcher
  /-- Writes the records. -/
  | poster
deriving Repr, DecidableEq

/-- The books of an exchange. -/
structure Ledger where
  segments : Segments
  idle : IdlePool
  reservations : Reservations
  /-- The slot on which a call was started last, by the identity of the call. -/
  calls : List (String × SlotId)
  records : RecordPool
  /-- The number of identities made up so far. -/
  identities : Nat
  journal : List Notice
  orders : List (SlotId × Order)
  called : List Worker
  /-- Whether the work was broken off for good. -/
  broken : Bool
deriving Repr, DecidableEq

namespace Ledger

/-- The books before the first call. -/
def new (segments : Segments) (recordCapacity : Nat) : Ledger :=
  ⟨segments, .empty, .empty, [], .new recordCapacity, 0, [], [], [], false⟩

/-! ## what happened -/

/-- Add messages. -/
def notes (l : Ledger) (ns : List Notice) : Ledger := { l with journal := l.journal ++ ns }

/-- Add a message. -/
def note (l : Ledger) (n : Notice) : Ledger := l.notes [n]

/-- Add an order that a slot gave to its device. -/
def order (l : Ledger) (slot : SlotId) (o : Order) : Ledger :=
  { l with orders := l.orders ++ [(slot, o)] }

/-- Call a worker. -/
def call (l : Ledger) (w : Worker) : Ledger :=
  if l.called.contains w then l else { l with called := l.called ++ [w] }

/-! ## calls -/

/-- The number of calls. -/
def callCount (l : Ledger) : Nat := l.calls.length

/-- Enter a call, in place of one with the same identity. -/
def enterCall (l : Ledger) (cid : String) (slot : SlotId) : Ledger :=
  { l with calls := (cid, slot) :: l.calls.filter (·.1 != cid) }

/-- Strike out a call. -/
def strikeCall (l : Ledger) (cid : String) : Ledger :=
  { l with calls := l.calls.filter (·.1 != cid) }

/-- Count the identity of a call, if none is wanted and so one is made up. -/
def identify (l : Ledger) : Option String → Ledger
  | some _ => l
  | none => { l with identities := l.identities + 1 }

/-! ## records -/

/-- Hand in a record. -/
def submit (l : Ledger) (r : CallRecord) : Ledger :=
  let (records, taken) := l.records.submit r
  let l := { l with records }
  if taken then l.call .poster else l.note (.recordRefused r.slot)

end Ledger

end Switchboard
