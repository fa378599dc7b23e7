import Switchboard.Interpreter.Basic
import Switchboard.Ledger
import Switchboard.Source

/-!
# Switchboard.Slot.Basic

Slots and the calls on them.

1. A slot has an interpreter and a device of its own, and carries one call at
   a time.
2. A slot works in an office, which tells the time and the scripts in force,
   and on the books, which it shares with the other slots.
3. What a slot is armed with is noted, so that its device is armed only when
   something changes.
-/

namespace Switchboard

/-! ## calls -/

/-- A call that somebody asks for. -/
structure CallSetup where
  /-- The identity; one is made up if it is absent. -/
  cid : Option String
  source : String
  target : String
  /-- Where the script begins. -/
  script : Option String
  /-- The event by which a schedule chooses the script. -/
  event : Option String
  /-- Data that is only copied into the records. -/
  payload : Option String
deriving Repr, DecidableEq

/-- A call that a slot carries. -/
structure Call where
  cid : String
  sequence : Nat
  source : String
  target : String
  script : String
  payload : Option String
  started : Timestamp
  startedMs : Nat
  /-- Why the call ended, once it has. -/
  reason : String
deriving Repr, DecidableEq

/-! ## slots -/

/-- A slot; its device has a state of type `σ`. -/
structure Slot (σ : Type) where
  id : SlotId
  state : SlotState
  interpreter : Interpreter
  device : σ
  call : Option Call
  armedMask : Mask
  /-- The number of calls so far. -/
  sequence : Nat
  timer : Timer
deriving DecidableEq

/-- A slot that is out of service. -/
def Slot.new {σ : Type} (id : SlotId) (limits : Limits) (device : σ) : Slot σ :=
  ⟨id, .offline, .new limits, device, none, 0, 0, .unset⟩

/-- The time, in milliseconds since the start, in universal time, and where
the exchange stands. -/
structure Clock where
  now : Nat
  universal : Timestamp
  local_ : Moment
deriving Repr, DecidableEq

/-- What all slots work by. -/
structure Office (σ : Type) where
  engine : Config.Engine
  entry : String
  scripts : LoadedScripts
  adapter : Adapter σ
  clock : Clock
  /-- The identities that are made up for calls, in their order. -/
  identities : Nat → String

/-- A slot at work: the slot, and the books. -/
structure Station (σ : Type) where
  slot : Slot σ
  ledger : Ledger
deriving DecidableEq

namespace Station

variable {σ : Type}

/-! ## timers -/

/-- Set the timer of a slot. -/
def arm (o : Office σ) (delay : Nanoseconds) (x : Station σ) : Station σ :=
  { slot := { x.slot with timer := ⟨Timer.deadline o.clock.now delay⟩ }
    ledger := x.ledger.call .ticker }

/-- Unset the timer of a slot. -/
def disarm (x : Station σ) : Station σ := { x with slot := { x.slot with timer := .unset } }

/-! ## devices -/

/-- Arm the device with resources. -/
def armDevice (o : Office σ) (mask : Mask) (x : Station σ) : Station σ :=
  { slot := { x.slot with device := o.adapter.arm mask x.slot.device, armedMask := mask }
    ledger := x.ledger.order x.slot.id (.arm mask) }

/-- Let the device hang up. -/
def hangUp (o : Office σ) (x : Station σ) : Station σ :=
  { slot := { x.slot with device := o.adapter.hangup x.slot.device }
    ledger := x.ledger.order x.slot.id .hangup }

/-- Let the device disconnect. -/
def disconnect (o : Office σ) (x : Station σ) : Station σ :=
  { slot := { x.slot with device := o.adapter.disconnect x.slot.device }
    ledger := x.ledger.order x.slot.id .disconnect }

/-! ## states -/

/-- Enter a state. -/
def setState (state : SlotState) (x : Station σ) : Station σ :=
  { x with slot := { x.slot with state } }

/-- Note why the call ended. -/
def setReason (reason : String) (x : Station σ) : Station σ :=
  { x with slot := { x.slot with call := x.slot.call.map fun c => { c with reason } } }

/-- Fill in a record of a call at the time `now`. Its texts are written behind
those that are there already; in a blank record there are none. -/
def fill (now : Nat) (slot : SlotId) (c : Call) (kind : RecordKind) (r : CallRecord) :
    CallRecord :=
  let r := { r with
    kind
    slot
    sequence := c.sequence
    cid := r.cid ++ c.cid
    started := c.started
    source := r.source ++ c.source
    target := r.target ++ c.target
    script := r.script ++ c.script
    payload := c.payload }
  match kind with
  | .start => r
  | .stop => { r with durationMs := some (now - c.startedMs), reason := r.reason ++ c.reason }

/-- Hand in a record of the call, if there is one. -/
def record (o : Office σ) (kind : RecordKind) (x : Station σ) : Station σ :=
  match x.slot.call with
  | none => x
  | some c =>
    let (r, records) := x.ledger.records.acquire
    { x with ledger := { x.ledger with records }.submit (fill o.clock.now x.slot.id c kind r) }

/-! ## the end of a call -/

/-- The call is over for a reason; wait until the slot may be free again. -/
def beginRelease (o : Office σ) (reason : String) (x : Station σ) : Station σ :=
  ((x.setReason reason).setState .releasing).arm o o.engine.releaseDelay

/-- Take the call off the slot and out of the books. -/
def dropCall (x : Station σ) : Station σ :=
  match x.slot.call with
  | none => x
  | some c =>
    let ledger := x.ledger.strikeCall c.cid
    { slot := { x.slot with call := none }
      ledger := { ledger with segments := ledger.segments.callEnded x.slot.id } }

/-- Let go of the script. -/
def detach (x : Station σ) : Station σ :=
  { x with slot := { x.slot with interpreter := x.slot.interpreter.detach } }

/-- List the slot as free. -/
def listIdle (x : Station σ) : Station σ :=
  let (idle, isNew) := x.ledger.idle.insert x.slot.id
  let ledger := { x.ledger with idle }
  { x with ledger := if isNew then ledger else ledger.note (.alreadyIdle x.slot.id) }

/-- End the call and enter the state `next`. -/
def finish (o : Office σ) (next : SlotState) (x : Station σ) : Station σ :=
  let x := ((x.disarm.record o .stop).dropCall).detach
  let x := if x.slot.armedMask != 0 then x.armDevice o 0 else x
  let x := x.setState next
  if next = .idle then x.listIdle else x

end Station

end Switchboard
