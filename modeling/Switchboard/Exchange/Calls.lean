import Switchboard.Exchange.Basic

/-!
# Switchboard.Exchange.Calls

Requesting slots and starting calls.

1. A slot is requested from a group, or from all slots. A slot requested from
   a group is reserved for it until its call begins or it is given back.
2. The calls and reservations of a group must stay below its limit for one
   more request.
3. The script of a call is chosen by the schedule if it names a script that is
   loaded, else by the group, else it is that of the configuration.
-/

namespace Switchboard.Exchange

variable {σ : Type}

/-- The event of a call that names none. -/
def defaultEvent : String := "incoming"

/-- The word for all slots where a group could be named. -/
def anyGroup : String := "*"

/-! ## requests -/

/-- Take a free slot, of a group or of all. -/
def takeIdle (x : Exchange σ) (members : Option (List SlotId)) (group : String) :
    Exchange σ × Except Error SlotId :=
  match x.ledger.idle.take members x.config.policy with
  | (_, none) => (x, .error (.noFreeSlot group))
  | (idle, some id) => ({ x with ledger := { x.ledger with idle } }, .ok id)

/-- The limit of a group, if it has been reached. -/
def limitReached? (x : Exchange σ) (s : Segment) : Option Nat :=
  match s.limit with
  | none => none
  | some limit =>
    if limit ≤ s.counter.current.toNat + x.reserved s.name then some limit else none

/-- Take a free slot of a group and reserve it. -/
def reserve (x : Exchange σ) (s : Segment) : Exchange σ × Except Error SlotId :=
  match x.limitReached? s with
  | some limit => (x, .error (.groupLimit s.name limit))
  | none =>
    match x.takeIdle (some s.slots) s.name with
    | (x, .error e) => (x, .error e)
    | (x, .ok id) =>
      let reservations := x.ledger.reservations.insert id s.name
      ({ x with ledger := { x.ledger with reservations } }, .ok id)

/-- Take a free slot out for a call. -/
def request (x : Exchange σ) (group : Option String) : Exchange σ × Except Error SlotId :=
  match group with
  | none => x.takeIdle none anyGroup
  | some name =>
    match x.ledger.segments.group? name with
    | none => (x, .error (.unknownSegment name))
    | some s => x.reserve s

/-- Give a slot back that was requested. The answer tells whether it is free
now and was not before. -/
def restore (x : Exchange σ) (id : SlotId) : Exchange σ × Option Bool :=
  x.atSlot id fun s =>
    if s.slot.state != .idle then (s, false)
    else
      let (idle, isNew) := s.ledger.idle.insert id
      let reservations := s.ledger.reservations.release id
      ({ s with ledger := { s.ledger with idle, reservations } }, isNew)

/-! ## scripts for calls -/

/-- The script that the schedule selects for a group and an event. -/
def scheduled? (x : Exchange σ) (group : Option String) (event : String) : Option String :=
  Schedule.select? x.office.scripts.rules (group.getD anyGroup) event x.office.clock.local_

/-- The script of a group. -/
def groupScript? (x : Exchange σ) (group : Option String) : Option String :=
  (group.bind x.ledger.segments.group?).bind (·.script)

/-- The script for a call of a group with an event. -/
def selectScript (x : Exchange σ) (group : Option String) (event : String) :
    Exchange σ × String :=
  let otherwise := (x.groupScript? group).getD x.office.entry
  match x.scheduled? group event with
  | none => (x, otherwise)
  | some script =>
    if (x.office.scripts.image.indexOf? script).isSome then (x, script)
    else ({ x with ledger := x.ledger.note (.scheduleMissed script) }, otherwise)

/-! ## calls -/

/-- Start a call on a slot. -/
def allocate (x : Exchange σ) (id : SlotId) (setup : CallSetup) :
    Exchange σ × Option (Except Error Nat) :=
  x.atSlot id (Station.allocate x.office setup)

/-- Choose the script of a call on a slot, unless the call names one. -/
def chooseScript (x : Exchange σ) (group : Option String) (id : SlotId) (setup : CallSetup) :
    Exchange σ × CallSetup :=
  match setup.script with
  | some _ => (x, setup)
  | none =>
    let group := group.or ((x.ledger.segments.groupOf? id).map (·.name))
    let (x, script) := x.selectScript group (setup.event.getD defaultEvent)
    (x, { setup with script := some script })

/-- Request a slot and start a call on it. The slot is given back if the call
cannot be started. -/
def startCall (x : Exchange σ) (group : Option String) (setup : CallSetup) :
    Exchange σ × Except Error SlotId :=
  match x.request group with
  | (x, .error e) => (x, .error e)
  | (x, .ok id) =>
    let (x, setup) := x.chooseScript group id setup
    match x.allocate id setup with
    | (x, some (.ok _)) => (x, .ok id)
    | (x, some (.error e)) => ((x.restore id).1, .error e)
    | (x, none) => (x, .error (.unknownSlot id))

/-- Free a slot whose call is over. -/
def release (x : Exchange σ) (id : SlotId) : Exchange σ × Except Error Release :=
  match x.post id .release with
  | (x, .ok (.released r)) => (x, .ok r)
  | (x, .error e) => (x, .error e)
  | (x, .ok _) =>
    let state := ((x.slots[id]?).map (·.state)).getD .offline
    (x, .error (.rejected id Event.release.text state))

end Switchboard.Exchange
