import Switchboard.Config.Check
import Switchboard.Slot.Post

/-!
# Switchboard.Exchange.Basic

An exchange: all slots, the books, and what the slots work by.

1. An exchange is built from a configuration that keeps to the rules, and with
   scripts that compile. All its slots begin in service.
2. Work on a slot changes that slot and the books, and no other slot.
-/

namespace Switchboard

/-- An exchange whose devices have states of type `σ`. -/
structure Exchange (σ : Type) where
  config : Config
  office : Office σ
  slots : List (Slot σ)
  ledger : Ledger
  commands : Commands
  source : Source
  directory : Directory
  /-- Whether somebody has taken over the records that are handed in. -/
  queueTaken : Bool

/-- Why an exchange could not be built, and the messages sent on the way. -/
structure BuildFailure where
  error : Error
  journal : List Notice
deriving Repr, DecidableEq

namespace Exchange

variable {σ : Type}

/-! ## observing -/

/-- The number of slots. -/
def slotCount (x : Exchange σ) : Nat := x.slots.length

/-- The generation of the scripts. -/
def generation (x : Exchange σ) : Nat := x.office.scripts.generation

/-- The slot that carries a call, as the books have it. -/
def findCall? (x : Exchange σ) (cid : String) : Option SlotId := x.ledger.calls.lookup cid

/-- The number of calls. -/
def activeCalls (x : Exchange σ) : Nat := x.ledger.callCount

/-- The number of free slots. -/
def idleCount (x : Exchange σ) : Nat := x.ledger.idle.size

/-- The number of slots reserved for a group. -/
def reserved (x : Exchange σ) (group : String) : Nat := x.ledger.reservations.count group

/-! ## working on a slot -/

/-- Do work on a slot, if there is one with this number. -/
def atSlot {α : Type} (x : Exchange σ) (id : SlotId) (f : Station σ → Station σ × α) :
    Exchange σ × Option α :=
  match x.slots[id]? with
  | none => (x, none)
  | some slot =>
    let (station, result) := f ⟨slot, x.ledger⟩
    ({ x with slots := x.slots.set id station.slot, ledger := station.ledger }, some result)

/-- Whether work on a slot is broken off.  Whoever does such work does nothing else
after it. -/
def breaksOff {α : Type} (x : Exchange σ) (id : SlotId) (f : Station σ → Station σ × α) : Bool :=
  match x.slots[id]? with
  | none => false
  | some slot => (f ⟨slot, { x.ledger with broken := false }⟩).1.ledger.broken

/-- Post an event to a slot. -/
def post (x : Exchange σ) (id : SlotId) (e : Event) : Exchange σ × Except Error Outcome :=
  match x.atSlot id (Station.post x.office e) with
  | (x, some outcome) => (x, .ok outcome)
  | (x, none) => (x, .error (.unknownSlot id))

/-- Post an event to several slots, one after the other. -/
def postAll (e : Event) (ids : List SlotId) (x : Exchange σ) : Exchange σ :=
  ids.foldl (fun x id => (x.post id e).1) x

/-- The numbers of all slots. -/
def slotIds (x : Exchange σ) : List SlotId := List.range x.slotCount

/-! ## building -/

/-- What an exchange is built from, besides its configuration. -/
structure Plan (σ : Type) where
  /-- The source of scripts; without one, the files of the configuration. -/
  source : Option Source
  directory : Directory
  adapter : Adapter σ
  device : SlotId → σ
  /-- The commands of the devices. -/
  commands : List (String × Mask)
  clock : Clock
  /-- The identities that are made up for calls, in their order. -/
  identities : Nat → String

/-- The commands known to scripts: those of slots, and those of the devices,
which may change what the former need. -/
def allCommands (commands : List (String × Mask)) : Commands :=
  (slotCommands ++ commands).foldl (fun known (name, mask) => known.register name mask) []

/-- Build an exchange, with all slots in service. -/
def build (c : Config) (p : Plan σ) : Except BuildFailure (Exchange σ) := do
  let plain := fun error => BuildFailure.mk error []
  c.check.mapError fun problem => plain (.config problem)
  let segments ← (Segments.ofConfig c).mapError plain
  let commands := allCommands p.commands
  let source := p.source.getD (Source.ofConfig c.scripts)
  let scripts ← (LoadedScripts.load commands source p.directory 1).mapError fun error =>
    BuildFailure.mk error [.loadFailed error]
  let slots := (List.range segments.slotCount).map fun id =>
    Slot.new id c.engine.limits (p.device id)
  let x : Exchange σ :=
    { config := c
      office := ⟨c.engine, c.scripts.entry, scripts, p.adapter, p.clock, p.identities⟩
      slots
      ledger := .new segments c.workers.recordCapacity
      commands
      source
      directory := p.directory
      queueTaken := false }
  return x.postAll .enable x.slotIds

end Exchange

end Switchboard
