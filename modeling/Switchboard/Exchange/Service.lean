import Switchboard.Exchange.Basic

/-!
# Switchboard.Exchange.Service

Running an exchange: segments in and out of service, new scripts, timers,
reports and the end.

1. A segment is taken out of service slot by slot, whatever single slots
   answer; the first that refuses is reported when all are done.
2. New scripts come into force for calls that begin after them. If they cannot
   be loaded, everything stays as it was.
3. A timer that runs out is unset before its slot is told.  A look at all timers ends
   where the work on a slot is broken off.
-/

namespace Switchboard.Exchange

variable {σ : Type}

/-! ## segments -/

/-- Post an event to slots, and keep the first refusal. -/
def postEach (e : Event) : List SlotId → Exchange σ × Option Error → Exchange σ × Option Error
  | [], r => r
  | id :: rest, (x, refused) =>
    let (x, outcome) := x.post id e
    let refusal := match outcome with
      | .ok .rejected =>
        some (Error.rejected id e.text (((x.slots[id]?).map (·.state)).getD .offline))
      | _ => none
    postEach e rest (x, refused.or refusal)

/-- Post an event to all slots of a segment. -/
def postSegment (x : Exchange σ) (kind : SegmentKind) (name : String) (e : Event) :
    Exchange σ × Except Error Unit :=
  match x.ledger.segments.find? kind name with
  | none => (x, .error (.unknownSegment name))
  | some s =>
    match postEach e s.slots (x, none) with
    | (x, none) => (x, .ok ())
    | (x, some error) =>
      ({ x with ledger := x.ledger.note (.refused kind name error) }, .error error)

/-- Take all slots of a segment out of service, and end their calls. -/
def suspend (x : Exchange σ) (kind : SegmentKind) (name : String) :
    Exchange σ × Except Error Unit := x.postSegment kind name .disable

/-- Bring all slots of a segment back into service. -/
def resume (x : Exchange σ) (kind : SegmentKind) (name : String) :
    Exchange σ × Except Error Unit := x.postSegment kind name .enable

/-! ## scripts -/

/-- The problems of scripts that do not compile, as messages. -/
def diagnosticNotices : Error → List Notice
  | .compile diagnostics => diagnostics.map Notice.diagnostic
  | _ => []

/-- Load the scripts again. The answer is their generation. -/
def reload (x : Exchange σ) : Exchange σ × Except Error Nat :=
  match LoadedScripts.load x.commands x.source x.directory (x.generation + 1) with
  | .ok scripts => ({ x with office := { x.office with scripts } }, .ok scripts.generation)
  | .error error =>
    let notices := diagnosticNotices error ++ [.reloadFailed x.generation error]
    ({ x with ledger := x.ledger.notes notices }, .error error)

/-! ## timers -/

/-- The earliest time at which a timer runs out. -/
def nextExpiry? (x : Exchange σ) : Option Nat := (x.slots.filterMap (·.timer.expiry?)).min?

/-- Post a timeout to a slot whose timer has run out at `now`. -/
def expire (x : Exchange σ) (id : SlotId) (now : Nat) : Exchange σ × Option Outcome :=
  let (x, r) := x.atSlot id (Station.expire x.office now)
  (x, r.join)

/-- Post a timeout to those of these slots whose timers have run out at `now`, and count
them.  When the work on one of them is broken off, those behind it are not looked at. -/
def expireEach (now : Nat) : List SlotId → Exchange σ × Nat → Exchange σ × Nat
  | [], seen => seen
  | id :: rest, (x, n) =>
    let (y, outcome) := x.expire id now
    let seen := (y, if outcome.isSome then n + 1 else n)
    if x.breaksOff id (Station.expire x.office now) then seen else expireEach now rest seen

/-- Post a timeout to all slots whose timers have run out at `now`, and count them. -/
def expireDue (x : Exchange σ) (now : Nat) : Exchange σ × Nat := expireEach now x.slotIds (x, 0)

/-- Whether a look at all timers is broken off. -/
def breaksDue (x : Exchange σ) (now : Nat) : Bool :=
  x.slotIds.any fun id => x.breaksOff id (Station.expire x.office now)

/-- How long to sleep, from `now` on and at most `idle`, in milliseconds. -/
def pause (x : Exchange σ) (now idle : Nat) : Nat :=
  match x.nextExpiry? with
  | some at_ => min (at_ - now) idle
  | none => idle

/-- The longest sleep between two looks at the timers. -/
def idlePause (x : Exchange σ) : Nat := max x.config.workers.tickerIdleMs 1

/-- Look at the timers once. The answer is how long to sleep after it. -/
def tick (x : Exchange σ) (idle : Nat) : Exchange σ × Nat :=
  let now := x.office.clock.now
  let x := (x.expireDue now).1
  (x, x.pause now idle)

/-! ## reports -/

/-- The states of all slots, one character each. -/
def statusLine (x : Exchange σ) : String := String.ofList (x.slots.map (·.state.code))

/-- The number of slots in a state. -/
def countState (x : Exchange σ) (s : SlotState) : Nat := x.slots.countP (·.state == s)

/-- The use of slots and segments in words. -/
def snapshot (x : Exchange σ) : String :=
  let counts := SlotState.all.map fun s => s!"{s.label}={x.countState s}"
  s!"generation {x.generation}: slots={x.slotCount} " ++ Text.joined " " counts ++ "\n" ++
    x.ledger.segments.report

/-- Begin a new period of counting. -/
def newPeriod (x : Exchange σ) : Exchange σ :=
  { x with ledger := { x.ledger with segments := x.ledger.segments.newPeriod } }

/-! ## the end -/

/-- End all calls and take all slots out of service. The answer is the number
of calls there were. -/
def shutdown (x : Exchange σ) : Exchange σ × Nat :=
  (x.postAll .shutdown x.slotIds, x.activeCalls)

/-- Take over the records that are handed in. Only the first who asks gets them. -/
def takeQueue (x : Exchange σ) : Exchange σ × Bool :=
  ({ x with queueTaken := true }, !x.queueTaken)

end Switchboard.Exchange
