import Switchboard.Slot.Run

/-!
# Switchboard.Slot.Post

What slots do.

```
           enable               allocate
 offline ----------> idle ------------------> scripting <--- timeout, signal
    ^      disable    ^                           |
    +-----------------+                           | end of script, drop, hangup
    |                 |   release, timeout        v
    +---- disable ----+---------------------- releasing
```

1. An event either is taken, which may change the slot, or is rejected, which
   changes nothing.
2. A signal is taken by a running script that handles it.
3. A call begins on a free slot if its script can be found and its data fits
   into the script's symbols.
-/

namespace Switchboard.Station

variable {σ : Type}

/-! ## events -/

/-- An event for a slot that is out of service. -/
def postOffline (e : Event) (x : Station σ) : Station σ × Outcome :=
  match e with
  | .enable =>
    let x := x.setState .idle
    ({ x with ledger := { x.ledger with idle := (x.ledger.idle.insert x.slot.id).1 } }, .handled)
  | .shutdown => (x, .handled)
  | _ => (x, .rejected)

/-- Strike a slot off the lists of free and reserved slots. -/
def unlist (x : Station σ) : Station σ :=
  { x with ledger := { x.ledger with
      idle := (x.ledger.idle.remove x.slot.id).1
      reservations := x.ledger.reservations.release x.slot.id } }

/-- An event for a free slot. -/
def postIdle (e : Event) (x : Station σ) : Station σ × Outcome :=
  match e with
  | .disable | .shutdown => (x.unlist.setState .offline, .handled)
  | _ => (x, .rejected)

/-- An event for a slot that runs a script. -/
def postScripting (o : Office σ) (e : Event) (x : Station σ) : Station σ × Outcome :=
  match e with
  | .timeout => (x.run o, .handled)
  | .signal name =>
    let (interpreter, taken) := x.slot.interpreter.trigger name
    if taken then ({ x with slot := { x.slot with interpreter } }.run o, .handled)
    else (x, .rejected)
  | .drop | .hangup => ((x.disconnect o).beginRelease o e.name, .handled)
  | .disable | .shutdown => (((x.hangUp o).setReason e.name).finish o .offline, .handled)
  | .enable | .release => (x, .rejected)

/-- An event for a slot whose call is over. -/
def postReleasing (o : Office σ) (e : Event) (x : Station σ) : Station σ × Outcome :=
  match e with
  | .release | .timeout => (x.finish o .idle, .released ⟨x.slot.id, x.slot.sequence⟩)
  | .drop | .hangup => (x, .handled)
  | .disable | .shutdown => (x.finish o .offline, .handled)
  | .enable | .signal _ => (x, .rejected)

/-- Post an event. -/
def post (o : Office σ) (e : Event) (x : Station σ) : Station σ × Outcome :=
  match x.slot.state with
  | .offline => x.postOffline e
  | .idle => x.postIdle e
  | .scripting => x.postScripting o e
  | .releasing => x.postReleasing o e

/-- Post a timeout if the timer has run out at `now`. -/
def expire (o : Office σ) (now : Nat) (x : Station σ) : Station σ × Option Outcome :=
  let (timer, due) := x.slot.timer.takeDue now
  if due then
    let (x, outcome) := { x with slot := { x.slot with timer } }.post o .timeout
    (x, some outcome)
  else (x, none)

/-! ## calls -/

/-- The symbols that a script begins with. -/
def seeds (slot : SlotId) (c : Call) : List (String × String) :=
  [("cid", c.cid), ("source", c.source), ("target", c.target), ("script", c.script),
    ("sequence", toString c.sequence), ("slot", toString slot)]

/-- Give an interpreter its first symbols. -/
def seed (s : Interpreter) : List (String × String) → Except Fault Interpreter
  | [] => .ok s
  | (name, value) :: rest => do
    let s ← s.setSymbol name value
    seed s rest

/-- The call that a slot carries from now on. -/
def newCall (o : Office σ) (setup : CallSetup) (cid entry : String) (sequence : Nat) : Call :=
  ⟨cid, sequence, setup.source, setup.target, entry, setup.payload, o.clock.universal,
    o.clock.now, ""⟩

/-- Enter a call into the books. -/
def book (c : Call) (x : Station σ) : Station σ :=
  let id := x.slot.id
  let ledger := { x.ledger with idle := (x.ledger.idle.remove id).1 }.enterCall c.cid id
  { x with ledger := { ledger with
      segments := ledger.segments.callStarted id
      reservations := ledger.reservations.release id } }

/-- Enter a call on a free slot, whose script is at its first line then. The
answer is the number of the call. A call that fails leaves the slot free,
though the number may be used up. -/
def accept (o : Office σ) (setup : CallSetup) (x : Station σ) : Station σ × Except Error Nat :=
  if x.slot.state != .idle then
    (x, .error (.rejected x.slot.id "allocate" x.slot.state))
  else
    let entry := setup.script.getD o.entry
    let (interpreter, found) := x.slot.interpreter.attach o.scripts.image (some entry)
    if !found then (x, .error (.scriptNotFound entry))
    else
      let sequence := x.slot.sequence + 1
      let cid := setup.cid.getD (o.identities x.ledger.identities)
      let ledger := x.ledger.identify setup.cid
      let c := newCall o setup cid entry sequence
      match seed interpreter (seeds x.slot.id c) with
      | .error fault =>
        let slot := { x.slot with sequence, interpreter := interpreter.detach }
        (⟨slot, ledger⟩, .error (.script fault))
      | .ok interpreter =>
        let slot := { x.slot with sequence, interpreter, call := some c }
        let x := ((⟨slot, ledger⟩ : Station σ).book c).setState .scripting
        (x.record o .start, .ok sequence)

/-- Start a call on a free slot, and run its script for one turn. -/
def allocate (o : Office σ) (setup : CallSetup) (x : Station σ) : Station σ × Except Error Nat :=
  let (x, answer) := x.accept o setup
  match answer with
  | .ok _ => (x.run o, answer)
  | .error _ => (x, answer)

end Switchboard.Station
