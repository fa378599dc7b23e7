import Switchboard.Interpreter.Step
import Switchboard.Seconds
import Switchboard.Slot.Basic

/-!
# Switchboard.Slot.Run

Running the script of a call.

1. Slots know three commands: `sleep` pauses the script for a number of
   seconds, `hangup` ends it, and `log` sends a message. All other commands go
   to the device.
2. Steps are taken until the script ends, or pauses while its device is armed
   with what it needs, but no more than one turn allows; then the script goes
   on after a short pause.
3. The device is armed after a step that leaves the script with other needs.
   The next step follows at once, even if the script wanted to pause.
-/

namespace Switchboard

/-! ## commands -/

/-- What executing a command has led to: the device, and besides it the pause
wanted, the message sent, and the command that went to the device. -/
structure Errand (σ : Type) where
  device : σ
  wake : Option Nanoseconds
  said : Option String
  passedOn : Option Order

namespace Errand

variable {σ : Type}

/-- Before a command is executed. -/
def start (device : σ) : Errand σ := ⟨device, none, none, none⟩

/-- Pause for the number of seconds that the first argument says. -/
def sleep (args : List String) (w : Errand σ) : Option Action × Errand σ :=
  let text := Text.joined " " args
  match (args.head?.map Seconds.parse).getD .invalid with
  | .span wake => (some .suspend, { w with wake := some wake })
  | .tooLong => (some .abort, w)
  | .invalid => (some (.fail s!"invalid duration '{text}'"), w)

/-- Execute a command. -/
def execute (a : Adapter σ) (command : String) (args : List String) (w : Errand σ) :
    Option Action × Errand σ :=
  match command with
  | "sleep" => sleep args w
  | "hangup" => (some (.exit "hangup"), w)
  | "log" => (some .proceed, { w with said := some (Text.joined " " args) })
  | _ =>
    let (action, device) := a.execute command args w.device
    (action, { w with device, passedOn := some (.execute command args) })

/-- The host of the scripts on a slot. -/
def host (a : Adapter σ) : Host (Errand σ) := ⟨execute a⟩

end Errand

/-- The commands that slots know, all of which need nothing. -/
def slotCommands : Commands := [("sleep", 0), ("hangup", 0), ("log", 0)]

namespace Station

variable {σ : Type}

/-! ## one step -/

/-- What a step of the script asks for: whether to go on, and a pause. -/
structure Turn where
  signal : Interpreter.Signal
  wake : Option Nanoseconds
deriving Repr, DecidableEq

/-- The messages that a step has led to. -/
def stepNotices (slot : SlotId) (said : Option String) (report : Option Interpreter.Report) :
    List Notice :=
  (said.map (Notice.said slot)).toList ++ (report.map Notice.fault).toList

/-- Take one step of the script. -/
def step (o : Office σ) (x : Station σ) : Station σ × Turn :=
  let r := x.slot.interpreter.step (Errand.host o.adapter) (.start x.slot.device)
  let ledger := x.ledger.notes (stepNotices x.slot.id r.world.said r.report)
  let ledger := match r.world.passedOn with
    | some passedOn => ledger.order x.slot.id passedOn
    | none => ledger
  ({ slot := { x.slot with interpreter := r.state, device := r.world.device }, ledger },
    ⟨r.signal, r.world.wake⟩)

/-! ## one turn -/

/-- Why a call ended with its script. -/
def endReason (s : Interpreter) : String :=
  match s.exitReason? with
  | some (.host reason) => reason
  | some (.error text) => s!"error: {text}"
  | _ => "exit"

/-- The work is broken off for good. -/
def breakOff (x : Station σ) : Station σ := { x with ledger := { x.ledger with broken := true } }

/-- The script has ended, and the call with it. -/
def endCall (o : Office σ) (x : Station σ) : Station σ :=
  (x.hangUp o).beginRelease o (endReason x.slot.interpreter)

/-- Wait for as long as the script asks, or until something happens. -/
def await (o : Office σ) (wake : Option Nanoseconds) (x : Station σ) : Station σ :=
  match wake with
  | some delay => x.arm o delay
  | none => x.disarm

/-- Take up to a number of steps. -/
def runFor (o : Office σ) : Nat → Station σ → Station σ
  | 0, x => x.arm o o.engine.stepInterval
  | n + 1, x =>
    let (x, turn) := x.step o
    let mask := x.slot.interpreter.mask
    if turn.signal = .broke then x.breakOff
    else if !x.slot.interpreter.isRunning then x.endCall o
    else if mask != x.slot.armedMask then runFor o n (x.armDevice o mask)
    else if turn.signal = .proceed then runFor o n x
    else x.await o turn.wake

/-- Run the script for one turn. -/
def run (o : Office σ) (x : Station σ) : Station σ := runFor o o.engine.stepsPerTick x

end Station

end Switchboard
