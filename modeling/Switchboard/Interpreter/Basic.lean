import Switchboard.Interpreter.Frame
import Switchboard.Script.Image
import Switchboard.Symbols

/-!
# Switchboard.Interpreter.Basic

The state of an interpreter.

1. An interpreter is detached, runs an image, or holds one that has ended.
2. Its frames are kept innermost first. A script that has ended, for
   whatever reason, keeps its first frame alone.
3. Names of symbols are read as the header of the innermost frame sees them.
-/

namespace Switchboard

/-- Where scripts begin unless another header is named. -/
def defaultEntry : String := "@main"

/-- What a script may use up. -/
structure Limits where
  maxFrames : Nat
  maxSymbols : Nat
  symbolSize : Nat
  decimals : Nat
deriving Repr, DecidableEq

/-- The limits that hold unless others are set. -/
def Limits.default : Limits := ⟨32, 256, 64, 2⟩

/-- Why a script ended. -/
inductive ExitReason where
  | exit
  | host (reason : String)
  | error (text : String)
deriving Repr, DecidableEq

/-- Whether there is a script, and whether it still runs. -/
inductive Status where
  | detached
  | running
  | exited (reason : ExitReason)
deriving Repr, DecidableEq

/-- An interpreter; the innermost frame is first. -/
structure Interpreter where
  limits : Limits
  image : Option Image
  frames : List Frame
  symbols : Symbols
  status : Status
  lastError : Option String
deriving Repr, DecidableEq

namespace Interpreter

/-- An interpreter without a script. -/
def new (limits : Limits) : Interpreter :=
  ⟨limits, none, [], .empty limits.maxSymbols limits.symbolSize, .detached, none⟩

/-! ## observing -/

/-- Whether there is a script. -/
def isAttached (s : Interpreter) : Bool := s.image.isSome

/-- Whether a script runs. -/
def isRunning (s : Interpreter) : Bool := s.status == .running

/-- Why the script ended, if it has. -/
def exitReason? (s : Interpreter) : Option ExitReason :=
  match s.status with
  | .exited reason => some reason
  | _ => none

/-- The number of frames. -/
def depth (s : Interpreter) : Nat := s.frames.length

/-- The innermost frame. -/
def top? (s : Interpreter) : Option Frame := s.frames.head?

/-- The resources that the chain of calls needs. -/
def mask (s : Interpreter) : Mask := (s.top?.map (·.mask)).getD 0

/-- The header whose symbols are seen. -/
def scope (s : Interpreter) : Scope := s.top?.map (·.header)

/-- The value of a symbol. -/
def symbol? (s : Interpreter) (name : String) : Option String :=
  (s.symbols.lookup? s.scope name).map (·.value)

/-! ## the life of a script -/

/-- Let go of the script and of all it has left. -/
def detach (s : Interpreter) : Interpreter :=
  { s with
    image := none
    frames := []
    symbols := s.symbols.reset
    status := .detached
    lastError := none }

/-- Begin a script at a header. Without that header nothing changes; a
script that is there already is let go first. -/
def attach (s : Interpreter) (image : Image) (entry : Option String) : Interpreter × Bool :=
  match image.indexOf? (entry.getD defaultEntry) with
  | none => (s, false)
  | some i =>
    let s := if s.isAttached then s.detach else s
    ({ s with
      image := some image
      frames := .base i (image.maskAt i) :: s.frames
      status := .running }, true)

/-- End the script, keeping the first frame. -/
def finish (s : Interpreter) (reason : ExitReason) : Interpreter :=
  { s with
    frames := s.frames.drop (s.frames.length - 1)
    status := .exited reason }

/-- Give a symbol of the whole call a value. -/
def setSymbol (s : Interpreter) (name value : String) : Except Fault Interpreter :=
  (s.symbols.assign none name value).map fun symbols => { s with symbols }

/-! ## moving -/

/-- Change the innermost frame. -/
def modifyTop (s : Interpreter) (f : Frame → Frame) : Interpreter :=
  match s.frames with
  | [] => s
  | top :: below => { s with frames := f top :: below }

/-- Go to the next line. -/
def advance (s : Interpreter) : Interpreter := s.modifyTop fun f => { f with line := f.line + 1 }

/-- Go to a line of the same header. -/
def jump (s : Interpreter) (line : Nat) : Interpreter := s.modifyTop fun f => { f with line }

/-- Drop the innermost frame. -/
def pop (s : Interpreter) : Interpreter := { s with frames := s.frames.tail }

/-- Add a frame, if there is room for it. -/
def push (s : Interpreter) (f : Frame) : Except Fault Interpreter :=
  if s.limits.maxFrames ≤ s.depth then .error (.stackOverflow (s.depth + 1))
  else .ok { s with frames := f :: s.frames }

/-- The frames from the innermost one that belongs to no loop. The last
frame stays whatever it is. -/
def outsideLoops : List Frame → List Frame
  | f :: g :: below => if f.isLoop then outsideLoops (g :: below) else f :: g :: below
  | frames => frames

/-- Drop the frames of the loops around the current line. -/
def leaveLoops (s : Interpreter) : Interpreter := { s with frames := outsideLoops s.frames }

end Interpreter

end Switchboard
