import Switchboard.Script.Command

/-!
# Switchboard.Interpreter.Frame

Activation records. A frame says which line of which header is executed, why
the frame was pushed, and which resources the chain of calls below it needs.
-/

namespace Switchboard

/-- Why a frame was pushed. -/
inductive FrameKind where
  /-- The script itself; `exit` and `return` end here. -/
  | base
  /-- A call by `gosub`; of the places listed, this one was taken. -/
  | gosub (destination : Nat)
  /-- A call by `invoke`. -/
  | invoke
  /-- A loop whose first line is `opener`. -/
  | loop (opener : Nat)
deriving Repr, DecidableEq

/-- An activation record. `index` counts the passes of a loop, and `trapped`
tells that an error handler has control. -/
structure Frame where
  header : Nat
  line : Nat
  kind : FrameKind
  index : Nat
  mask : Mask
  trapped : Bool
deriving Repr, DecidableEq

namespace Frame

/-- The first frame of a script. -/
def base (header : Nat) (mask : Mask) : Frame := ⟨header, 0, .base, 0, mask, false⟩

/-- The first line of the loop that a frame belongs to. -/
def opener? (f : Frame) : Option Nat :=
  match f.kind with
  | .loop opener => some opener
  | _ => none

/-- Whether a frame belongs to a loop. -/
def isLoop (f : Frame) : Bool := f.opener?.isSome

/-- Whether `return` ends at this frame. -/
def isCall (f : Frame) : Bool :=
  match f.kind with
  | .gosub _ | .invoke => true
  | _ => false

end Frame

end Switchboard
