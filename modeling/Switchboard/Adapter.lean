import Switchboard.Host
import Switchboard.Script.Command

/-!
# Switchboard.Adapter

The devices behind slots.

1. A device is armed with the resources that the script of a call needs, and
   with none when the call is over.
2. At the end of a call a device either hangs up or, if the other side is gone
   already, disconnects.
3. It executes the commands that slots do not know themselves.
4. The null adapter stands for no device at all.
-/

namespace Switchboard

/-- A kind of device, whose state has the type `σ`. -/
structure Adapter (σ : Type) where
  arm : Mask → σ → σ
  disconnect : σ → σ
  hangup : σ → σ
  execute : String → List String → σ → Option Action × σ

/-- No device: nothing happens, and no command is known. -/
def Adapter.null (σ : Type) : Adapter σ := ⟨fun _ w => w, id, id, fun _ _ w => (none, w)⟩

/-- The device that executes what a host does, and takes no notice of the rest. -/
def Adapter.ofHost {σ : Type} (h : Host σ) : Adapter σ := ⟨fun _ w => w, id, id, h.execute⟩

/-- What a device was asked to do. -/
inductive Order where
  | arm (mask : Mask)
  | disconnect
  | hangup
  | execute (command : String) (args : List String)
deriving Repr, DecidableEq

end Switchboard
