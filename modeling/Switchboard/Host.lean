/-!
# Switchboard.Host

Applications behind a script.

1. A host executes the commands that the language does not know, and may
   keep a state of its own.
2. It answers with an action, or not at all if it does not know the command.
3. `silent` is the host that knows no command.
-/

namespace Switchboard

/-- What a host asks the script to do after a command. `abort` means that
the host broke down over the command and gave no answer. -/
inductive Action where
  | proceed
  | suspend
  | exit (reason : String)
  | fail (reason : String)
  | abort
deriving Repr, DecidableEq

/-- An application with a state of type `σ`. -/
structure Host (σ : Type) where
  execute : String → List String → σ → Option Action × σ

/-- The host that knows no command. -/
def Host.silent (σ : Type) : Host σ := ⟨fun _ _ w => (none, w)⟩

end Switchboard
