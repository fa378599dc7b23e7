import Switchboard.Script.Fault
import Switchboard.Text.Extent

/-!
# Switchboard.Symbols

The symbols of one call.

1. A symbol belongs to one header or, without a scope, to the whole call. A
   symbol of a header hides one of the call with the same name.
2. A symbol holds a text of at most `size` bytes; longer texts are cut.
3. At most `limit` symbols exist at a time; one more is a fault and changes
   nothing.
-/

namespace Switchboard

/-- The header that a symbol belongs to, by its place in the image; none for
the symbols of the whole call. -/
abbrev Scope := Option Nat

/-- A named text of limited size. -/
structure Symbol where
  name : String
  scope : Scope
  size : Nat
  value : String
deriving Repr, DecidableEq

/-- The symbol with a new value, cut to its size. -/
def Symbol.store (s : Symbol) (value : String) : Symbol :=
  { s with value := Text.cutTo s.size value }

/-- The symbols of a call, oldest first, and their limits. -/
structure Symbols where
  limit : Nat
  defaultSize : Nat
  entries : List Symbol
deriving Repr, DecidableEq

namespace Symbols

/-- No symbols. -/
def empty (limit defaultSize : Nat) : Symbols := ⟨limit, defaultSize, []⟩

/-- The number of symbols. -/
def size (s : Symbols) : Nat := s.entries.length

/-- Whether there are no symbols. -/
def isEmpty (s : Symbols) : Bool := s.entries.isEmpty

/-! ## looking up -/

/-- The symbol declared with this name in exactly this scope. -/
def declared? (s : Symbols) (scope : Scope) (name : String) : Option Symbol :=
  s.entries.find? fun e => e.scope == scope && e.name == name

/-- The scope in which `name` is seen from `scope`: the scope itself if the
name is declared there, else that of the whole call. -/
def owner (s : Symbols) (scope : Scope) (name : String) : Scope :=
  if (s.declared? scope name).isSome then scope else none

/-- The symbol that `name` denotes in `scope`. -/
def lookup? (s : Symbols) (scope : Scope) (name : String) : Option Symbol :=
  s.declared? (s.owner scope name) name

/-! ## changing -/

/-- Change the symbol declared with this name in exactly this scope. -/
def modify (s : Symbols) (scope : Scope) (name : String) (f : Symbol → Symbol) : Symbols :=
  { s with entries := s.entries.map fun e => if e.scope == scope && e.name == name then f e else e }

/-- Add a symbol that holds the empty text. -/
def create (s : Symbols) (scope : Scope) (name : String) (size : Nat) : Except Fault Symbols :=
  if s.limit ≤ s.size then .error (.symbolSpaceExhausted s.limit)
  else .ok { s with entries := s.entries ++ [⟨name, scope, size, ""⟩] }

/-- Declare a symbol in exactly this scope. One that exists keeps its size
and its value. -/
def define (s : Symbols) (scope : Scope) (name : String) (size : Option Nat) :
    Except Fault Symbols :=
  if (s.declared? scope name).isSome then .ok s
  else s.create scope name (size.getD s.defaultSize)

/-- Give the symbol that `name` denotes a value; if there is none, the call
gets one. -/
def assign (s : Symbols) (scope : Scope) (name value : String) : Except Fault Symbols :=
  let owner := s.owner scope name
  (s.define owner name none).map (·.modify owner name (·.store value))

/-- Give the symbol of exactly this scope a value, declaring it if need be. -/
def assignScoped (s : Symbols) (scope : Scope) (name value : String) : Except Fault Symbols :=
  (s.define scope name none).map (·.modify scope name (·.store value))

/-- Empty the symbol that `name` denotes, if there is one. -/
def clear (s : Symbols) (scope : Scope) (name : String) : Symbols :=
  s.modify (s.owner scope name) name fun e => { e with value := "" }

/-- Drop every symbol. -/
def reset (s : Symbols) : Symbols := { s with entries := [] }

end Symbols

end Switchboard
