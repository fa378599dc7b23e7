/-!
# Switchboard.Document

Trees of values, as data formats write them.

1. Numbers that are not whole and dates are told apart from other values, but
   what they say is not kept: no setting of this library is one.
2. A writer gives the tree that describes a value. A reader takes a tree and
   gives the value it describes, or nothing.
-/

namespace Switchboard

/-- A value of a data format. The keys of a table are different. -/
inductive Document where
  | null
  | bool (value : Bool)
  | integer (value : Int)
  | real
  | moment
  | text (value : String)
  | list (items : List Document)
  | table (entries : List (String × Document))
deriving Repr, Inhabited

namespace Document

/-! ## writing -/

/-- A number. -/
def ofNat (n : Nat) : Document := .integer n

/-- A value that may be absent. -/
def ofOption {α : Type} (write : α → Document) : Option α → Document
  | some a => write a
  | none => .null

/-- A list of values. -/
def ofList {α : Type} (write : α → Document) (items : List α) : Document :=
  .list (items.map write)

/-! ## single values -/

/-- A whole number below a bound. -/
def nat? (bound : Nat) : Document → Option Nat
  | .integer n => if 0 ≤ n ∧ n < bound then some n.toNat else none
  | _ => none

/-- A number of 64 bits. -/
def word? (d : Document) : Option Nat := nat? 18446744073709551616 d

/-- A truth value. -/
def bool? : Document → Option Bool
  | .bool b => some b
  | _ => none

/-- A text. -/
def text? : Document → Option String
  | .text s => some s
  | _ => none

/-! ## values made of others -/

/-- A value that may be left out. -/
def optional? {α : Type} (read : Document → Option α) : Document → Option (Option α)
  | .null => some none
  | d => (read d).map some

/-- A list of values. -/
def list? {α : Type} (read : Document → Option α) : Document → Option (List α)
  | .list items => items.mapM read
  | _ => none

/-! ## settings -/

/-- Named values. -/
abbrev Settings := List (String × Document)

/-- The named values of a table. -/
def settings? : Document → Option Settings
  | .table entries => some entries
  | _ => none

/-- A setting with a default. -/
def Settings.get {α : Type} (s : Settings) (name : String) (read : Document → Option α)
    (default : α) : Option α :=
  match s.lookup name with
  | none => some default
  | some d => read d

/-- A setting that must be given. -/
def Settings.need {α : Type} (s : Settings) (name : String) (read : Document → Option α) :
    Option α :=
  (s.lookup name).bind read

end Document

end Switchboard
