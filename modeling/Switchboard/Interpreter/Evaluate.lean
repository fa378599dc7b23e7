import Switchboard.Interpreter.Basic

/-!
# Switchboard.Interpreter.Evaluate

What arguments, tests and destinations mean in the state of a script.

1. `%index`, `%error` and `%depth` are built in; a symbol of the same name
   hides them, and `-empty` and `-defined` do not know them.
2. A chain of clauses is evaluated to its end, from left to right.
3. A destination is the first of those listed that exists; an argument that
   has no value does not exist.
-/

namespace Switchboard.Interpreter

/-! ## values -/

/-- The pass of the innermost loop, counted from nought. -/
def loopIndex (s : Interpreter) : Nat :=
  ((s.frames.find? Frame.isLoop).map (·.index)).getD 0

/-- The names that every script can read. -/
def builtin? (s : Interpreter) : String → Option String
  | "index" => some (toString s.loopIndex)
  | "error" => some (s.lastError.getD "")
  | "depth" => some (toString s.depth)
  | _ => none

/-- The text that an argument stands for. -/
def value (s : Interpreter) : Argument → Except Fault String
  | .literal text => .ok text
  | .symbol name =>
    match s.symbol? name with
    | some text => .ok text
    | none =>
      match s.builtin? name with
      | some text => .ok text
      | none => .error (.symbolNotFound name)
  | .label name => .ok ("@" ++ name)
  | .event name => .ok ("^" ++ name)
  | .keyword name arg => (s.value arg).map fun text => name ++ "=" ++ text

/-- The texts of several arguments. -/
def values (s : Interpreter) : List Argument → Except Fault (List String)
  | [] => .ok []
  | arg :: rest => do
    let text ← s.value arg
    let texts ← s.values rest
    return text :: texts

/-- The texts of several arguments, joined without anything between them. -/
def concat (s : Interpreter) (args : List Argument) : Except Fault String :=
  (s.values args).map fun texts => String.join texts

/-- The texts of named arguments. -/
def bound (s : Interpreter) : List (String × Argument) → Except Fault (List (String × String))
  | [] => .ok []
  | (name, arg) :: rest => do
    let text ← s.value arg
    let others ← s.bound rest
    return (name, text) :: others

/-! ## conditions -/

/-- Texts that count as false; all others count as true. -/
def isFalse (text : String) : Bool := text.isEmpty || text == "0" || Text.alike text "false"

/-- The number a text denotes, for a test. -/
def number (text : String) : Except Fault Decimal :=
  (Decimal.parse text).mapError .arithmetic

/-- The result of a test. -/
def test (s : Interpreter) : Test → Except Fault Bool
  | .compare lhs op rhs => do
    let a ← s.value lhs
    let b ← s.value rhs
    match op with
    | .textual same => return (a == b) == same
    | .numeric relation =>
      let x ← number a
      let y ← number b
      return relation.holds (x.compare y)
  | .empty arg =>
    match arg with
    | .symbol name => .ok (((s.symbol? name).getD "").isEmpty)
    | _ => (s.value arg).map String.isEmpty
  | .defined name => .ok (s.symbol? name).isSome
  | .value arg => (s.value arg).map fun text => !isFalse text

/-- The result of a chain of clauses that follow the result so far. -/
def chain (s : Interpreter) (result : Bool) : Condition → Except Fault Bool
  | [] => .ok result
  | c :: rest => do
    let holds ← s.test c.test
    s.chain (c.join.apply result (holds != c.negate)) rest

/-- The result of a condition. -/
def condition (s : Interpreter) (cond : Condition) : Except Fault Bool := s.chain true cond

/-! ## destinations -/

/-- Where a listed destination leads: a header and a line of it. -/
structure Destination where
  header : Nat
  line : Nat
  place : Nat
deriving Repr, DecidableEq

/-- The header and line that a text names: `^event` in the current header,
anything else as the name of a header. -/
def locate? (s : Interpreter) (image : Image) (current : Header) (text : String) :
    Option (Nat × Nat) :=
  match text.toList with
  | '^' :: event =>
    (current.event? (String.ofList event)).map fun line => ((s.scope).getD 0, line)
  | _ => (image.indexOf? text).map fun i => (i, 0)

/-- The first destination that exists; `place` counts those before it. -/
def firstOf? (s : Interpreter) (image : Image) (current : Header) (place : Nat) :
    List Argument → Option Destination
  | [] => none
  | target :: rest =>
    match (s.value target).toOption.bind (s.locate? image current) with
    | some (header, line) => some ⟨header, line, place⟩
    | none => s.firstOf? image current (place + 1) rest

/-- The destination that is taken. -/
def resolve (s : Interpreter) (image : Image) (current : Header) (targets : List Argument) :
    Except Fault Destination :=
  match s.firstOf? image current 0 targets with
  | some d => .ok d
  | none => .error (.labelNotFound (Text.joined " " (targets.map Argument.text)))

end Switchboard.Interpreter
