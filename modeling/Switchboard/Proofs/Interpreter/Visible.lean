import Switchboard.Interpreter.Step
import Switchboard.Proofs.Text.Pieces

/-!
# Switchboard.Proofs.Interpreter.Visible

What the commands of a line can see.

1. Two interpreters are `Alike` if they agree on the symbols, the header whose
   symbols are seen, the pass of the innermost loop, the number of frames, the
   last error and the limits.  The lines at which their frames stand may differ.
2. Arguments, conditions and new values are the same for both.
3. `update?` is what a command makes of the symbols, for the commands that do
   nothing else.
4. A list has the pieces into which its text is split (`piecesOf_eq`).
-/

namespace Switchboard.Interpreter

/-- Two interpreters whose commands see the same. -/
structure Alike (s t : Interpreter) : Prop where
  limits : s.limits = t.limits
  symbols : s.symbols = t.symbols
  scope : s.scope = t.scope
  loopIndex : s.loopIndex = t.loopIndex
  depth : s.depth = t.depth
  lastError : s.lastError = t.lastError

/-! ## new symbols -/

/-- The symbols after an assignment of the value of an expression. -/
def expressed (s : Interpreter) (target : String) (op : Decimal.Assignment)
    (expression : List Argument) (decimals : Nat) : Except Fault Symbols :=
  let current := (s.symbol? target).getD ""
  if op = .ifEmpty ∧ current ≠ "" then .ok s.symbols
  else do
    let fragments ← s.values expression
    let value ← (Decimal.evaluate fragments decimals).mapError .arithmetic
    let result ← (Decimal.assign current op value decimals).mapError .arithmetic
    s.symbols.assign s.scope target result.render

/-- The symbols after a declaration. -/
def declared (s : Interpreter) (name : String) (size : Option Nat) (args : List Argument) :
    Except Fault Symbols := do
  let text ← s.concat args
  let symbols ← s.symbols.define s.scope name size
  if args.isEmpty then return symbols else symbols.assignScoped s.scope name text

/-- What a command makes of the symbols, if it does nothing else. -/
def update? (s : Interpreter) : Command → Option (Except Fault Symbols)
  | .set target args => some (s.concat args >>= s.symbols.assign s.scope target)
  | .clear targets => some (.ok (targets.foldl (fun t name => t.clear s.scope name) s.symbols))
  | .declare name size args => some (s.declared name size args)
  | .expr target op expression => some (s.expressed target op expression s.limits.decimals)
  | .index target expression => some (s.expressed target .set expression 0)
  | _ => none

/-! ## pieces -/

/-- The pieces of a list are what its text is split into. -/
theorem piecesOf_eq (text : String) (delimiter : Char) : piecesOf text delimiter =
    (if text.isEmpty then [] else text.toList.splitOn delimiter).map String.ofList := by
  rw [piecesOf, Text.pieces_eq_splitOn]
  split <;> rfl

/-! ## what commands see -/

namespace Alike

variable {s t : Interpreter}

/-- States that are alike have the same symbols. -/
theorem symbol? (h : Alike s t) (name : String) : s.symbol? name = t.symbol? name := by
  simp only [Interpreter.symbol?, h.symbols, h.scope]

/-- They have the same built-in symbols. -/
theorem builtin? (h : Alike s t) (name : String) : s.builtin? name = t.builtin? name := by
  unfold Interpreter.builtin?
  rw [h.loopIndex, h.lastError, h.depth]

/-- An argument has the same text for both. -/
theorem value (h : Alike s t) (arg : Argument) : s.value arg = t.value arg := by
  induction arg with
  | literal text => rfl
  | symbol name => simp only [Interpreter.value, h.symbol?, h.builtin?]
  | label name => rfl
  | event name => rfl
  | keyword name arg ih => simp only [Interpreter.value, ih]

/-- They give arguments the same values. -/
theorem values (h : Alike s t) (args : List Argument) : s.values args = t.values args := by
  induction args with
  | nil => rfl
  | cons arg rest ih => simp only [Interpreter.values, h.value, ih]

/-- They join them to the same text. -/
theorem concat (h : Alike s t) (args : List Argument) : s.concat args = t.concat args := by
  simp only [Interpreter.concat, h.values]

/-- They test alike. -/
theorem test (h : Alike s t) (test : Test) : s.test test = t.test test := by
  cases test with
  | compare lhs op rhs => simp only [Interpreter.test, h.value]
  | empty arg => cases arg <;> simp only [Interpreter.test, h.value, h.symbol?]
  | defined name => simp only [Interpreter.test, h.symbol?]
  | value arg => simp only [Interpreter.test, h.value]

/-- A condition has the same result for both. -/
theorem condition (h : Alike s t) (cond : Condition) : s.condition cond = t.condition cond := by
  unfold Interpreter.condition
  generalize true = result
  induction cond generalizing result with
  | nil => rfl
  | cons clause rest ih => simp only [Interpreter.chain, h.test, ih]

/-- They repeat alike. -/
theorem repeatDue (h : Alike s t) (count : Argument) : s.repeatDue count = t.repeatDue count := by
  simp only [Interpreter.repeatDue, h.value, h.loopIndex]

/-- They evaluate alike. -/
theorem expressed (h : Alike s t) (target : String) (op : Decimal.Assignment)
    (expression : List Argument) (decimals : Nat) :
    s.expressed target op expression decimals = t.expressed target op expression decimals := by
  simp only [Interpreter.expressed, h.symbol?, h.values, h.symbols, h.scope]

/-- They declare alike. -/
theorem declared (h : Alike s t) (name : String) (size : Option Nat) (args : List Argument) :
    s.declared name size args = t.declared name size args := by
  simp only [Interpreter.declared, h.concat, h.symbols, h.scope]

/-- A command makes the same of the symbols for both. -/
theorem update? (h : Alike s t) (command : Command) : s.update? command = t.update? command := by
  cases command with
  | set target args => simp only [Interpreter.update?, h.concat, h.symbols, h.scope]
  | clear targets => simp only [Interpreter.update?, h.symbols, h.scope]
  | declare name size args => simp only [Interpreter.update?, h.declared]
  | expr target op expression => simp only [Interpreter.update?, h.expressed, h.limits]
  | index target expression => simp only [Interpreter.update?, h.expressed]
  | _ => rfl

end Alike

/-! ## commands that change symbols -/

/-- An expression that is assigned changes the symbols only. -/
theorem assignExpression_eq (s : Interpreter) (target : String) (op : Decimal.Assignment)
    (expression : List Argument) (decimals : Nat) :
    s.assignExpression target op expression decimals =
      (s.expressed target op expression decimals).map fun symbols => { s with symbols } := by
  unfold assignExpression expressed
  dsimp only
  split
  · rfl
  · change _ = (fun symbols => { s with symbols }) <$> _
    simp only [map_bind, bind_pure_comp]

/-- So does a declaration. -/
theorem declare_eq (s : Interpreter) (name : String) (size : Option Nat) (args : List Argument) :
    s.declare name size args =
      (s.declared name size args).map fun symbols => { s with symbols } := by
  unfold declare declared
  change _ = (fun symbols => { s with symbols }) <$> _
  simp only [map_bind]
  split
  · rfl
  · simp only [bind_pure_comp]

/-- A result may be mapped before what comes after it. -/
theorem attempt_map {α β : Type} (s : Interpreter) (r : Except Fault α) (f : α → β)
    (k : β → Outcome) : attempt s (r.map f) k = attempt s r fun a => k (f a) := by
  cases r <;> rfl

/-- A line that changes symbols stores them and goes on, or is at fault and
leaves everything as it was. -/
theorem executeLine_of_update? {s : Interpreter} {command : Command}
    {result : Except Fault Symbols} (h : s.update? command = some result) (image : Image)
    (header : Header) (at_ : Nat) :
    s.executeLine image header at_ command =
      attempt s result fun symbols => .next { s with symbols }.advance := by
  cases command with
  | set target args =>
      obtain rfl := Option.some.inj h
      rfl
  | clear targets =>
      obtain rfl := Option.some.inj h
      rfl
  | declare name size args =>
      obtain rfl := Option.some.inj h
      rw [executeLine, declare_eq, attempt_map]
  | expr target op expression =>
      obtain rfl := Option.some.inj h
      rw [executeLine, assignExpression_eq, attempt_map]
  | index target expression =>
      obtain rfl := Option.some.inj h
      rw [executeLine, assignExpression_eq, attempt_map]
  | _ => contradiction

end Switchboard.Interpreter
