import Switchboard.Decimal.Text

/-!
# Switchboard.Decimal.Expression

Expressions over decimals.

```
sum     ::= product (('+' | '-') product)*
product ::= unary (('*' | '/' | '#') unary)*
unary   ::= ('-' | '+') unary | number | '(' sum ')'
```

1. An expression arrives in fragments. A fragment that is a number as a
   whole, sign included, is one token; any other is scanned by itself, so
   that no token crosses from one fragment into the next.
2. Values are computed while reading, from left to right: of two faults the
   one that comes first is reported.
3. A literal is cut to the cap at once, and so is every intermediate value.
-/

namespace Switchboard.Decimal

/-! ## tokens -/

/-- The operator that a character stands for. -/
def Operator.ofChar? : Char → Option Operator
  | '+' => some .add
  | '-' => some .sub
  | '*' => some .mul
  | '/' => some .div
  | '#' => some .mod
  | _ => none

/-- Characters of a number inside an expression. -/
def isNumberChar (c : Char) : Bool := Text.isDigit c || c == '.'

/-- The tokens of one fragment, of which `cs` is still to be read. Only
spaces and tabs may stand between tokens. -/
def scan (text : String) (cs : List Char) : Except Error (List Token) :=
  match cs with
  | [] => .ok []
  | c :: rest =>
    if c = ' ' ∨ c = '\t' then scan text rest
    else if c = '(' then (scan text rest).map (.opening :: ·)
    else if c = ')' then (scan text rest).map (.closing :: ·)
    else match Operator.ofChar? c with
      | some op => (scan text rest).map (.operator op :: ·)
      | none =>
        if isNumberChar c then do
          let value ← parse (String.ofList (c :: rest.takeWhile isNumberChar))
          (scan text (rest.dropWhile isNumberChar)).map (.number value :: ·)
        else .error (.malformed (.character c text))
termination_by cs.length
decreasing_by
  all_goals simp_wf
  all_goals first
    | omega
    | have := (List.dropWhile_suffix (l := rest) isNumberChar).sublist.length_le
      omega

/-- The tokens of one fragment. -/
def tokens (fragment : String) : Except Error (List Token) :=
  match parse fragment with
  | .ok value =>
    if (Text.trim fragment.toList).isEmpty then scan fragment fragment.toList
    else .ok [.number value]
  | .error _ => scan fragment fragment.toList

/-- The tokens of all fragments in order. -/
def tokensOf : List String → Except Error (List Token)
  | [] => .ok []
  | fragment :: others => do
    let first ← tokens fragment
    let rest ← tokensOf others
    return first ++ rest

/-! ## the grammar -/

/-- A value read from the front of `ts`, and fewer tokens than before. -/
structure Read (ts : List Token) where
  value : Decimal
  rest : List Token
  shorter : rest.length < ts.length

/-- A value carried through the front of `ts`, and no more tokens than before. -/
structure Carried (ts : List Token) where
  value : Decimal
  rest : List Token
  noLonger : rest.length ≤ ts.length

/-- The operators between the terms of a sum. -/
def Operator.isAdditive : Operator → Bool
  | .add | .sub => true
  | _ => false

mutual

/-- Read a sum. -/
def sum (cap : Nat) (ts : List Token) : Except Error (Read ts) :=
  match product cap ts with
  | .error e => .error e
  | .ok first =>
    have := first.shorter
    match sumFrom cap first.value first.rest with
    | .error e => .error e
    | .ok r => .ok ⟨r.value, r.rest, by have := r.noLonger; omega⟩
termination_by (ts.length, 3)

/-- Read the terms that follow the sum `value`. -/
def sumFrom (cap : Nat) (value : Decimal) (ts : List Token) : Except Error (Carried ts) :=
  match ts with
  | .operator op :: rest =>
    if op.isAdditive then
      match product cap rest with
      | .error e => .error e
      | .ok term =>
        match value.binary op term.value cap with
        | .error e => .error e
        | .ok total =>
          have := term.shorter
          match sumFrom cap total term.rest with
          | .error e => .error e
          | .ok r => .ok ⟨r.value, r.rest, by have := r.noLonger; simp; omega⟩
    else .ok ⟨value, .operator op :: rest, Nat.le_refl _⟩
  | rest => .ok ⟨value, rest, Nat.le_refl _⟩
termination_by (ts.length, 2)

/-- Read a product. -/
def product (cap : Nat) (ts : List Token) : Except Error (Read ts) :=
  match unary cap ts with
  | .error e => .error e
  | .ok first =>
    have := first.shorter
    match productFrom cap first.value first.rest with
    | .error e => .error e
    | .ok r => .ok ⟨r.value, r.rest, by have := r.noLonger; omega⟩
termination_by (ts.length, 1)

/-- Read the factors that follow the product `value`. -/
def productFrom (cap : Nat) (value : Decimal) (ts : List Token) : Except Error (Carried ts) :=
  match ts with
  | .operator op :: rest =>
    if op.isAdditive then .ok ⟨value, .operator op :: rest, Nat.le_refl _⟩
    else
      match unary cap rest with
      | .error e => .error e
      | .ok factor =>
        match value.binary op factor.value cap with
        | .error e => .error e
        | .ok total =>
          have := factor.shorter
          match productFrom cap total factor.rest with
          | .error e => .error e
          | .ok r => .ok ⟨r.value, r.rest, by have := r.noLonger; simp; omega⟩
  | rest => .ok ⟨value, rest, Nat.le_refl _⟩
termination_by (ts.length, 0)

/-- Read a signed operand: a number, or a sum in parentheses. A negated
value keeps its places even where they exceed the cap. -/
def unary (cap : Nat) (ts : List Token) : Except Error (Read ts) :=
  match ts with
  | [] => .error (.malformed .unfinished)
  | .operator .sub :: rest =>
    match unary cap rest with
    | .error e => .error e
    | .ok r =>
      match zero.binary .sub r.value (max cap r.value.scale) with
      | .error e => .error e
      | .ok value => .ok ⟨value, r.rest, by have := r.shorter; simp; omega⟩
  | .operator .add :: rest =>
    match unary cap rest with
    | .error e => .error e
    | .ok r => .ok ⟨r.value, r.rest, by have := r.shorter; simp; omega⟩
  | .number literal :: rest =>
    match literal.capped cap with
    | .error e => .error e
    | .ok value => .ok ⟨value, rest, by simp⟩
  | .opening :: rest =>
    match sum cap rest with
    | .error e => .error e
    | .ok r =>
      match h : r.rest with
      | .closing :: after =>
        .ok ⟨r.value, after, by have := r.shorter; simp only [h, List.length_cons] at this ⊢; omega⟩
      | _ => .error (.malformed .unclosed)
  | t :: _ => .error (.malformed (.token t))
termination_by (ts.length, 0)

end

/-! ## values -/

/-- The places that a setting of `decimals` allows. -/
def capOf (decimals : Nat) : Nat := min decimals maxScale

/-- The value of a list of tokens, all of which must be used. -/
def evaluateTokens (ts : List Token) (cap : Nat) : Except Error Decimal :=
  if ts.isEmpty then .error (.malformed .empty)
  else match sum cap ts with
    | .error e => .error e
    | .ok r => if r.rest.isEmpty then .ok r.value else .error (.malformed .trailing)

/-- The value of an expression given in fragments. -/
def evaluate (fragments : List String) (decimals : Nat) : Except Error Decimal := do
  let ts ← tokensOf fragments
  evaluateTokens ts (capOf decimals)

/-! ## assignment -/

/-- How `expr` combines the value of an expression with its target. -/
inductive Assignment where
  | set
  | update (op : Operator)
  | ifEmpty
deriving Repr, DecidableEq

/-- The written form of an assignment operator. -/
def Assignment.ofText? : String → Option Assignment
  | "=" | ":=" => some .set
  | "+=" => some (.update .add)
  | "-=" => some (.update .sub)
  | "*=" => some (.update .mul)
  | "/=" => some (.update .div)
  | "#=" => some (.update .mod)
  | "?=" => some .ifEmpty
  | _ => none

/-- The text of an assignment operator; `:=` is written `=`. -/
def Assignment.text : Assignment → String
  | .set => "="
  | .update .add => "+="
  | .update .sub => "-="
  | .update .mul => "*="
  | .update .div => "/="
  | .update .mod => "#="
  | .ifEmpty => "?="

/-- What the target holds after an assignment of `value` to a target that
holds `current`. Only an update reads what the target holds. -/
def assign (current : String) (op : Assignment) (value : Decimal) (decimals : Nat) :
    Except Error Decimal :=
  match op with
  | .set | .ifEmpty => .ok value
  | .update op => do
    let held ← parse current
    let held ← held.capped (capOf decimals)
    held.binary op value (capOf decimals)

/-! ## messages -/

/-- The name of a token in messages. -/
def Token.name : Token → String
  | .number _ => "Number"
  | .operator .add => "Op(Add)"
  | .operator .sub => "Op(Sub)"
  | .operator .mul => "Op(Mul)"
  | .operator .div => "Op(Div)"
  | .operator .mod => "Op(Mod)"
  | .opening => "Open"
  | .closing => "Close"

/-- What is wrong with an expression, in words. -/
def Malformed.message : Malformed → String
  | .character c text => s!"unexpected '{c}' in '{text}'"
  | .token t => s!"unexpected {t.name}"
  | .unfinished => "unexpected end of expression"
  | .unclosed => "missing ')'"
  | .empty => "empty expression"
  | .trailing => "trailing tokens"

/-- An error of arithmetic, in words. -/
def Error.message : Error → String
  | .invalidNumber text => s!"invalid number: {text}"
  | .malformed why => s!"invalid expression: {why.message}"
  | .overflow => "arithmetic overflow"
  | .divideByZero => "divide by zero"
  | .quotientOutOfRange => "quotient out of range"

end Switchboard.Decimal
