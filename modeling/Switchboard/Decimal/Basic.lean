import Switchboard.Text.Pieces
import Switchboard.Text.Numeral

/-!
# Switchboard.Decimal.Basic

Decimal numbers of fixed precision.

1. A decimal is a whole number of units, each worth `10 ^ -scale`.
2. Units are held in a signed word of 128 bits: what does not fit is
   `overflow`, never a wrapped number.
3. An operation works at the wider scale of its operands, but no wider than
   the cap it is given, and cuts further digits off toward zero.
4. One quotient has no answer and is no overflow either: the least word
   divided by minus one. It is reported as `quotientOutOfRange`, which no
   script can handle.
-/

namespace Switchboard

/-- The number `units / 10 ^ scale`. -/
structure Decimal where
  units : Int
  scale : Nat
deriving Repr, DecidableEq, Inhabited

namespace Decimal

/-! ## errors -/

/-- The operators between two operands. -/
inductive Operator where
  | add | sub | mul | div | mod
deriving Repr, DecidableEq

/-- The lexical elements of an expression. -/
inductive Token where
  | number (value : Decimal)
  | operator (op : Operator)
  | opening
  | closing
deriving Repr, DecidableEq

/-- What can be wrong with the form of an expression. -/
inductive Malformed where
  | character (c : Char) (text : String)
  | token (t : Token)
  | unfinished
  | unclosed
  | empty
  | trailing
deriving Repr, DecidableEq

/-- Why a number or an expression has no value. -/
inductive Error where
  | invalidNumber (text : String)
  | malformed (why : Malformed)
  | overflow
  | divideByZero
  | quotientOutOfRange
deriving Repr, DecidableEq

/-! ## words of 128 bits -/

/-- The greatest number of units, 2^127 - 1. -/
def greatest : Int := 170141183460469231731687303715884105727

/-- The least number of units, -2^127. -/
def least : Int := -170141183460469231731687303715884105728

/-- The number, if a word holds it. -/
def checked (n : Int) : Except Error Int :=
  if least ≤ n ∧ n ≤ greatest then .ok n else .error .overflow

/-- The nearest number that a word holds. -/
def clamped (n : Int) : Int := max least (min n greatest)

/-- Ten to the power `n`. -/
def power (n : Nat) : Int := (Nat.pow 10 n : Nat)

/-- No decimal that a text or an expression gives has more places. -/
def maxScale : Nat := 9

/-! ## operations -/

/-- Nought, without places. -/
def zero : Decimal := ⟨0, 0⟩

/-- The same number with `scale` places; further digits are cut off. -/
def rescale (d : Decimal) (scale : Nat) : Except Error Decimal :=
  if d.scale ≤ scale then
    (checked (d.units * power (scale - d.scale))).map (⟨·, scale⟩)
  else .ok ⟨d.units.tdiv (power (d.scale - scale)), scale⟩

/-- The number with no more than `cap` places. -/
def capped (d : Decimal) (cap : Nat) : Except Error Decimal :=
  d.rescale (min d.scale cap)

/-- Units of `a op b`, both operands at `scale`. -/
def Operator.units (op : Operator) (a b : Int) (scale : Nat) : Except Error Int :=
  match op with
  | .add => checked (a + b)
  | .sub => checked (a - b)
  | .mul => (checked (a * b)).map (·.tdiv (power scale))
  | .div =>
    if b = 0 then .error .divideByZero
    else do
      let n ← checked (a * power scale)
      if n = least ∧ b = -1 then .error .quotientOutOfRange else .ok (n.tdiv b)
  | .mod =>
    if b = 0 then .error .divideByZero
    else if a = least ∧ b = -1 then .error .quotientOutOfRange
    else .ok (a.tmod b)

/-- The value of `a op b` with no more than `cap` places. -/
def binary (a : Decimal) (op : Operator) (b : Decimal) (cap : Nat) : Except Error Decimal := do
  let scale := min (max a.scale b.scale) cap
  let x ← a.rescale scale
  let y ← b.rescale scale
  let units ← op.units x.units y.units scale
  return ⟨units, scale⟩

/-- The order of two numbers, both brought to the wider scale. A number too
great for that scale counts as the greatest, or least, number of units. -/
def compare (a b : Decimal) : Ordering :=
  let scale := max a.scale b.scale
  Ord.compare (clamped (a.units * power (scale - a.scale)))
    (clamped (b.units * power (scale - b.scale)))

end Decimal

end Switchboard
