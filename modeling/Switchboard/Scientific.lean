import Switchboard.Rounding
import Switchboard.Text.Numeral

/-!
# Switchboard.Scientific

Numbers in scientific writing, and the binary numbers nearest to them.

1. A number has a sign, digits with a point before, among or after them, and
   an exponent of ten; all but one digit may be left out.
2. A binary number has fifty-three places, fewer below the least exponent. Of
   two that are equally near, the one with the even last place is taken.
3. A number beyond the greatest that has 1024 binary places before the point
   counts as infinite.
-/

namespace Switchboard

open Text

/-- A number in base ten: its digits, and the weight of the last as a power of ten. -/
structure Scientific where
  negative : Bool
  digits : List Char
  exponent : Int
deriving Repr, DecidableEq

/-! ## reading -/

namespace Scientific

/-- The characters after a sign, and whether the sign is a minus. -/
def signed : List Char → Bool × List Char
  | '-' :: cs => (true, cs)
  | '+' :: cs => (false, cs)
  | cs => (false, cs)

/-- An exponent with its mark, or nothing for the exponent nought. -/
def exponent? : List Char → Option Int
  | [] => some 0
  | mark :: cs =>
    let (negative, digits) := signed cs
    if (mark == 'e' || mark == 'E') && isNumeral digits then
      some (if negative then -(value digits : Int) else value digits)
    else none

/-- Read a number. -/
def parse? (cs : List Char) : Option Scientific :=
  let (negative, cs) := signed cs
  let whole := cs.takeWhile isDigit
  let afterWhole := cs.dropWhile isDigit
  let (fraction, rest) := match afterWhole with
    | '.' :: more => (more.takeWhile isDigit, more.dropWhile isDigit)
    | _ => ([], afterWhole)
  if whole.isEmpty && fraction.isEmpty then none
  else (exponent? rest).map fun e => ⟨negative, whole ++ fraction, e - fraction.length⟩

end Scientific

/-! ## binary numbers -/

/-- A number `mantissa * 2 ^ exponent`. -/
structure Binary where
  mantissa : Nat
  exponent : Int
deriving Repr, DecidableEq

namespace Binary

/-- The number nought. -/
def zero : Binary := ⟨0, 0⟩

/-- The greatest `e` with `2 ^ e ≤ num / den`, for positive numbers. -/
def magnitude (num den : Nat) : Int :=
  let e : Int := (num.log2 : Int) - den.log2
  if den * Nat.pow 2 e.toNat ≤ num * Nat.pow 2 (-e).toNat then e else e - 1

/-- A fraction rounded to fifty-three binary places, fewer below the least exponent. -/
def ofFraction (num den : Nat) : Binary :=
  let e := max (magnitude num den - 52) (-1074)
  ⟨roundDiv (num * Nat.pow 2 (-e).toNat) (den * Nat.pow 2 e.toNat), e⟩

/-- Whether a number is at least a power of two. -/
def atLeast (b : Binary) (power : Nat) : Bool :=
  Nat.pow 2 (power + (-b.exponent).toNat) ≤ b.mantissa * Nat.pow 2 b.exponent.toNat

end Binary

/-! ## rounding -/

namespace Scientific

/-- Numbers from this power of ten on are infinite. -/
def greatestPower : Int := 310

/-- Numbers below this power of ten are nought. -/
def leastPower : Int := -330

/-- The binary number nearest to a number without its sign, or nothing if
that is infinite. -/
def rounded? (n : Scientific) : Option Binary :=
  let digits := n.digits.dropWhile (· == '0')
  let top := n.exponent + digits.length
  if digits.isEmpty || top < leastPower then some .zero
  else if greatestPower < top then none
  else
    let b := Binary.ofFraction (value digits * Nat.pow 10 n.exponent.toNat)
      (Nat.pow 10 (-n.exponent).toNat)
    if b.atLeast 1024 then none else some b

end Scientific

end Switchboard
