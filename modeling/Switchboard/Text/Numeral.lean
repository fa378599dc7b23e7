/-!
# Switchboard.Text.Numeral

Numerals in base ten.

1. `value` is the number a list of digits denotes, the first digit weighing most.
2. `readNat` reads a numeral below a bound: digits, at least one, after an
   optional `+`. A sign `-` is refused even before zero.
3. `padded` writes a number with zeros in front up to a width.
-/

namespace Switchboard.Text

/-- The ASCII digits. -/
def isDigit (c : Char) : Bool := c.isDigit

/-- The number that one digit denotes. -/
def digitValue (c : Char) : Nat := c.toNat - '0'.toNat

/-- The number that a list of digits denotes. -/
def value (cs : List Char) : Nat := cs.foldl (fun n c => 10 * n + digitValue c) 0

/-- Digits only, and at least one. -/
def isNumeral (cs : List Char) : Bool := !cs.isEmpty && cs.all isDigit

/-- The digits of a numeral with an optional plus sign. -/
def unsigned (cs : List Char) : List Char :=
  match cs with
  | '+' :: rest => rest
  | _ => cs

/-- Read a numeral whose value is below `bound`. -/
def readNat (bound : Nat) (cs : List Char) : Option Nat :=
  let digits := unsigned cs
  if isNumeral digits && value digits < bound then some (value digits) else none

/-- The number of values of an unsigned word of `bits` bits. -/
def wordBound (bits : Nat) : Nat := Nat.pow 2 bits

/-- A number written with at least `width` digits, zeros in front. -/
def padded (width n : Nat) : String :=
  let digits := toString n
  String.ofList (List.replicate (width - digits.length) '0') ++ digits

end Switchboard.Text
