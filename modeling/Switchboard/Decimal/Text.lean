import Switchboard.Decimal.Basic

/-!
# Switchboard.Decimal.Text

The written form of decimals.

1. A number is written as an optional sign, digits, and digits after an
   optional point; one side of the point may be empty, not both.
2. Blanks around it do not matter, and a text of blanks denotes nought.
3. Digits beyond the ninth place are read and dropped.
4. `render` writes as many places as the scale, and a minus sign where needed.
-/

namespace Switchboard.Decimal

open Text

/-! ## reading -/

/-- Sign and body of a numeral: whether it is negative, and what follows the sign. -/
def signed : List Char → Bool × List Char
  | '-' :: cs => (true, cs)
  | '+' :: cs => (false, cs)
  | cs => (false, cs)

/-- The digits before and after the point. -/
def places (cs : List Char) : List Char × List Char :=
  (cut? '.' cs).getD (cs, [])

/-- Units written by the digits, refused as soon as they exceed a word. -/
def unitsOf (digits : List Char) : Except Error Int :=
  digits.foldlM (fun n c => checked (n * 10 + digitValue c)) 0

/-- The number a text denotes. -/
def parse (text : String) : Except Error Decimal :=
  let cs := trim text.toList
  if cs.isEmpty then .ok zero
  else
    let (negative, body) := signed cs
    let (whole, fraction) := places body
    if (whole.isEmpty && fraction.isEmpty) || !whole.all isDigit || !fraction.all isDigit then
      .error (.invalidNumber text)
    else do
      let fraction := fraction.take maxScale
      let units ← unitsOf (whole ++ fraction)
      return ⟨if negative then -units else units, fraction.length⟩

/-! ## writing -/

/-- The text of a decimal. -/
def render (d : Decimal) : String :=
  if d.scale = 0 then toString d.units
  else
    let n := d.units.natAbs
    let factor := Nat.pow 10 d.scale
    (if d.units < 0 then "-" else "") ++ toString (n / factor) ++ "." ++
      padded d.scale (n % factor)

end Switchboard.Decimal
