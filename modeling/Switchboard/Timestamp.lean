import Switchboard.Calendar
import Switchboard.Text.Blank
import Switchboard.Text.Numeral

/-!
# Switchboard.Timestamp

Points in time.

1. A point is written as date and time with `T` between them and `Z` after
   them. A fraction of a second has three, six or nine digits, as few as
   suffice, and is left out if it is nought.
2. What is read may have blanks between its parts, `t` or a blank for the `T`,
   and an offset from universal time, which is then taken off. Digits of the
   fraction beyond the ninth are left out.
3. The second of a minute may be its sixtieth.
4. Years go from -262143 up to 262142, before the offset is taken off and after.
-/

namespace Switchboard

open Text

/-- A point in time, in universal time. -/
structure Timestamp where
  date : Date
  hour : Nat
  minute : Nat
  second : Nat
  nanosecond : Nat
deriving Repr, DecidableEq

namespace Timestamp

/-- The beginning of 1970. -/
def epoch : Timestamp := ⟨⟨1970, 1, 1⟩, 0, 0, 0, 0⟩

/-! ## writing -/

/-- A year: four digits, or more with a sign. -/
def yearText (year : Int) : String :=
  if 0 ≤ year ∧ year ≤ 9999 then padded 4 year.toNat
  else (if year < 0 then "-" else "+") ++ padded 4 year.natAbs

/-- The fraction of a second, with its point. -/
def fractionText (nanosecond : Nat) : String :=
  if nanosecond = 0 then ""
  else if nanosecond % 1000000 = 0 then "." ++ padded 3 (nanosecond / 1000000)
  else if nanosecond % 1000 = 0 then "." ++ padded 6 (nanosecond / 1000)
  else "." ++ padded 9 nanosecond

/-- The point in words. -/
def text (t : Timestamp) : String :=
  let year := yearText t.date.year
  let month := padded 2 t.date.month
  let day := padded 2 t.date.day
  let hour := padded 2 t.hour
  let minute := padded 2 t.minute
  let second := padded 2 t.second
  let fraction := fractionText t.nanosecond
  s!"{year}-{month}-{day}T{hour}:{minute}:{second}{fraction}Z"

/-! ## reading -/

/-- A number of one digit up to `width` digits, blanks before it. -/
def number? (width : Nat) (cs : List Char) : Option (Nat × List Char) :=
  let cs := trimStart cs
  let digits := (cs.take width).takeWhile isDigit
  if digits.isEmpty then none else some (value digits, cs.drop digits.length)

/-- A year; with a sign it may have any number of digits. -/
def year? (cs : List Char) : Option (Int × List Char) :=
  match trimStart cs with
  | '-' :: rest => (signedYear rest).map fun (n, rest) => (-(n : Int), rest)
  | '+' :: rest => (signedYear rest).map fun (n, rest) => ((n : Int), rest)
  | cs => (number? 4 cs).map fun (n, rest) => ((n : Int), rest)
where
  /-- The digits after a sign. -/
  signedYear (cs : List Char) : Option (Nat × List Char) :=
    if (cs.head?.map isDigit).getD false then number? cs.length cs else none

/-- The text after a mark, blanks before it. -/
def mark? (c : Char) (cs : List Char) : Option (List Char) :=
  match trimStart cs with
  | d :: rest => if d == c then some rest else none
  | [] => none

/-- A fraction of a second in nanoseconds, if one begins here. -/
def fraction? : List Char → Option (Nat × List Char)
  | '.' :: cs =>
    let digits := (cs.take 9).takeWhile isDigit
    if digits.isEmpty then none
    else some (value digits * Nat.pow 10 (9 - digits.length), cs.dropWhile isDigit)
  | cs => some (0, cs)

/-- Two digits. -/
def pair? : List Char → Option (Nat × List Char)
  | a :: b :: rest => if isDigit a && isDigit b then some (value [a, b], rest) else none
  | _ => none

/-- Minutes ahead of universal time. -/
def offset? (cs : List Char) : Option (Int × List Char) :=
  match trimStart cs with
  | [] => none
  | c :: rest =>
    if c == 'Z' || c == 'z' then some (0, rest)
    else if ((c :: rest).take 3).map Char.toLower == ['u', 't', 'c'] then some (0, rest.drop 2)
    else if c == '+' || c == '-' || c == '−' then do
      let (hours, rest) ← pair? rest
      let (minutes, rest) ← pair? (rest.dropWhile fun d => d == ':' || isBlank d)
      let ahead : Int := hours * 60 + minutes
      if hours < 24 ∧ minutes < 60 then some (if c == '+' then ahead else -ahead, rest) else none
    else none

/-- Take minutes off a point in time, less than a day of them. -/
def back (t : Timestamp) (minutes : Int) : Timestamp :=
  let now : Int := t.hour * 60 + t.minute - minutes
  let date :=
    if now < 0 then t.date.previous else if 1440 ≤ now then t.date.next else t.date
  let minuteOfDay := (now % 1440).toNat
  { t with date, hour := minuteOfDay / 60, minute := minuteOfDay % 60 }

/-- Whether a year can be held. -/
def hasYear (year : Int) : Bool := -262143 ≤ year && year ≤ 262142

/-- The point that a text writes. -/
def parse? (text : String) : Option Timestamp := do
  let (year, cs) ← year? text.toList
  let (month, cs) ← number? 2 (← mark? '-' cs)
  let (day, cs) ← number? 2 (← mark? '-' cs)
  let cs ← match cs with
    | c :: rest => if c == 'T' || c == 't' || c == ' ' then some rest else none
    | [] => none
  let (hour, cs) ← number? 2 cs
  let (minute, cs) ← number? 2 (← mark? ':' cs)
  let (second, cs) ← number? 2 (← mark? ':' cs)
  let (nanosecond, cs) ← fraction? cs
  let (ahead, cs) ← offset? cs
  let date : Date := ⟨year, month, day⟩
  let t := (⟨date, hour, minute, second, nanosecond⟩ : Timestamp).back ahead
  if date.isValid ∧ hour < 24 ∧ minute < 60 ∧ second ≤ 60 ∧ (trimStart cs).isEmpty ∧
      hasYear year ∧ hasYear t.date.year then
    some t
  else none

end Timestamp

end Switchboard
