import Switchboard.Scientific
import Switchboard.Text.Blank
import Switchboard.Timer

/-!
# Switchboard.Seconds

Spans of time written in seconds.

1. A span is a number in scientific writing, with or without blanks around it.
2. The number is rounded to a binary number, and the result to nanoseconds,
   each time to the nearest.
3. Infinite or negative numbers are no spans of time. Nor are the words for
   what is no number.
4. A span of 2^64 seconds or more cannot be held.
-/

namespace Switchboard.Seconds

open Text

/-- A number of seconds in nanoseconds. -/
def nanoseconds (b : Binary) : Nanoseconds :=
  roundDiv (b.mantissa * Nat.pow 2 b.exponent.toNat * 1000000000) (Nat.pow 2 (-b.exponent).toNat)

/-- What a text says about a span of time. -/
inductive Reading where
  | span (nanoseconds : Nanoseconds)
  | tooLong
  | invalid
deriving Repr, DecidableEq

/-- The span that a number stands for. -/
def ofNumber (n : Scientific) : Reading :=
  match n.rounded? with
  | none => .invalid
  | some b =>
    if b.mantissa = 0 then .span 0
    else if n.negative then .invalid
    else if b.atLeast 64 then .tooLong
    else .span (nanoseconds b)

/-- The span that a text writes. -/
def parse (text : String) : Reading :=
  match Scientific.parse? (trim text.toList) with
  | none => .invalid
  | some n => ofNumber n

end Switchboard.Seconds
