/-!
# Switchboard.Timer

Timers. Times are milliseconds since the start, in words of 64 bits.

1. A timer holds the time at which it runs out. The greatest word stands for
   a timer that is not set.
2. A delay is added to the present time up to the greatest word. A delay of
   more milliseconds than a word holds counts modulo the number of words.
-/

namespace Switchboard

/-- A span of time in nanoseconds. -/
abbrev Nanoseconds := Nat

/-- A timer, by the time at which it runs out. -/
structure Timer where
  expiry : Nat
deriving Repr, DecidableEq

namespace Timer

/-- The number of times that a word tells apart, 2^64. -/
def bound : Nat := 18446744073709551616

/-- The greatest time. -/
def never : Nat := bound - 1

/-- A timer that is not set. -/
def unset : Timer := ⟨never⟩

/-- The time at which a timer runs out, if it is set. -/
def expiry? (t : Timer) : Option Nat := if t.expiry = never then none else some t.expiry

/-- Let a timer that has run out at `now` be unset. The answer tells whether
it had run out. -/
def takeDue (t : Timer) (now : Nat) : Timer × Bool :=
  if t.expiry ≤ now then (unset, true) else (t, false)

/-- Milliseconds of a delay, as a word holds them. -/
def wordMillis (delay : Nanoseconds) : Nat := delay / 1000000 % bound

/-- The time at which a delay ends that begins at `now`. -/
def deadline (now : Nat) (delay : Nanoseconds) : Nat := min (now + wordMillis delay) never

end Timer

end Switchboard
