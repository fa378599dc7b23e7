import Switchboard.Document

/-!
# Switchboard.Segment.Counter

Counts of the calls on the slots of a segment.

1. `current` is the number of calls now, and `peak` its greatest value so far.
2. `min` and `max` are the least and greatest value of `current` in the
   present period, and `period` is the number of calls that began in it.
3. A new period begins with the calls there are.
4. The numbers have a width: counted up beyond it they begin at nought again, and
   counted down they stay at nought.
-/

namespace Switchboard

/-- The counts of a segment. -/
structure Counter where
  current : UInt32
  peak : UInt32
  min : UInt32
  max : UInt32
  period : UInt64
  total : UInt64
deriving Repr, DecidableEq

namespace Counter

/-- No calls yet. -/
def zero : Counter := ⟨0, 0, 0, 0, 0, 0⟩

/-- One call more. -/
def started (c : Counter) : Counter :=
  let now := c.current + 1
  { c with
    current := now
    peak := Max.max c.peak now
    max := Max.max c.max now
    period := c.period + 1
    total := c.total + 1 }

/-- One call less. -/
def ended (c : Counter) : Counter :=
  let now := if c.current = 0 then 0 else c.current - 1
  { c with current := now, min := Min.min c.min now }

/-- Begin a new period. -/
def newPeriod (c : Counter) : Counter :=
  { c with min := c.current, max := c.current, period := 0 }

/-- The counts in words. -/
def text (c : Counter) : String :=
  s!"current={c.current} peak={c.peak} min={c.min} max={c.max} " ++
    s!"period={c.period} total={c.total}"

/-- The counts as a document. -/
def document (c : Counter) : Document :=
  .table [("current", .ofNat c.current.toNat), ("peak", .ofNat c.peak.toNat),
    ("min", .ofNat c.min.toNat), ("max", .ofNat c.max.toNat),
    ("period", .ofNat c.period.toNat), ("total", .ofNat c.total.toNat)]

end Counter

end Switchboard
