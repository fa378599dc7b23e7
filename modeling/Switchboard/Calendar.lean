import Switchboard.Total

/-!
# Switchboard.Calendar

Dates of the Gregorian calendar, carried on in both directions, and the
weekdays they fall on. Day nought is the first day of the year one, a Monday.
-/

namespace Switchboard

/-- A day: month and day are counted from one. -/
structure Date where
  year : Int
  month : Nat
  day : Nat
deriving Repr, DecidableEq

/-- A minute of a day. -/
structure Moment where
  date : Date
  hour : Nat
  minute : Nat
deriving Repr, DecidableEq

namespace Date

/-- Every fourth year is a leap year, of the centuries every fourth. -/
def isLeap (year : Int) : Bool := (year % 4 == 0 && year % 100 != 0) || year % 400 == 0

/-- The number of days of a month. -/
def daysOfMonth (year : Int) (month : Nat) : Nat :=
  if month = 2 then if isLeap year then 29 else 28
  else if month = 4 ∨ month = 6 ∨ month = 9 ∨ month = 11 then 30
  else 31

/-- Whether there is such a day. -/
def isValid (d : Date) : Bool :=
  1 ≤ d.month && d.month ≤ 12 && 1 ≤ d.day && d.day ≤ daysOfMonth d.year d.month

/-- The number of days before a year. -/
def daysBeforeYear (year : Int) : Int :=
  let n := year - 1
  365 * n + n / 4 - n / 100 + n / 400

/-- The number of days of a year before a month. -/
def daysBeforeMonth (year : Int) (month : Nat) : Nat :=
  total ((List.range (month - 1)).map fun m => daysOfMonth year (m + 1))

/-- The number of the day. -/
def dayNumber (d : Date) : Int :=
  daysBeforeYear d.year + daysBeforeMonth d.year d.month + d.day - 1

/-- The weekday, counted from nought for Monday. -/
def weekday (d : Date) : Nat := (d.dayNumber % 7).toNat

/-- The next day. -/
def next (d : Date) : Date :=
  if d.day < daysOfMonth d.year d.month then { d with day := d.day + 1 }
  else if d.month < 12 then ⟨d.year, d.month + 1, 1⟩
  else ⟨d.year + 1, 1, 1⟩

/-- The day before. -/
def previous (d : Date) : Date :=
  if 1 < d.day then { d with day := d.day - 1 }
  else if 1 < d.month then ⟨d.year, d.month - 1, daysOfMonth d.year (d.month - 1)⟩
  else ⟨d.year - 1, 12, 31⟩

end Date

/-- The minute of the day. -/
def Moment.minuteOfDay (m : Moment) : Nat := m.hour * 60 + m.minute

end Switchboard
