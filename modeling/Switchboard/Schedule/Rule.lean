import Switchboard.Calendar

/-!
# Switchboard.Schedule.Rule

Routing by group, event and time.

1. A rule names a script and says for which group, event, dates and times it
   holds; what it leaves open holds always.
2. Times are minutes after midnight. A window whose start is after its end
   runs past midnight, and one without an end runs until midnight.
3. Rules differ in which of five axes they pin down: year, month, group,
   event and weekdays. A rule that leaves open an axis that the choice so far
   pins down does not replace it; any other does.
-/

namespace Switchboard.Schedule

/-! ## rules -/

/-- A routing rule. Bit `i` of `weekdays` stands for the weekday `i`. -/
structure Rule where
  group : Option String
  event : Option String
  script : String
  year : Option Int
  month : Option Nat
  day : Option Nat
  weekdays : Option Nat
  start : Option Nat
  stop : Option Nat
deriving Repr, DecidableEq

namespace Rule

/-- The rule that leaves everything open and names no script. -/
def blank : Rule := ⟨none, none, "", none, none, none, none, none, none⟩

/-- Whether a value is what a rule asks for, if it asks. -/
def admits {α : Type} [BEq α] (wanted : Option α) (x : α) : Bool := wanted.all (· == x)

/-- Whether a minute lies in a window. -/
def inWindow (start stop : Option Nat) (minute : Nat) : Bool :=
  match start, stop with
  | some a, some b => if a ≤ b then a ≤ minute && minute < b else a ≤ minute || minute < b
  | some a, none => a ≤ minute
  | none, _ => true

/-- Whether a rule holds. -/
def holds (r : Rule) (group event : String) (now : Moment) : Bool :=
  admits r.group group && admits r.event event && admits r.year now.date.year &&
    admits r.month now.date.month && admits r.day now.date.day &&
    r.weekdays.all (·.testBit now.date.weekday) && inWindow r.start r.stop now.minuteOfDay

/-- Which axes a rule pins down: year, month, group, event, weekdays. -/
def axes (r : Rule) : List Bool :=
  [r.year.isSome, r.month.isSome, r.group.isSome, r.event.isSome, r.weekdays.isSome]

/-- Whether `r` pins down every axis that `other` pins down. -/
def covers (r other : Rule) : Bool :=
  (other.axes.zip r.axes).all fun (had, has) => !had || has

end Rule

/-! ## choosing -/

/-- The rule chosen of those that hold, in the order of the table. -/
def choose (best : Option Rule) (r : Rule) : Option Rule :=
  match best with
  | none => some r
  | some b => if r.covers b then some r else some b

/-- The rule that decides, if any rule holds. -/
def decider? (rules : List Rule) (group event : String) (now : Moment) : Option Rule :=
  (rules.filter fun r => r.holds group event now).foldl choose none

/-- The script that a table selects. -/
def select? (rules : List Rule) (group event : String) (now : Moment) : Option String :=
  (decider? rules group event now).map (·.script)

end Switchboard.Schedule
