import Switchboard.Schedule.Rule
import Switchboard.Text.Pieces
import Switchboard.Text.Letters
import Switchboard.Text.Numeral
import Switchboard.Total

/-!
# Switchboard.Schedule.Parser

Rule files.

```
# group/event  when                  script
*/*            all-days              @generic
sales/*        mon-fri 09:00-17:00   @business
*/incoming     2025 dec 25           @holiday
```

1. A line holds one rule; empty lines and lines that begin with `#` hold none.
2. The first of these forms that a word has decides what it means: `@script`,
   `group/event`, times with a colon, a word for every day, four digits for a
   year, digits for a day, a month, weekdays.
3. A later word of one kind replaces an earlier one, but there are at most
   one script and two times.
4. Months and weekdays are told by their first letters, so that `juniper`
   is June.
-/

namespace Switchboard.Schedule

open Text

/-! ## problems -/

/-- What is wrong with a rule. -/
inductive Problem where
  | secondScript (word : String)
  | invalidTime (word : String)
  | tooManyTimes (word : String)
  | invalidDay (word : String)
  | unknownWord (word : String)
  | noScript
deriving Repr, DecidableEq

/-- The problem in words. -/
def Problem.message : Problem → String
  | .secondScript word => s!"second script {word}"
  | .invalidTime word => s!"invalid time {word}"
  | .tooManyTimes word => s!"too many times at {word}"
  | .invalidDay word => s!"invalid day {word}"
  | .unknownWord word => s!"unknown token {word}"
  | .noScript => "rule has no @script"

/-! ## words -/

/-- The first letters of the months. -/
def monthMarks : List String :=
  ["jan", "feb", "mar", "apr", "may", "jun", "jul", "aug", "sep", "oct", "nov", "dec"]

/-- The first letters of the weekdays. -/
def weekdayMarks : List String := ["mo", "tu", "we", "th", "fr", "sa", "su"]

/-- The place of the mark that a word begins with. -/
def markOf? (marks : List String) (word : List Char) : Option Nat :=
  marks.findIdx? fun m => m.toList.isPrefixOf word

/-- The month that a word names, counted from one. -/
def month? (word : List Char) : Option Nat := (markOf? monthMarks word).map (· + 1)

/-- The weekdays from one to another, around the end of the week if need be. -/
def weekdaySpan (first last : Nat) : Nat :=
  total ((List.range ((last + 7 - first) % 7 + 1)).map fun i => Nat.pow 2 ((first + i) % 7))

/-- The weekdays that a word names: one, or all from one to another. -/
def weekdays? (word : List Char) : Option Nat :=
  match cut? '-' word with
  | none => (markOf? weekdayMarks word).map fun d => weekdaySpan d d
  | some (first, last) => do
    let a ← markOf? weekdayMarks first
    let b ← markOf? weekdayMarks last
    return weekdaySpan a b

/-- The minute of the day that a time names. -/
def time? (word : List Char) : Option Nat := do
  let (hours, minutes) ← cut? ':' word
  let h ← readNat (wordBound 32) hours
  let m ← readNat (wordBound 32) minutes
  if h < 24 ∧ m < 60 then some (h * 60 + m) else none

/-- A name; the star and the empty text stand for all. -/
def named (cs : List Char) : Option String :=
  if cs.isEmpty || cs == ['*'] then none else some (String.ofList cs)

/-- Words that leave the day open. -/
def everyDay : List String := ["*", "all-days", "all", "daily"]

/-! ## rules -/

/-- Add one time to a rule: its start, or else its end. -/
def addTime (r : Rule) (word : String) (part : List Char) : Except Problem Rule :=
  match time? part with
  | none => .error (.invalidTime word)
  | some minute =>
    if r.start.isNone then .ok { r with start := some minute }
    else if r.stop.isNone then .ok { r with stop := some minute }
    else .error (.tooManyTimes word)

/-- Add the meaning of one word to a rule. -/
def addWord (r : Rule) (cs : List Char) : Except Problem Rule :=
  let word := String.ofList cs
  let low := cs.map Char.toLower
  if cs.head? = some '@' then
    if r.script.isEmpty then .ok { r with script := word } else .error (.secondScript word)
  else match cut? '/' cs with
    | some (group, event) => .ok { r with group := named group, event := named event }
    | none =>
      if low.contains ':' then
        (pieces (· == '-') low).foldlM (fun r part => addTime r word part) r
      else if everyDay.contains (String.ofList low) then .ok r
      else if low.all isDigit then
        if low.length = 4 then .ok { r with year := some (value low) }
        else if 1 ≤ value low ∧ value low ≤ 31 then .ok { r with day := some (value low) }
        else .error (.invalidDay word)
      else match month? low with
        | some m => .ok { r with month := some m }
        | none =>
          match weekdays? low with
          | some days => .ok { r with weekdays := some days }
          | none => .error (.unknownWord word)

/-- The rule that a line holds. -/
def ruleOf (line : List Char) : Except Problem Rule := do
  let r ← (words line).foldlM addWord Rule.blank
  if r.script.isEmpty then throw .noScript else return r

/-- Whether a line holds no rule. -/
def isRemark (line : List Char) : Bool := line.isEmpty || line.head? == some '#'

/-- The rules of numbered lines, or the first problem with its line. -/
def rulesOf : List (Nat × List Char) → Except (Nat × Problem) (List Rule)
  | [] => .ok []
  | (number, raw) :: rest =>
    let line := trim raw
    if isRemark line then rulesOf rest
    else match ruleOf line with
      | .error p => .error (number, p)
      | .ok r => (rulesOf rest).map (r :: ·)

/-- The rules of a file. -/
def parse (text : String) : Except (Nat × Problem) (List Rule) :=
  rulesOf (numberedLines text.toList)

end Switchboard.Schedule
