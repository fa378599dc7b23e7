import Switchboard.Document
import Switchboard.Schedule.Rule

/-!
# Switchboard.Schedule.Document

Routing rules as documents. What a rule leaves open is absent or null.
-/

namespace Switchboard.Schedule.Rule

open Document (ofNat ofOption optional? text? word?)

/-- A rule as a document. -/
def document (r : Rule) : Document :=
  .table [("group", ofOption .text r.group), ("event", ofOption .text r.event),
    ("script", .text r.script), ("year", ofOption .integer r.year),
    ("month", ofOption ofNat r.month), ("day", ofOption ofNat r.day),
    ("weekdays", ofOption ofNat r.weekdays), ("start", ofOption ofNat r.start),
    ("end", ofOption ofNat r.stop)]

/-- A whole number. -/
def integer? : Document → Option Int
  | .integer n => some n
  | _ => none

/-- The rule that a document describes. -/
def ofDocument? (d : Document) : Option Rule := do
  let s ← d.settings?
  let text (name : String) := s.get name (optional? text?) none
  let number (name : String) := s.get name (optional? word?) none
  return {
    group := ← text "group"
    event := ← text "event"
    script := ← s.get "script" text? ""
    year := ← s.get "year" (optional? integer?) none
    month := ← number "month"
    day := ← number "day"
    weekdays := ← number "weekdays"
    start := ← number "start"
    stop := ← number "end" }

end Switchboard.Schedule.Rule
