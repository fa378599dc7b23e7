import Switchboard.Config.Basic
import Switchboard.Config.Problem
import Switchboard.LogDirective

/-!
# Switchboard.Config.Check

What a configuration must keep to.

1. There is at least one slot, and the steps, frames and messages allowed are
   at least one.
2. The level and the directives of the log are understood.
3. No two segments of one kind have one name. Every span has slots, a group
   names spans of its own board, and single slots exist.
4. The first rule that is broken, in this order and board by board, is the
   one reported.
-/

namespace Switchboard.Config

/-! ## values -/

/-- A setting must not be nought. -/
def checkPositive (setting : String) (n : Nat) : Except Problem Unit :=
  if n = 0 then .error (.notPositive setting) else .ok ()

/-- The level that a text names. -/
def logLevel (text : String) : Except Problem LogLevel :=
  match LogLevel.parse? text with
  | some level => .ok level
  | none => .error (.logLevel text)

/-- The level and the directives are understood. -/
def Logging.check (l : Logging) : Except Problem Unit := do
  let _ ← logLevel l.level
  match l.directives.find? fun d => !LogDirective.isDirective d with
  | some d => throw (.logDirective d)
  | none => return ()

/-! ## segments -/

/-- The names given so far, each with its kind. -/
abbrev Names := List (SegmentKind × String)

/-- Note a name, which must be new. -/
def Names.add (names : Names) (kind : SegmentKind) (name : String) : Except Problem Names :=
  if names.contains (kind, name) then .error (.duplicate kind name) else .ok ((kind, name) :: names)

/-- Single slots must exist. -/
def checkSlots (owner : String) (slots : List SlotId) (total : Nat) : Except Problem Unit :=
  match slots.find? fun id => total ≤ id with
  | some id => .error (.unknownSlot owner id total)
  | none => .ok ()

/-- A span has slots and a new name. -/
def Span.check (s : Span) (names : Names) : Except Problem Names :=
  if s.slots = 0 then .error (.emptySpan s.name) else names.add .span s.name

/-- A group has a new name, spans of its board, and slots that exist. -/
def Group.check (g : Group) (spans : List Span) (total : Nat) (names : Names) :
    Except Problem Names := do
  let names ← names.add .group g.name
  match g.spans.find? fun s => !spans.any (·.name == s) with
  | some s => throw (.unknownSpan g.name s)
  | none => checkSlots g.name g.slots total
  return names

/-- A registration has a new name, and slots that exist. -/
def Registration.check (r : Registration) (total : Nat) (names : Names) :
    Except Problem Names := do
  let names ← names.add .registration r.name
  checkSlots r.name r.slots total
  return names

/-- A board has a new name, and so on for all on it. -/
def Board.check (b : Board) (total : Nat) (names : Names) : Except Problem Names := do
  let names ← names.add .board b.name
  let names ← b.spans.foldlM (fun names s => s.check names) names
  let names ← b.groups.foldlM (fun names g => g.check b.spans total names) names
  b.registrations.foldlM (fun names r => r.check total names) names

/-! ## all rules -/

/-- Whether a configuration keeps to the rules, or the first that it breaks. -/
def check (c : Config) : Except Problem Unit := do
  if c.slotCount = 0 then throw .noSlots
  checkPositive "engine.steps_per_tick" c.engine.stepsPerTick
  checkPositive "engine.max_frames" c.engine.maxFrames
  checkPositive "workers.message_queue_capacity" c.workers.queueCapacity
  c.logging.check
  let _ ← c.boards.foldlM (fun names b => b.check c.slotCount names) []

end Switchboard.Config
