import Switchboard.Config.Basic
import Switchboard.Document
import Switchboard.Segment.Counter
import Switchboard.SegmentKind
import Switchboard.Error

/-!
# Switchboard.Segment.Basic

The segments of an exchange.

1. The segments of each board come in this order: its spans, the board, its
   groups, its registrations.
2. Spans take the next free numbers, and a board has the slots of its spans.
3. The slots of a segment are in increasing order.
4. A call on a slot counts in every segment that the slot is in.
-/

namespace Switchboard

/-- A named set of slots. -/
structure Segment where
  name : String
  kind : SegmentKind
  slots : List SlotId
  limit : Option Nat
  script : Option String
  counter : Counter
deriving Repr, DecidableEq

namespace Segment

/-- A segment without calls. -/
def new (kind : SegmentKind) (name : String) (slots : List SlotId) : Segment :=
  ⟨name, kind, slots, none, none, .zero⟩

/-- Whether a slot is in a segment. -/
def contains (s : Segment) (slot : SlotId) : Bool := s.slots.contains slot

/-- A segment in words. -/
def text (s : Segment) : String :=
  let limit := match s.limit with
    | some n => s!" limit={n}"
    | none => ""
  s!"{s.kind.word} {s.name}: slots={s.slots.length} {s.counter.text}" ++ limit ++ "\n"

/-- A segment as a document. -/
def document (s : Segment) : Document :=
  .table [("name", .text s.name), ("kind", .text s.kind.word),
    ("slots", .ofList .ofNat s.slots), ("limit", .ofOption .ofNat s.limit),
    ("script", .ofOption .text s.script), ("stats", s.counter.document)]

end Segment

/-! ## sets of slots -/

/-- Add a slot to slots in increasing order, unless it is there. -/
def insertSlot (slot : SlotId) : List SlotId → List SlotId
  | [] => [slot]
  | s :: rest =>
    if slot < s then slot :: s :: rest
    else if slot = s then s :: rest
    else s :: insertSlot slot rest

/-- Slots in increasing order, each once. -/
def orderedSlots (slots : List SlotId) : List SlotId := slots.foldr insertSlot []

/-! ## the segments of a configuration -/

/-- All segments, and the number of slots of all boards. -/
structure Segments where
  entries : List Segment
  slotCount : Nat
deriving Repr, DecidableEq

namespace Segments

/-- So many slots, 2^60, or more cannot be listed. -/
def capacity : Nat := 1152921504606846976

/-- The segments of so many slots, (2^63 - 1) / 24 and one, or more cannot be listed
slot by slot. -/
def indexCapacity : Nat := 384307168202282326

/-- The slots from one on. -/
def run (first count : Nat) : Except Error (List SlotId) :=
  if capacity ≤ count then .error .capacity else .ok (List.range' first count)

/-- The spans of a board from a slot on, each with its slots. -/
def spansFrom (first : Nat) : List Config.Span → Except Error (List (String × List SlotId))
  | [] => .ok []
  | s :: rest => do
    let slots ← run first s.slots
    let others ← spansFrom (first + s.slots) rest
    return (s.name, slots) :: others

/-- The slots of the spans that a group names. -/
def slotsOf (spans : List (String × List SlotId)) : List String → Except Error (List SlotId)
  | [] => .ok []
  | name :: rest => do
    match spans.lookup name with
    | none => throw (.unknownSegment name)
    | some slots => return slots ++ (← slotsOf spans rest)

/-- A group. -/
def group (spans : List (String × List SlotId)) (g : Config.Group) : Except Error Segment := do
  let slots ← slotsOf spans g.spans
  return { Segment.new .group g.name (orderedSlots (g.slots ++ slots)) with
    limit := g.limit
    script := g.script }

/-- A registration. -/
def registration (r : Config.Registration) : Segment :=
  .new .registration r.name (orderedSlots r.slots)

/-- The segments of a board whose first slot is `first`. -/
def ofBoard (first : Nat) (b : Config.Board) : Except Error (List Segment) := do
  let spans ← spansFrom first b.spans
  let slots ← run first b.slotCount
  let groups ← b.groups.mapM (group spans)
  return spans.map (fun (name, slots) => .new .span name slots) ++
    [.new .board b.name slots] ++ groups ++ b.registrations.map registration

/-- The segments of boards, the first slot of which is `first`. -/
def ofBoards (first : Nat) : List Config.Board → Except Error (List Segment)
  | [] => .ok []
  | b :: rest => do
    let segments ← ofBoard first b
    let others ← ofBoards (first + b.slotCount) rest
    return segments ++ others

/-- The segments that a configuration describes. -/
def ofConfig (c : Config) : Except Error Segments := do
  let entries ← ofBoards 0 c.boards
  if indexCapacity ≤ c.slotCount then throw .capacity
  return ⟨entries, c.slotCount⟩

/-! ## looking up -/

/-- The first segment with a kind and a name. -/
def find? (t : Segments) (kind : SegmentKind) (name : String) : Option Segment :=
  t.entries.find? fun s => s.kind == kind && s.name == name

/-- The group with a name. -/
def group? (t : Segments) (name : String) : Option Segment := t.find? .group name

/-- Whether a slot of some board is in a segment. -/
def holds (t : Segments) (slot : SlotId) (s : Segment) : Bool :=
  slot < t.slotCount && s.contains slot

/-- The segments that a slot is in. -/
def ofSlot (t : Segments) (slot : SlotId) : List Segment := t.entries.filter (t.holds slot)

/-- The first group that a slot is in. -/
def groupOf? (t : Segments) (slot : SlotId) : Option Segment :=
  (t.ofSlot slot).find? fun s => s.kind == .group

/-! ## counting -/

/-- Change the counts of every segment that a slot is in. -/
def count (t : Segments) (slot : SlotId) (f : Counter → Counter) : Segments :=
  { t with entries := t.entries.map fun s =>
      if t.holds slot s then { s with counter := f s.counter } else s }

/-- A call began on a slot. -/
def callStarted (t : Segments) (slot : SlotId) : Segments := t.count slot .started

/-- The call on a slot ended. -/
def callEnded (t : Segments) (slot : SlotId) : Segments := t.count slot .ended

/-- Begin a new period in every segment. -/
def newPeriod (t : Segments) : Segments :=
  { t with entries := t.entries.map fun s => { s with counter := s.counter.newPeriod } }

/-- All segments in words. -/
def report (t : Segments) : String := String.join (t.entries.map (·.text))

end Segments

end Switchboard
