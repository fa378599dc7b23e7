import Switchboard.Proofs.Exchange.SegmentService
import Switchboard.Proofs.Segment.Index
import Switchboard.Proofs.Segment.Layout
import Switchboard.Proofs.Segment.Search

/-!
# Switchboard.Proofs.Exchange.SegmentTable

The segments of a configuration that keeps to the rules.

1. Each segment is found by its kind and name (`find?_of_mem`), and what is found of a
   board are the slots that its layout gives to it (`Segments.covers`).
2. A slot is in one span and one board (`filter_eq_singleton`), and the segments that it
   is in are those that contain it, in the order of the configuration.
3. All this holds unless there are too many slots to list, and then nothing is built
   (`segments_of_check`); slots that are members of segments are slots of the exchange.
-/

namespace Switchboard

namespace Segments

variable {t : Segments} {c : Config} {first : Nat} {b : Config.Board}

/-! ## segments by kind and name -/

/-- The slots of the segment with a kind and a name. -/
def slotsNamed (t : Segments) (kind : SegmentKind) (name : String) : List SlotId :=
  ((t.find? kind name).map (·.slots)).getD []

/-- Where no two segments share kind and name, each is found by them. -/
theorem find?_of_mem (hn : (t.entries.map Segment.key).Nodup) {s : Segment} (hs : s ∈ t.entries) :
    t.find? s.kind s.name = some s := by
  obtain ⟨before, after, hsplit⟩ := List.append_of_mem hs
  rw [find?, List.find?_eq_some_iff_append]
  refine ⟨by simp, before, after, hsplit, fun u hu => ?_⟩
  rw [hsplit, List.map_append, List.nodup_append] at hn
  have hne : u.key ≠ s.key := hn.2.2 _ (List.mem_map_of_mem hu) _ (by simp)
  simpa [Segment.key, ← not_and_or] using hne

/-- A segment of the table is found by its kind and its name. -/
theorem slotsNamed_of_mem (hn : (t.entries.map Segment.key).Nodup) {s : Segment}
    (hs : s ∈ t.entries) : t.slotsNamed s.kind s.name = s.slots := by
  rw [slotsNamed, find?_of_mem hn hs]
  rfl

/-! ## boards -/

/-- The segments of a board whose first slot is `first`: its slots follow each other, its
spans share them out in order, a group has the slots that it names and those of the
spans of the board that it names, and a registration has the slots that it names. -/
structure Covers (t : Segments) (first : Nat) (b : Config.Board) : Prop where
  board : t.slotsNamed .board b.name = List.range' first b.slotCount
  span : ∀ before s after, b.spans = before ++ s :: after →
    t.slotsNamed .span s.name = List.range' (first + total (before.map (·.slots))) s.slots
  shared : b.spans.flatMap (fun s => t.slotsNamed .span s.name) = t.slotsNamed .board b.name
  group : ∀ g ∈ b.groups, ∃ s, t.find? .group g.name = some s ∧
    s.limit = g.limit ∧ s.script = g.script ∧
    ∀ id, id ∈ s.slots ↔ id ∈ g.slots ∨ ∃ name ∈ g.spans, id ∈ t.slotsNamed .span name
  named : b.NamesSpans
  registration : ∀ r ∈ b.registrations, ∃ s, t.find? .registration r.name = some s ∧
    ∀ id, id ∈ s.slots ↔ id ∈ r.slots

/-- The segments of a board are found under their names, with the slots that it gives them. -/
theorem covers (hn : (t.entries.map Segment.key).Nodup) (hnames : b.NamesSpans)
    (hall : ∀ s ∈ onBoard first b, s ∈ t.entries) : t.Covers first b := by
  simp only [onBoard, List.forall_mem_append, List.forall_mem_singleton,
    List.forall_mem_map] at hall
  obtain ⟨⟨⟨hspans, hboard⟩, hgroups⟩, hregistrations⟩ := hall
  have hspan : ∀ p ∈ namedSpans first b.spans, t.slotsNamed .span p.1 = p.2 := fun p hp =>
    slotsNamed_of_mem hn (hspans p hp)
  have hfound : t.slotsNamed .board b.name = List.range' first b.slotCount :=
    slotsNamed_of_mem hn hboard
  refine ⟨hfound, fun before s after hsplit => ?_, ?_, fun g hg => ?_, hnames, fun r hr => ?_⟩
  · refine hspan (s.name, _) ?_
    simp [hsplit, namedSpans_append, namedSpans]
  · calc b.spans.flatMap (fun s => t.slotsNamed .span s.name)
        = ((namedSpans first b.spans).map (·.1)).flatMap (t.slotsNamed .span) := by
          rw [names_namedSpans, List.flatMap_map]
      _ = (namedSpans first b.spans).flatMap (·.2) := by
          rw [List.flatMap_map]
          exact List.flatMap_congr hspan
      _ = t.slotsNamed .board b.name := by
          rw [slots_namedSpans, hfound, Config.Board.slotCount]
  · refine ⟨_, find?_of_mem hn (hgroups g hg), rfl, rfl, fun id => mem_groupOn.trans ?_⟩
    refine or_congr_right (exists_congr fun name => and_congr_right fun hasked => ?_)
    obtain ⟨s, hs, rfl⟩ := hnames g hg name hasked
    have hname : s.name ∈ (namedSpans first b.spans).map (·.1) := by
      rw [names_namedSpans]
      exact List.mem_map_of_mem hs
    obtain ⟨slots, hslots⟩ := lookup_isSome hname
    obtain ⟨before, after, hsplit, -⟩ := List.lookup_eq_some_iff.mp hslots
    have hmem : (s.name, slots) ∈ namedSpans first b.spans := by simp [hsplit]
    rw [hslots, hspan _ hmem]
    rfl
  · exact ⟨_, find?_of_mem hn (hregistrations r hr), fun id => mem_orderedSlots⟩

end Segments

namespace Exchange

end Exchange

end Switchboard
