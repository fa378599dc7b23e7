import Switchboard.Config.Check
import Switchboard.Proofs.Segment.Counter

/-!
# Switchboard.Proofs.Segment.Members

The slots of the segments that a configuration describes.

1. Sets of slots are in increasing order, each slot once (`orderly_orderedSlots`),
   and so are the slots of spans and boards, which are runs of numbers.
2. A configuration that keeps to the rules names only slots that exist
   (`Config.slots_of_check`).
3. So the slots of every segment are in increasing order, and all exist
   (`Segments.orderly_of_ofConfig`).
-/

namespace Switchboard

/-- Slots in increasing order, all of them below `n`. -/
structure Orderly (n : Nat) (slots : List SlotId) : Prop where
  rising : slots.Pairwise (· < ·)
  below : ∀ id ∈ slots, id < n

/-- No slot is listed twice. -/
theorem Orderly.nodup {n : Nat} {slots : List SlotId} (h : Orderly n slots) : slots.Nodup :=
  h.rising.imp Nat.ne_of_lt

/-! ## sets of slots -/

/-- A slot that is put in is there beside the others. -/
theorem mem_insertSlot {slot id : SlotId} {slots : List SlotId} :
    id ∈ insertSlot slot slots ↔ id = slot ∨ id ∈ slots := by
  induction slots with
  | nil => simp [insertSlot]
  | cons s rest ih =>
      unfold insertSlot
      split
      · simp
      · split
        · next heq => simp [heq]
        · simp [ih, or_left_comm]

/-- It is put in its place. -/
theorem rising_insertSlot {slot : SlotId} {slots : List SlotId} (h : slots.Pairwise (· < ·)) :
    (insertSlot slot slots).Pairwise (· < ·) := by
  induction slots with
  | nil => simp [insertSlot]
  | cons s rest ih =>
      obtain ⟨hs, hrest⟩ := List.pairwise_cons.mp h
      unfold insertSlot
      split
      · next hlt =>
          refine List.pairwise_cons.mpr ⟨fun id hid => ?_, h⟩
          rcases List.mem_cons.mp hid with rfl | hid
          · exact hlt
          · exact Nat.lt_trans hlt (hs id hid)
      · next hle =>
          split
          · exact h
          · next hne =>
              refine List.pairwise_cons.mpr ⟨fun id hid => ?_, ih hrest⟩
              rcases mem_insertSlot.mp hid with rfl | hid
              · exact Nat.lt_of_le_of_ne (Nat.le_of_not_lt hle) (Ne.symm hne)
              · exact hs id hid

/-- Slots in increasing order, if they exist. -/
theorem orderly_orderedSlots {n : Nat} {slots : List SlotId} (h : ∀ id ∈ slots, id < n) :
    Orderly n (orderedSlots slots) := by
  induction slots with
  | nil => exact ⟨.nil, h⟩
  | cons s rest ih =>
      obtain ⟨hs, hrest⟩ := List.forall_mem_cons.mp h
      have hset := ih hrest
      refine ⟨rising_insertSlot hset.rising, fun id hid => ?_⟩
      rcases mem_insertSlot.mp hid with rfl | hid
      · exact hs
      · exact hset.below id hid

/-! ## slots that exist -/

/-- What is noted along a list was noted for each of its elements. -/
theorem ok_of_foldlM {ε α β : Type} {f : β → α → Except ε β} {as : List α} {b c : β}
    (h : as.foldlM f b = .ok c) : ∀ a ∈ as, ∃ d e, f d a = .ok e := by
  induction as generalizing b with
  | nil => simp
  | cons a rest ih =>
      rw [List.foldlM_cons] at h
      obtain ⟨d, hfirst, hrest⟩ := ok_of_bind h
      exact List.forall_mem_cons.mpr ⟨⟨b, d, hfirst⟩, ih hrest⟩

namespace Config

/-- Slots that are checked exist. -/
theorem slots_of_checkSlots {owner : String} {slots : List SlotId} {n : Nat}
    (h : checkSlots owner slots n = .ok ()) : ∀ id ∈ slots, id < n := by
  unfold checkSlots at h
  split at h
  · exact nomatch h
  · next hnone =>
      intro id hid
      simpa using List.find?_eq_none.mp hnone id hid

/-- So do the slots of a group. -/
theorem slots_of_group {g : Group} {spans : List Span} {n : Nat} {names after : Names}
    (h : g.check spans n names = .ok after) : ∀ id ∈ g.slots, id < n := by
  obtain ⟨_, -, h⟩ := ok_of_bind h
  dsimp only at h
  split at h
  · exact nomatch h
  · obtain ⟨_, hslots, -⟩ := ok_of_bind h
    exact slots_of_checkSlots hslots

/-- So do those of a registration. -/
theorem slots_of_registration {r : Registration} {n : Nat} {names after : Names}
    (h : r.check n names = .ok after) : ∀ id ∈ r.slots, id < n := by
  obtain ⟨_, -, h⟩ := ok_of_bind h
  obtain ⟨_, hslots, -⟩ := ok_of_bind h
  exact slots_of_checkSlots hslots

/-- The single slots that a board names are below `n`. -/
structure Board.SlotsBelow (b : Board) (n : Nat) : Prop where
  group : ∀ g ∈ b.groups, ∀ id ∈ g.slots, id < n
  registration : ∀ r ∈ b.registrations, ∀ id ∈ r.slots, id < n

/-- So do all that a board names. -/
theorem slots_of_board {b : Board} {n : Nat} {names after : Config.Names}
    (h : b.check n names = .ok after) : b.SlotsBelow n := by
  obtain ⟨_, -, h⟩ := ok_of_bind h
  obtain ⟨_, -, h⟩ := ok_of_bind h
  obtain ⟨_, hgroups, hregistrations⟩ := ok_of_bind h
  refine ⟨fun g hg => ?_, fun r hr => ?_⟩
  · obtain ⟨_, _, hcheck⟩ := ok_of_foldlM hgroups g hg
    exact slots_of_group hcheck
  · obtain ⟨_, _, hcheck⟩ := ok_of_foldlM hregistrations r hr
    exact slots_of_registration hcheck

/-- The boards of a configuration that keeps to the rules do, one after the other. -/
theorem boards_of_check {c : Config} (h : c.check = .ok ()) :
    ∃ after, c.boards.foldlM (fun names b => b.check c.slotCount names) [] = .ok after := by
  unfold check at h
  split at h
  · exact nomatch h
  · obtain ⟨_, -, h⟩ := ok_of_bind h
    obtain ⟨_, -, h⟩ := ok_of_bind h
    obtain ⟨_, -, h⟩ := ok_of_bind h
    obtain ⟨_, -, h⟩ := ok_of_bind h
    obtain ⟨after, hboards, -⟩ := ok_of_bind h
    exact ⟨after, hboards⟩

/-- A configuration that keeps to the rules names only slots that exist. -/
theorem slots_of_check {c : Config} (h : c.check = .ok ()) :
    ∀ b ∈ c.boards, b.SlotsBelow c.slotCount := by
  obtain ⟨after, hboards⟩ := boards_of_check h
  intro b hb
  obtain ⟨_, _, hcheck⟩ := ok_of_foldlM hboards b hb
  exact slots_of_board hcheck

end Config

/-! ## the segments of a configuration -/

namespace Segments

variable {n first : Nat}

/-- The slots of a run are in order. -/
theorem orderly_run {count : Nat} {slots : List SlotId} (h : run first count = .ok slots)
    (hn : first + count ≤ n) : Orderly n slots := by
  unfold run at h
  split at h
  · exact nomatch h
  · obtain rfl := Except.ok.inj h
    refine ⟨List.pairwise_lt_range', fun id hid => ?_⟩
    have hlt := (List.mem_range'_1.mp hid).2
    exact Nat.lt_of_lt_of_le hlt hn

/-- So are those of each span. -/
theorem orderly_spansFrom {spans : List Config.Span} {named : List (String × List SlotId)}
    (h : spansFrom first spans = .ok named) (hn : first + total (spans.map (·.slots)) ≤ n) :
    ∀ p ∈ named, Orderly n p.2 := by
  induction spans generalizing first named with
  | nil =>
      obtain rfl := Except.ok.inj h
      simp
  | cons s rest ih =>
      obtain ⟨slots, hslots, h⟩ := ok_of_bind h
      obtain ⟨others, hothers, h⟩ := ok_of_bind h
      obtain rfl := Except.ok.inj h
      have htotal : first + (s.slots + total (rest.map (·.slots))) ≤ n := hn
      exact List.forall_mem_cons.mpr ⟨orderly_run hslots (by omega), ih hothers (by omega)⟩

/-- The slots of spans exist where those of each span do. -/
theorem below_slotsOf {spans : List (String × List SlotId)} {names : List String}
    {slots : List SlotId} (h : slotsOf spans names = .ok slots)
    (hspans : ∀ p ∈ spans, Orderly n p.2) : ∀ id ∈ slots, id < n := by
  induction names generalizing slots with
  | nil =>
      obtain rfl := Except.ok.inj h
      simp
  | cons name rest ih =>
      unfold slotsOf at h
      cases hlookup : spans.lookup name with
      | none =>
          rw [hlookup] at h
          exact nomatch h
      | some found =>
          rw [hlookup] at h
          obtain ⟨others, hothers, h⟩ := ok_of_bind h
          obtain rfl := Except.ok.inj h
          obtain ⟨before, after, hsplit, -⟩ := List.lookup_eq_some_iff.mp hlookup
          have hfound : (name, found) ∈ spans := by simp [hsplit]
          exact List.forall_mem_append.mpr ⟨(hspans _ hfound).below, ih hothers⟩

/-- So are those of a group. -/
theorem orderly_group {spans : List (String × List SlotId)} {g : Config.Group} {s : Segment}
    (h : group spans g = .ok s) (hspans : ∀ p ∈ spans, Orderly n p.2)
    (hslots : ∀ id ∈ g.slots, id < n) : Orderly n s.slots := by
  obtain ⟨slots, hnamed, h⟩ := ok_of_bind h
  obtain rfl := Except.ok.inj h
  exact orderly_orderedSlots
    (List.forall_mem_append.mpr ⟨hslots, below_slotsOf hnamed hspans⟩)

/-- So are those of all groups. -/
theorem orderly_groups {spans : List (String × List SlotId)} {groups : List Config.Group}
    {segments : List Segment} (h : groups.mapM (group spans) = .ok segments)
    (hspans : ∀ p ∈ spans, Orderly n p.2) (hslots : ∀ g ∈ groups, ∀ id ∈ g.slots, id < n) :
    ∀ s ∈ segments, Orderly n s.slots := by
  induction groups generalizing segments with
  | nil =>
      obtain rfl := Except.ok.inj h
      simp
  | cons g rest ih =>
      rw [List.mapM_cons] at h
      obtain ⟨here, hhere, h⟩ := ok_of_bind h
      obtain ⟨others, hothers, h⟩ := ok_of_bind h
      obtain rfl := Except.ok.inj h
      obtain ⟨hg, hrest⟩ := List.forall_mem_cons.mp hslots
      exact List.forall_mem_cons.mpr ⟨orderly_group hhere hspans hg, ih hothers hrest⟩

/-- So are those of every segment of a board. -/
theorem orderly_ofBoard {b : Config.Board} {segments : List Segment}
    (h : ofBoard first b = .ok segments) (hn : first + b.slotCount ≤ n) (hb : b.SlotsBelow n) :
    ∀ s ∈ segments, Orderly n s.slots := by
  obtain ⟨spans, hspans, h⟩ := ok_of_bind h
  obtain ⟨slots, hslots, h⟩ := ok_of_bind h
  obtain ⟨groups, hgroups, h⟩ := ok_of_bind h
  obtain rfl := Except.ok.inj h
  have hnamed := orderly_spansFrom hspans hn
  intro s hs
  simp only [List.mem_append, List.mem_map, List.mem_singleton] at hs
  rcases hs with ((⟨span, hspan, rfl⟩ | rfl) | hs) | ⟨r, hr, rfl⟩
  · exact hnamed span hspan
  · exact orderly_run hslots hn
  · exact orderly_groups hgroups hnamed hb.group s hs
  · exact orderly_orderedSlots (hb.registration r hr)

/-- So are those of every segment of all boards. -/
theorem orderly_ofBoards {boards : List Config.Board} {segments : List Segment}
    (h : ofBoards first boards = .ok segments)
    (hn : first + total (boards.map (·.slotCount)) ≤ n) (hb : ∀ b ∈ boards, b.SlotsBelow n) :
    ∀ s ∈ segments, Orderly n s.slots := by
  induction boards generalizing first segments with
  | nil =>
      obtain rfl := Except.ok.inj h
      simp
  | cons b rest ih =>
      obtain ⟨here, hhere, h⟩ := ok_of_bind h
      obtain ⟨others, hothers, h⟩ := ok_of_bind h
      obtain rfl := Except.ok.inj h
      obtain ⟨hfirst, hrest⟩ := List.forall_mem_cons.mp hb
      have htotal : first + (b.slotCount + total (rest.map (·.slotCount))) ≤ n := hn
      exact List.forall_mem_append.mpr
        ⟨orderly_ofBoard hhere (by omega) hfirst, ih hothers (by omega) hrest⟩

/-- The slots of every segment are in increasing order, and all exist, if the
configuration keeps to the rules. -/
theorem orderly_of_ofConfig {c : Config} {t : Segments} (hc : c.check = .ok ())
    (h : ofConfig c = .ok t) : ∀ s ∈ t.entries, Orderly t.slotCount s.slots := by
  obtain ⟨hentries, hcount⟩ := entries_of_ofConfig h
  have hall : 0 + total (c.boards.map (·.slotCount)) ≤ c.slotCount :=
    Nat.le_of_eq (Nat.zero_add _)
  rw [hcount]
  exact orderly_ofBoards hentries hall (Config.slots_of_check hc)

end Segments

end Switchboard
