import Switchboard.Proofs.Segment.Names

/-!
# Switchboard.Proofs.Segment.Layout

The segments of boards, written out.

1. The slots of a board are `first, first + 1, …`; its spans share them out in
   order:

       board   first ─────────────────────────────── first + slotCount
       spans   first ──── first + n₀ ──── first + n₀ + n₁ ──── …

2. Groups and registrations are sets of slots; a group has the slots of the spans
   that it names and its own (`mem_groupOn`).
3. These are the segments that are listed, unless there are too many slots
   (`ofConfig_of_check`).
-/

namespace Switchboard

/-- The kind and the name of a segment. -/
def Segment.key (s : Segment) : SegmentKind × String := (s.kind, s.name)

/-- Slots in order are the same slots. -/
theorem mem_orderedSlots {id : SlotId} {slots : List SlotId} :
    id ∈ orderedSlots slots ↔ id ∈ slots := by
  induction slots with
  | nil => rfl
  | cons s rest ih => rw [orderedSlots, List.foldr_cons, ← orderedSlots, mem_insertSlot, ih,
      List.mem_cons]

namespace Segments

variable {first : Nat}

/-! ## segments written out -/

/-- The spans of a board from a slot on, each with its slots. -/
def namedSpans (first : Nat) : List Config.Span → List (String × List SlotId)
  | [] => []
  | s :: rest => (s.name, List.range' first s.slots) :: namedSpans (first + s.slots) rest

/-- A span with its slots. -/
def spanOf (p : String × List SlotId) : Segment := .new .span p.1 p.2

/-- A group on a board with these spans. -/
def groupOn (spans : List (String × List SlotId)) (g : Config.Group) : Segment :=
  { Segment.new .group g.name
      (orderedSlots (g.slots ++ g.spans.flatMap fun name => (spans.lookup name).getD [])) with
    limit := g.limit
    script := g.script }

/-- The segments of a board whose first slot is `first`. -/
def onBoard (first : Nat) (b : Config.Board) : List Segment :=
  (namedSpans first b.spans).map spanOf ++ [.new .board b.name (List.range' first b.slotCount)] ++
    b.groups.map (groupOn (namedSpans first b.spans)) ++ b.registrations.map registration

/-- The segments of boards, the first slot of which is `first`. -/
def onBoards (first : Nat) : List Config.Board → List Segment
  | [] => []
  | b :: rest => onBoard first b ++ onBoards (first + b.slotCount) rest

/-! ## what stands where -/

/-- Spans are laid out one after the other. -/
theorem namedSpans_append (spans more : List Config.Span) :
    namedSpans first (spans ++ more) =
      namedSpans first spans ++ namedSpans (first + total (spans.map (·.slots))) more := by
  induction spans generalizing first with
  | nil => rfl
  | cons s rest ih => simp [namedSpans, ih, total, Nat.add_assoc]

/-- Spans that are laid out keep their names. -/
theorem names_namedSpans (spans : List Config.Span) :
    (namedSpans first spans).map (·.1) = spans.map (·.name) := by
  induction spans generalizing first with
  | nil => rfl
  | cons s rest ih => simp [namedSpans, ih]

/-- The spans of a board share out its slots. -/
theorem slots_namedSpans (spans : List Config.Span) :
    (namedSpans first spans).flatMap (·.2) =
      List.range' first (total (spans.map (·.slots))) := by
  induction spans generalizing first with
  | nil => rfl
  | cons s rest ih =>
      rw [namedSpans, List.flatMap_cons, ih, List.range'_append_1]
      rfl

/-- A name among the spans is looked up. -/
theorem lookup_isSome {spans : List (String × List SlotId)} {name : String}
    (h : name ∈ spans.map (·.1)) : ∃ slots, spans.lookup name = some slots := by
  induction spans with
  | nil => simp at h
  | cons p rest ih =>
      rw [List.lookup_cons]
      split
      · exact ⟨_, rfl⟩
      · next hne =>
          refine ih ?_
          rcases List.mem_cons.mp h with rfl | h
          · simp at hne
          · exact h

/-- Names of spans stand for the slots of these spans. -/
theorem slotsOf_eq {spans : List (String × List SlotId)} {names : List String}
    (h : ∀ name ∈ names, name ∈ spans.map (·.1)) : slotsOf spans names =
      .ok (names.flatMap fun name => (spans.lookup name).getD []) := by
  induction names with
  | nil => rfl
  | cons name rest ih =>
      obtain ⟨hname, hrest⟩ := List.forall_mem_cons.mp h
      obtain ⟨slots, hslots⟩ := lookup_isSome hname
      simp only [slotsOf, hslots, ih hrest, List.flatMap_cons, Option.getD_some]
      rfl

/-- Groups of spans that exist are all made. -/
theorem mapM_group {spans : List (String × List SlotId)} {groups : List Config.Group}
    (h : ∀ g ∈ groups, ∀ name ∈ g.spans, name ∈ spans.map (·.1)) :
    groups.mapM (group spans) = .ok (groups.map (groupOn spans)) := by
  induction groups with
  | nil => rfl
  | cons g rest ih =>
      obtain ⟨hg, hrest⟩ := List.forall_mem_cons.mp h
      rw [List.mapM_cons, group, slotsOf_eq hg, ih hrest]
      rfl

/-- A group has the slots that it names, and those of the spans that it names. -/
theorem mem_groupOn {spans : List (String × List SlotId)} {g : Config.Group} {id : SlotId} :
    id ∈ (groupOn spans g).slots ↔
      id ∈ g.slots ∨ ∃ name ∈ g.spans, id ∈ (spans.lookup name).getD [] := by
  simp [groupOn, Segment.new, mem_orderedSlots]

/-! ## segments that are listed -/

/-- A list of `n` slots is made as described, unless they are too many. -/
def Listed {α : Type} (x : Except Error α) (a : α) (n : Nat) : Prop :=
  x = .ok a ∨ x = .error .capacity ∧ capacity ≤ n

namespace Listed

variable {α β : Type} {x : Except Error α} {f : α → Except Error β} {a : α} {b : β} {n m : Nat}

/-- What is listed one after the other is listed. -/
theorem bind (h : Listed x a n) (hn : n ≤ m) (hf : Listed (f a) b m) : Listed (x >>= f) b m := by
  rcases h with rfl | ⟨rfl, hlarge⟩
  · exact hf
  · exact .inr ⟨rfl, Nat.le_trans hlarge hn⟩

/-- A run of slots is listed. -/
theorem run (first n : Nat) : Listed (run first n) (List.range' first n) n := by
  unfold Segments.run
  split
  · next hlarge => exact .inr ⟨rfl, hlarge⟩
  · exact .inl rfl

/-- So are spans. -/
theorem spansFrom (spans : List Config.Span) :
    Listed (spansFrom first spans) (namedSpans first spans) (total (spans.map (·.slots))) := by
  induction spans generalizing first with
  | nil => exact .inl rfl
  | cons s rest ih =>
      exact (Listed.run first s.slots).bind (Nat.le_add_right _ _)
        (ih.bind (Nat.le_add_left _ _) (.inl rfl))

/-- So is a board. -/
theorem ofBoard {b : Config.Board} (h : b.NamesSpans) :
    Listed (ofBoard first b) (onBoard first b) b.slotCount := by
  have hgroups : b.groups.mapM (group (namedSpans first b.spans)) =
      .ok (b.groups.map (groupOn (namedSpans first b.spans))) := by
    refine mapM_group fun g hg name hname => ?_
    rw [names_namedSpans]
    obtain ⟨s, hs, rfl⟩ := h g hg name hname
    exact List.mem_map_of_mem hs
  refine (Listed.spansFrom b.spans).bind (Nat.le_refl _) ?_
  refine (Listed.run first b.slotCount).bind (Nat.le_refl _) ?_
  rw [hgroups]
  exact .inl rfl

/-- So are boards. -/
theorem ofBoards {boards : List Config.Board} (h : ∀ b ∈ boards, b.NamesSpans) :
    Listed (ofBoards first boards) (onBoards first boards)
      (total (boards.map (·.slotCount))) := by
  induction boards generalizing first with
  | nil => exact .inl rfl
  | cons b rest ih =>
      obtain ⟨hb, hrest⟩ := List.forall_mem_cons.mp h
      exact (Listed.ofBoard hb).bind (Nat.le_add_right _ _)
        ((ih hrest).bind (Nat.le_add_left _ _) (.inl rfl))

end Listed

end Segments

end Switchboard
