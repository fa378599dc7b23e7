import Switchboard.Proofs.Script.Nesting
import Switchboard.Segment.Basic

/-!
# Switchboard.Proofs.Segment.Counter

How the counts of segments come about.

1. A configuration describes segments that count no calls
   (`Segments.counter_of_ofConfig`).
2. Calls that end one after the other let a count fall, and leave the least
   count they fell to (`Counter.fallen`).  A count that fits its width goes up and
   down with the calls.
3. Counting changes nothing else about the segments (`Segments.layout`).
-/

namespace Switchboard

/-! ## numbers with a width -/

/-- The greater of two words. -/
theorem toNat_max_uint32 (a b : UInt32) : (max a b).toNat = max a.toNat b.toNat :=
  apply_ite UInt32.toNat (a ≤ b) b a

/-- The smaller of two words. -/
theorem toNat_min_uint32 (a b : UInt32) : (min a b).toNat = min a.toNat b.toNat :=
  apply_ite UInt32.toNat (a ≤ b) a b

namespace Counter

variable {c : Counter}

/-- One call more is counted, or the count begins anew. -/
theorem toNat_current_started (c : Counter) :
    c.started.current.toNat = (c.current.toNat + 1) % UInt32.size := UInt32.toNat_add ..

/-- A call more is one more, as long as the word has room. -/
theorem toNat_current_started_of_lt (h : c.current.toNat + 1 < UInt32.size) :
    c.started.current.toNat = c.current.toNat + 1 :=
  c.toNat_current_started.trans (Nat.mod_eq_of_lt h)

/-- It is never more than one more. -/
theorem toNat_current_started_le (c : Counter) :
    c.started.current.toNat ≤ c.current.toNat + 1 := by
  rw [toNat_current_started]
  exact Nat.mod_le ..

/-- One call less is counted, if any is. -/
theorem toNat_current_ended (c : Counter) :
    c.ended.current.toNat = c.current.toNat - 1 := by
  unfold ended
  dsimp only
  split
  · next h => rw [h]; rfl
  · next h =>
    have hpos : (1 : UInt32).toNat ≤ c.current.toNat :=
      Nat.one_le_iff_ne_zero.mpr fun hzero => h (UInt32.toNat_inj.mp hzero)
    exact UInt32.toNat_sub_of_le _ _ (UInt32.le_iff_toNat_le.mpr hpos)

/-! ## calls that end -/

/-- The counts when no more than `now` calls are left. -/
def fallen (c : Counter) (now : UInt32) : Counter :=
  { c with current := now, min := Min.min c.min now }

/-- Of two falls the deeper one counts. -/
theorem fallen_fallen (c : Counter) {n m : UInt32} (h : m ≤ n) :
    (c.fallen n).fallen m = c.fallen m := by
  have hmin : Min.min (Min.min c.min n) m = Min.min c.min m := by
    refine UInt32.toNat_inj.mp ?_
    rw [toNat_min_uint32, toNat_min_uint32, toNat_min_uint32, Nat.min_assoc,
      Nat.min_eq_right (UInt32.le_iff_toNat_le.mp h)]
  simp [fallen, hmin]

/-- Without a fall the counts stay as they are. -/
theorem fallen_current (h : c.min ≤ c.current) : c.fallen c.current = c := by
  have hmin : Min.min c.min c.current = c.min := if_pos h
  simp [fallen, hmin]

/-- When a call ends, the counts fall to what is left. -/
theorem ended_eq_fallen (c : Counter) : c.ended = c.fallen c.ended.current := rfl

end Counter

/-! ## before the first call -/

namespace Segments

/-- A group begins with its counter at nought. -/
theorem counter_group {spans : List (String × List SlotId)} {g : Config.Group} {s : Segment}
    (h : group spans g = .ok s) : s.counter = .zero := by
  obtain ⟨slots, -, hs⟩ := ok_of_bind h
  obtain rfl := Except.ok.inj hs
  rfl

/-- So do all groups. -/
theorem counter_groups {spans : List (String × List SlotId)} {groups : List Config.Group}
    {segments : List Segment} (h : groups.mapM (group spans) = .ok segments) :
    ∀ s ∈ segments, s.counter = .zero := by
  induction groups generalizing segments with
  | nil =>
      obtain rfl := Except.ok.inj h
      simp
  | cons g rest ih =>
      rw [List.mapM_cons] at h
      obtain ⟨here, hhere, h⟩ := ok_of_bind h
      obtain ⟨others, hothers, h⟩ := ok_of_bind h
      obtain rfl := Except.ok.inj h
      exact List.forall_mem_cons.mpr ⟨counter_group hhere, ih hothers⟩

/-- So does every segment of a board. -/
theorem counter_ofBoard {first : Nat} {b : Config.Board} {segments : List Segment}
    (h : ofBoard first b = .ok segments) : ∀ s ∈ segments, s.counter = .zero := by
  obtain ⟨spans, -, h⟩ := ok_of_bind h
  obtain ⟨slots, -, h⟩ := ok_of_bind h
  obtain ⟨groups, hgroups, h⟩ := ok_of_bind h
  obtain rfl := Except.ok.inj h
  intro s hs
  simp only [List.mem_append, List.mem_map, List.mem_singleton] at hs
  rcases hs with ((⟨span, -, rfl⟩ | rfl) | hs) | ⟨registration, -, rfl⟩
  · rfl
  · rfl
  · exact counter_groups hgroups s hs
  · rfl

/-- So does every segment of all boards. -/
theorem counter_ofBoards {first : Nat} {boards : List Config.Board} {segments : List Segment}
    (h : ofBoards first boards = .ok segments) : ∀ s ∈ segments, s.counter = .zero := by
  induction boards generalizing first segments with
  | nil =>
      obtain rfl := Except.ok.inj h
      simp
  | cons b rest ih =>
      obtain ⟨here, hhere, h⟩ := ok_of_bind h
      obtain ⟨others, hothers, h⟩ := ok_of_bind h
      obtain rfl := Except.ok.inj h
      exact List.forall_mem_append.mpr ⟨counter_ofBoard hhere, ih hothers⟩

/-- The segments of a configuration are those of its boards. -/
theorem entries_of_ofConfig {c : Config} {t : Segments} (h : ofConfig c = .ok t) :
    ofBoards 0 c.boards = .ok t.entries ∧ t.slotCount = c.slotCount := by
  obtain ⟨entries, hentries, h⟩ := ok_of_bind h
  dsimp only at h
  split at h
  · exact nomatch h
  · obtain rfl := Except.ok.inj h
    exact ⟨hentries, rfl⟩

/-- A configuration describes segments that count no calls. -/
theorem counter_of_ofConfig {c : Config} {t : Segments} (h : ofConfig c = .ok t) :
    ∀ s ∈ t.entries, s.counter = .zero :=
  counter_ofBoards (entries_of_ofConfig h).1

end Segments

/-! ## what counting leaves alone -/

/-- A segment, whatever it counts. -/
def Segment.blank (s : Segment) : Segment := { s with counter := .zero }

namespace Segments

/-- The segments, whatever they count. -/
def layout (t : Segments) : List Segment := t.entries.map Segment.blank

variable {t u : Segments}

/-- A count leaves the layout alone. -/
theorem layout_count (t : Segments) (slot : SlotId) (f : Counter → Counter) :
    (t.count slot f).layout = t.layout := by
  unfold layout count
  rw [List.map_map]
  refine List.map_congr_left fun s _ => ?_
  dsimp only [Function.comp_apply]
  split <;> rfl

/-- So does a new period. -/
theorem layout_newPeriod (t : Segments) : t.newPeriod.layout = t.layout := by
  unfold layout newPeriod
  rw [List.map_map]
  rfl

/-- Where the layout is the same, so are the groups. -/
theorem group?_of_layout (h : t.layout = u.layout) (name : String) :
    (t.group? name).map Segment.blank = (u.group? name).map Segment.blank := by
  have hblank : ∀ t : Segments, (t.group? name).map Segment.blank =
      t.layout.find? fun s => s.kind == .group && s.name == name := by
    intro t
    rw [layout, List.find?_map]
    rfl
  rw [hblank, hblank, h]

end Segments

end Switchboard
