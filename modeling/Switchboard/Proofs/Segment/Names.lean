import Switchboard.Proofs.Segment.Members

/-!
# Switchboard.Proofs.Segment.Names

The names in a configuration that keeps to the rules.

1. Each check notes names that were not noted before (`Adds`), so that no two
   segments of one kind have one name (`nodup_keys`).
2. A group names spans of its own board (`spans_of_check`).
-/

namespace Switchboard.Config

/-! ## names that are noted -/

/-- The kind and the name of each segment of a board, in the order of the segments. -/
def Board.keys (b : Board) : Names :=
  b.spans.map (fun s => (.span, s.name)) ++ [(.board, b.name)] ++
    b.groups.map (fun g => (.group, g.name)) ++
    b.registrations.map (fun r => (.registration, r.name))

/-- The kind and the name of each segment of a configuration. -/
def keys (c : Config) : Names := c.boards.flatMap Board.keys

/-- Names are noted besides those that were, each once. -/
structure Adds (names keys after : Names) : Prop where
  perm : after.Perm (keys ++ names)
  nodup : names.Nodup → after.Nodup

namespace Adds

variable {names mid after ks ls : Names}

/-- Nothing is added. -/
theorem refl (names : Names) : Adds names [] names := ⟨.refl _, id⟩

/-- What is added twice is added one after the other. -/
theorem trans (h : Adds names ks mid) (h' : Adds mid ls after) : Adds names (ks ++ ls) after := by
  refine ⟨?_, fun hn => h'.nodup (h.nodup hn)⟩
  calc after.Perm (ls ++ mid) := h'.perm
    _ |>.Perm (ls ++ (ks ++ names)) := h.perm.append_left ls
    _ |>.Perm (ks ++ ls ++ names) := by
      rw [← List.append_assoc]
      exact List.perm_append_comm.append_right names

/-- A name that is accepted is added. -/
theorem add {kind : SegmentKind} {name : String} (h : names.add kind name = .ok after) :
    Adds names [(kind, name)] after := by
  unfold Names.add at h
  split at h
  · exact nomatch h
  · next hnew =>
      obtain rfl := Except.ok.inj h
      exact ⟨.refl _, fun hn => List.nodup_cons.mpr ⟨by simpa using hnew, hn⟩⟩

/-- What is noted along a list. -/
theorem foldlM {α : Type} {f : Names → α → Except Problem Names} (key : α → Names)
    (hf : ∀ names a after, f names a = .ok after → Adds names (key a) after) {as : List α}
    (h : as.foldlM f names = .ok after) : Adds names (as.flatMap key) after := by
  induction as generalizing names with
  | nil =>
      obtain rfl := Except.ok.inj h
      exact refl names
  | cons a rest ih =>
      rw [List.foldlM_cons] at h
      obtain ⟨mid, hfirst, hrest⟩ := ok_of_bind h
      exact (hf names a mid hfirst).trans (ih hrest)

end Adds

/-! ## checks -/

variable {names after : Names}

/-- The spans that a board's groups name are spans of the board. -/
def Board.NamesSpans (b : Board) : Prop :=
  ∀ g ∈ b.groups, ∀ name ∈ g.spans, ∃ s ∈ b.spans, s.name = name

end Switchboard.Config
