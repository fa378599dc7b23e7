import Switchboard.Event

/-!
# Switchboard.Proofs.Segment.Search

Looking for a slot by halves: each look at the middle of a list decides in which
half to go on.  In a list in increasing order every slot is found that is there
(`foundByHalves_eq_contains`).
-/

namespace Switchboard

/-- Whether a slot is found by halves. -/
def foundByHalves (slots : List SlotId) (id : SlotId) : Bool :=
  if h : slots.length ≤ 1 then slots.contains id
  else if id < slots[slots.length / 2] then
    foundByHalves (slots.take (slots.length / 2)) id
  else foundByHalves (slots.drop (slots.length / 2)) id
termination_by slots.length
decreasing_by all_goals simp only [List.length_take, List.length_drop]; omega

theorem mem_halves (slots : List SlotId) (n : Nat) (id : SlotId) :
    id ∈ slots ↔ id ∈ slots.take n ∨ id ∈ slots.drop n := by
  rw [← List.mem_append, List.take_append_drop]

/-- A slot of a list in increasing order is no less than those before it, no greater
than those from it on, and one of the latter. -/
theorem middle_of_halves {slots : List SlotId} (h : slots.Pairwise (· ≤ ·)) {n : Nat}
    (hn : n < slots.length) : (∀ id ∈ slots.take n, id ≤ slots[n]) ∧
      (∀ id ∈ slots.drop n, slots[n] ≤ id) ∧ slots[n] ∈ slots.drop n := by
  have hdrop := List.drop_eq_getElem_cons hn
  have hmem : slots[n] ∈ slots.drop n := by
    rw [hdrop]
    exact List.mem_cons_self
  have hsplit := h
  rw [← List.take_append_drop n slots, List.pairwise_append] at hsplit
  obtain ⟨-, hupper, hacross⟩ := hsplit
  refine ⟨fun id hid => hacross id hid _ hmem, fun id hid => ?_, hmem⟩
  rw [hdrop, List.pairwise_cons] at hupper
  rw [hdrop] at hid
  rcases List.mem_cons.mp hid with rfl | hid
  · exact Nat.le_refl _
  · exact hupper.1 id hid

/-- In slots in increasing order every slot is found that is there, and no other. -/
theorem foundByHalves_eq_contains {slots : List SlotId} (h : slots.Pairwise (· ≤ ·))
    (id : SlotId) : foundByHalves slots id = slots.contains id := by
  fun_induction foundByHalves slots id with
  | case1 slots hshort => rfl
  | case2 slots hlong hlt ih =>
      have hhalf : slots.length / 2 < slots.length := by omega
      obtain ⟨-, hupper, -⟩ := middle_of_halves h hhalf
      have hnot : id ∉ slots.drop (slots.length / 2) := fun hid =>
        Nat.not_le_of_lt hlt (hupper id hid)
      rw [ih h.take, Bool.eq_iff_iff, List.contains_iff_mem, List.contains_iff_mem,
        mem_halves slots (slots.length / 2), or_iff_left hnot]
  | case3 slots hlong hge ih =>
      have hhalf : slots.length / 2 < slots.length := by omega
      obtain ⟨hlower, -, hmiddle⟩ := middle_of_halves h hhalf
      have hagain : id ∈ slots.take (slots.length / 2) → id ∈ slots.drop (slots.length / 2) := by
        intro hid
        rwa [Nat.le_antisymm (hlower id hid) (Nat.le_of_not_lt hge)]
      rw [ih h.drop, Bool.eq_iff_iff, List.contains_iff_mem, List.contains_iff_mem,
        mem_halves slots (slots.length / 2), or_iff_right_of_imp hagain]

end Switchboard
