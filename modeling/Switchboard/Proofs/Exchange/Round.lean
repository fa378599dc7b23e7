import Switchboard.Proofs.Exchange.Rejection
import Switchboard.Proofs.Exchange.Waiting

/-!
# Switchboard.Proofs.Exchange.Round

Work that is done on one slot after the other.

1. A round does the same work on some slots (`round`).  Each of them becomes what the
   work makes of it as it was before the round, and the others stay as they are
   (`slot_round`, `getElem?_round`).  The work is broken off if that of one of them is
   (`broken_round`).
2. Work that keeps the law for its slot leaves another slot alone, and its places on
   the lists of free and of reserved slots too (`Alone`).  So a slot in a round sees
   nothing of it but its own turn (`Lawful.turn`).
3. Events for segments and looks at the timers are rounds (`round_postEach`,
   `round_expireDue`).  A look at the timers comes to all slots, unless the work on
   one of them is broken off (`reached`).
-/

namespace Switchboard.Exchange

variable {σ α : Type} {x y z : Exchange σ} {id other : SlotId} {s : Slot σ} {ids : List SlotId}
  {now : Nat}

variable {f : Station σ → Station σ × α} {g : Slot σ → Work σ × α}

/-! ## rounds -/

/-- The same work on slots, one after the other. -/
def round (f : Station σ → Station σ × α) (ids : List SlotId) (x : Exchange σ) : Exchange σ :=
  ids.foldl (fun x id => (x.atSlot id f).1) x

/-- A slot that is not in the round stays as it is. -/
theorem getElem?_round (f : Station σ → Station σ × α) (hid : id ∉ ids) :
    (x.round f ids).slots[id]? = x.slots[id]? := by
  induction ids generalizing x with
  | nil => rfl
  | cons other rest ih =>
      have hne : id ≠ other := List.ne_of_not_mem_cons hid
      have hrest : id ∉ rest := List.not_mem_of_not_mem_cons hid
      exact (ih hrest).trans (getElem?_atSlot_ne hne f)

/-- What a round makes of a slot depends only on the slot as it was before. -/
theorem slot_round (hg : Station.Answers f g) (hn : ids.Nodup) (hid : id ∈ ids)
    (hs : x.slots[id]? = some s) : (x.round f ids).slots[id]? = some (g s).1.slot := by
  induction ids generalizing x with
  | nil => simp at hid
  | cons other rest ih =>
      obtain ⟨hother, hrest⟩ := List.nodup_cons.mp hn
      by_cases hne : id = other
      · subst hne
        have hturn := getElem?_atSlot_self hs f
        rw [hg.eq] at hturn
        exact (getElem?_round f hother).trans hturn
      · have hlater : id ∈ rest := (List.mem_cons.mp hid).resolve_left hne
        exact ih hrest hlater ((getElem?_atSlot_ne hne f).trans hs)

/-- A round is broken off if the work on one of its slots is. -/
theorem broken_round (hg : Station.Answers f g) (hn : ids.Nodup) :
    (x.round f ids).ledger.broken = true ↔ x.ledger.broken = true ∨
      ∃ id ∈ ids, ∃ s, x.slots[id]? = some s ∧ Entry.breaks ∈ (g s).1.entries := by
  induction ids generalizing x with
  | nil => simp [round]
  | cons id rest ih =>
      obtain ⟨hid, hrest⟩ := List.nodup_cons.mp hn
      have hturn : (x.atSlot id f).1.ledger.broken = true ↔ x.ledger.broken = true ∨
          ∃ s, x.slots[id]? = some s ∧ Entry.breaks ∈ (g s).1.entries := by
        cases hs : x.slots[id]? with
        | none =>
            rw [atSlot_of_none hs]
            simp
        | some s =>
            rw [atSlot_of_getElem? hs, hg.eq]
            simpa [Work.on] using Ledger.broken_enterAll x.ledger _ (g s).1.entries
      have hother : ∀ j ∈ rest, (x.atSlot id f).1.slots[j]? = x.slots[j]? :=
        fun j hj => getElem?_atSlot_ne (ne_of_mem_of_not_mem hj hid) f
      refine (ih hrest).trans ?_
      rw [hturn, or_assoc]
      simp only [List.mem_cons, or_and_right, exists_or, exists_eq_left]
      refine or_congr_right (or_congr_right (exists_congr fun j => and_congr_right fun hj => ?_))
      rw [hother j hj]

/-! ## slots that are left alone -/

/-- A slot is left alone, and so are its places on the lists. -/
structure Alone (id : SlotId) (x y : Exchange σ) : Prop where
  slot : y.slots[id]? = x.slots[id]?
  listed : y.ledger.Lists id ↔ x.ledger.Lists id
  reserved : y.ledger.Reserves id ↔ x.ledger.Reserves id

theorem Alone.refl (id : SlotId) (x : Exchange σ) : Alone id x x := ⟨rfl, .rfl, .rfl⟩

theorem Alone.trans (h : Alone id x y) (h' : Alone id y z) : Alone id x z :=
  ⟨h'.slot.trans h.slot, h'.listed.trans h.listed, h'.reserved.trans h.reserved⟩

/-- Work that keeps the law for the slot it is done on. -/
def KeepsLaw (f : Station σ → Station σ × α) : Prop :=
  ∀ s : Station σ, s.Lawful → s.ledger.idle.slots.Nodup → Station.Keeps s (f s).1

theorem KeepsLaw.post (o : Office σ) (e : Event) : KeepsLaw (Station.post o e) :=
  fun _ hs hn => hs.post hn o e

theorem Lawful.atSlot_keepsLaw (h : x.Lawful) (hf : KeepsLaw f) (id : SlotId) :
    (x.atSlot id f).1.Lawful := h.atSlot id fun s _ hs hn => hf s hs hn

/-- Work on another slot leaves a slot alone. -/
theorem Lawful.alone_atSlot (h : x.Lawful) (hf : KeepsLaw f) (hne : id ≠ other) :
    Alone id x (x.atSlot other f).1 := by
  have hstays := h.stays_atSlot hne fun slot hslot =>
    hf ⟨slot, x.ledger⟩ (h.station hslot) h.nodup
  exact ⟨getElem?_atSlot_ne hne f, hstays.listed, hstays.reserved⟩

/-- A slot that is not in the round is left alone. -/
theorem Lawful.alone_round (h : x.Lawful) (hf : KeepsLaw f) (hid : id ∉ ids) :
    Alone id x (x.round f ids) := by
  induction ids generalizing x with
  | nil => exact .refl id x
  | cons other rest ih =>
      have hne : id ≠ other := List.ne_of_not_mem_cons hid
      have hrest : id ∉ rest := List.not_mem_of_not_mem_cons hid
      exact (h.alone_atSlot hf hne).trans (ih (h.atSlot_keepsLaw hf other) hrest)

/-- A slot that is in the round is left alone before and after its own turn. -/
theorem Lawful.turn (h : x.Lawful) (hf : KeepsLaw f) (hn : ids.Nodup) (hid : id ∈ ids) :
    ∃ y, y.Lawful ∧ Alone id x y ∧ Alone id (y.atSlot id f).1 (x.round f ids) := by
  induction ids generalizing x with
  | nil => simp at hid
  | cons other rest ih =>
      obtain ⟨hother, hrest⟩ := List.nodup_cons.mp hn
      have hnext := h.atSlot_keepsLaw hf other
      by_cases hne : id = other
      · subst hne
        exact ⟨x, h, .refl id x, hnext.alone_round hf hother⟩
      · have hlater : id ∈ rest := (List.mem_cons.mp hid).resolve_left hne
        obtain ⟨y, hy, hbefore, hafter⟩ := ih hnext hrest hlater
        exact ⟨y, hy, (h.alone_atSlot hf hne).trans hbefore, hafter⟩

/-- A slot on which there is nothing to do is left alone. -/
theorem Lawful.alone_round_of_rest (h : x.Lawful) (hf : KeepsLaw f) (hn : ids.Nodup)
    (hs : x.slots[id]? = some s) (hrest : ∀ l, ∃ a, f ⟨s, l⟩ = (⟨s, l⟩, a)) :
    Alone id x (x.round f ids) := by
  by_cases hid : id ∈ ids
  · obtain ⟨y, -, hbefore, hafter⟩ := h.turn hf hn hid
    obtain ⟨a, ha⟩ := hrest y.ledger
    have hy : y.slots[id]? = some s := hbefore.slot.trans hs
    rw [atSlot_eq_self hy ha] at hafter
    exact hbefore.trans hafter
  · exact h.alone_round hf hid

/-! ## the rounds of an exchange -/

/-- An event goes round the slots that it is posted to. -/
theorem round_postEach (e : Event) (ids : List SlotId) (x : Exchange σ)
    (refused : Option Error) :
    (postEach e ids (x, refused)).1 = x.round (Station.post x.office e) ids := by
  induction ids generalizing x refused with
  | nil => rfl
  | cons id rest ih =>
      have hoffice : (x.post id e).1.office = x.office := by
        rw [post_eq_atSlot]
        exact atSlot_cases (R := fun y => y.office = x.office) id _ rfl fun _ _ => rfl
      have hrest := ih (x.post id e).1 (refusalAfter id e refused (x.post id e).2 (x.post id e).1)
      have hturn : (x.post id e).1.round (Station.post x.office e) rest =
          x.round (Station.post x.office e) (id :: rest) := by
        rw [post_eq_atSlot]
        rfl
      rw [hoffice] at hrest
      exact hrest.trans hturn

/-- The slots that a look at the timers comes to: none behind one on which the work is
broken off. -/
def reached (x : Exchange σ) (now : Nat) : List SlotId → List SlotId
  | [] => []
  | id :: rest =>
    id :: if x.breaksOff id (Station.expire x.office now) then [] else x.reached now rest

/-- A look that nothing breaks off comes to all slots. -/
theorem reached_eq (h : ∀ id ∈ ids, x.breaksOff id (Station.expire x.office now) = false) :
    x.reached now ids = ids := by
  induction ids with
  | nil => rfl
  | cons id rest ih =>
      rw [reached, h id List.mem_cons_self, if_neg Bool.false_ne_true,
        ih fun j hj => h j (List.mem_cons_of_mem id hj)]

/-- If the work on a slot is broken off, then it is on one that the look comes to. -/
theorem exists_reached : (∃ id ∈ x.reached now ids,
      x.breaksOff id (Station.expire x.office now) = true) ↔
    ∃ id ∈ ids, x.breaksOff id (Station.expire x.office now) = true := by
  induction ids with
  | nil => rfl
  | cons id rest ih =>
      cases hbreaks : x.breaksOff id (Station.expire x.office now) with
      | true => simp [reached, hbreaks]
      | false => simp [reached, hbreaks, ih]

theorem sublist_reached (x : Exchange σ) (now : Nat) (ids : List SlotId) :
    (x.reached now ids).Sublist ids := by
  induction ids with
  | nil => exact .slnil
  | cons id rest ih =>
      rw [reached]
      split
      · exact List.Sublist.cons_cons id (List.nil_sublist rest)
      · exact ih.cons_cons id

/-- What is left of the way does not depend on the slots behind. -/
theorem reached_congr (hoffice : y.office = x.office)
    (h : ∀ id ∈ ids, y.slots[id]? = x.slots[id]?) : y.reached now ids = x.reached now ids := by
  induction ids with
  | nil => rfl
  | cons id rest ih =>
      rw [reached, reached, hoffice,
        breaksOff_congr (Station.Answers.expire x.office now) (h id List.mem_cons_self),
        ih fun j hj => h j (List.mem_cons_of_mem id hj)]

theorem round_expireEach (hn : ids.Nodup) (x : Exchange σ) (n : Nat) :
    (expireEach now ids (x, n)).1 =
      x.round (Station.expire x.office now) (x.reached now ids) := by
  induction ids generalizing x n with
  | nil => rfl
  | cons id rest ih =>
      obtain ⟨hid, hrest⟩ := List.nodup_cons.mp hn
      rw [expireEach, reached]
      dsimp only
      cases x.breaksOff id (Station.expire x.office now) with
      | true => rfl
      | false =>
          have hoffice : (x.expire id now).1.office = x.office :=
            atSlot_cases (R := fun y => y.office = x.office) id (Station.expire x.office now) rfl
              fun _ _ => rfl
          have hothers : (x.expire id now).1.reached now rest = x.reached now rest :=
            reached_congr hoffice fun j hj =>
              getElem?_atSlot_ne (ne_of_mem_of_not_mem hj hid) (Station.expire x.office now)
          have hlater := ih hrest (x.expire id now).1
            (if (x.expire id now).2.isSome then n + 1 else n)
          rw [hoffice, hothers] at hlater
          exact hlater

/-- A look at the timers goes round the slots that it comes to. -/
theorem round_expireDue (x : Exchange σ) (now : Nat) : (x.expireDue now).1 =
    x.round (Station.expire x.office now) (x.reached now x.slotIds) :=
  round_expireEach List.nodup_range x 0

end Switchboard.Exchange
