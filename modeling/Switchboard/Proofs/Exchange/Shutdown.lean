import Switchboard.Proofs.Exchange.CallIndex
import Switchboard.Proofs.Exchange.Waiting

/-!
# Switchboard.Proofs.Exchange.Shutdown

The end of an exchange.

1. Only slots that there are can be listed as free or reserved (`Known`).
2. A slot that is told to shut down is out of service then, whatever it did, and
   stays so while other slots are told (`offline_of_postAll`).
3. A slot out of service carries nothing and is on no list, and what the books say of
   calls is true.  So nothing is left when all slots are (`Reach.outOfService`).
-/

namespace Switchboard

/-- Whatever a slot does, it is out of service when it has been told to shut down. -/
theorem Station.state_post_shutdown {σ : Type} (o : Office σ) (x : Station σ) :
    (x.post o .shutdown).1.slot.state = .offline := by
  unfold Station.post
  cases hstate : x.slot.state with
  | offline => exact hstate
  | idle => rfl
  | scripting | releasing => exact state_finish o .offline _

namespace Exchange

variable {σ α : Type} {x y : Exchange σ} {id other : SlotId}

open Ledger (Aside)

/-! ## slots that there are -/

theorem slotCount_atSlot (x : Exchange σ) (id : SlotId) (f : Station σ → Station σ × α) :
    (x.atSlot id f).1.slotCount = x.slotCount :=
  atSlot_cases (R := fun y => y.slotCount = x.slotCount) id f rfl fun _ _ => List.length_set ..

/-- Slots neither come nor go. -/
theorem slotCount_of_act (h : Act x y) : y.slotCount = x.slotCount := by
  cases h with
  | post id e =>
      rw [post_eq_atSlot]
      exact slotCount_atSlot x id _
  | expire id now => exact slotCount_atSlot x id (Station.expire x.office now)
  | allocate id setup => exact slotCount_atSlot x id _
  | restore id => exact slotCount_atSlot x id _
  | elsewhere he => exact congrArg List.length he.slots
  | take | reserve | reload | newPeriod => rfl

theorem slotCount_of_acts (h : Acts x y) : y.slotCount = x.slotCount := by
  induction h with
  | refl => rfl
  | tail _ hlast ih => exact (slotCount_of_act hlast).trans ih

/-- A slot that there is not is neither listed as free nor reserved. -/
def Known (x : Exchange σ) : Prop :=
  ∀ id, x.slotCount ≤ id → ¬ x.ledger.Lists id ∧ ¬ x.ledger.Reserves id

namespace Known

theorem stays (h : x.Known) (hsize : y.slotCount = x.slotCount)
    (hstays : ∀ id, x.slotCount ≤ id → Stays id x y) : y.Known := by
  intro id hid
  rw [hsize] at hid
  obtain ⟨hunlisted, hunreserved⟩ := h id hid
  exact ⟨mt (hstays id hid).listed.1 hunlisted, mt (hstays id hid).reserved.1 hunreserved⟩

/-- Work on a slot that there is concerns no other. -/
theorem atSlot (h : x.Known) (hx : x.Lawful) (id : SlotId) {f : Station σ → Station σ × α}
    (hf : ∀ s : Station σ, s.slot.id = id → s.Lawful → s.ledger.idle.slots.Nodup →
      Station.Keeps s (f s).1) : (x.atSlot id f).1.Known := by
  cases hslot : x.slots[id]? with
  | none => rwa [atSlot_of_none hslot]
  | some slot =>
      have hthere : id < x.slotCount := (List.getElem?_eq_some_iff.1 hslot).1
      refine h.stays (slotCount_atSlot x id f) fun other hother => ?_
      exact hx.stays_atSlot (Nat.ne_of_gt (Nat.lt_of_lt_of_le hthere hother)) fun s hs =>
        hf ⟨s, x.ledger⟩ (hx.numbered id s hs) (hx.station hs) hx.nodup

/-- A slot that is taken from the free ones was listed. -/
theorem handOut {l : Ledger} (h : x.Known) (hlisted : x.ledger.Lists id)
    (ha : Aside id x.ledger l) : Known { x with ledger := l } := by
  have hthere : id < x.slotCount := by
    by_contra hid
    exact (h id (Nat.le_of_not_lt hid)).1 hlisted
  exact h.stays rfl fun other hother =>
    stays_aside (Nat.ne_of_gt (Nat.lt_of_lt_of_le hthere hother)) ha

theorem act (h : x.Known) (hx : x.Lawful) (hact : Act x y) : y.Known := by
  cases hact with
  | post id e =>
      rw [post_eq_atSlot]
      exact h.atSlot hx id fun s _ hs hn => hs.post hn x.office e
  | expire id now =>
      exact h.atSlot (f := Station.expire x.office now) hx id fun s _ hs hn =>
        hs.expire hn x.office now
  | allocate id setup => exact h.atSlot hx id fun s _ hs hn => hs.allocate hn x.office setup
  | restore id =>
      refine h.atSlot hx id fun s hid hs _ => ?_
      subst hid
      split
      · exact hs.keeps
      · next hidle => exact hs.giveBack (by simpa using hidle)
  | take ht =>
      obtain ⟨hlisted, rfl⟩ := IdlePool.take_eq_some ht
      exact h.handOut hlisted (.remove _ _)
  | reserve group ht =>
      obtain ⟨hlisted, rfl⟩ := IdlePool.take_eq_some ht
      exact h.handOut hlisted ((Aside.remove _ _).trans (.reserve _ group _))
  | reload scripts | newPeriod => exact h
  | elsewhere he => exact h.stays (congrArg List.length he.slots) fun id _ => he.stays id

end Known

/-- Only slots that there are can be listed in an exchange that can be reached. -/
theorem Reach.known (h : Reach x) : x.Known :=
  (h.of_acts (P := fun x => x.Lawful ∧ x.Known)
    (fun c p segments scripts _ _ => ⟨.unstarted c p segments scripts, fun _ _ =>
      ⟨List.not_mem_nil, Bool.false_ne_true⟩⟩)
    fun _ _ hx hact => ⟨hx.1.act hact, hx.2.act hx.1 hact⟩).2

/-! ## slots that are told -/

/-- A slot is out of service, if there is one with this number. -/
def Offline (x : Exchange σ) (id : SlotId) : Prop := ∀ s, x.state? id = some s → s = .offline

/-- The slot that is told to shut down is out of service. -/
theorem offline_post_self (x : Exchange σ) (id : SlotId) : (x.post id .shutdown).1.Offline id := by
  rw [post_eq_atSlot]
  intro s hs
  cases hslot : x.slots[id]? with
  | none =>
      rw [atSlot_of_none hslot, state?, hslot] at hs
      cases hs
  | some slot =>
      rw [state?, getElem?_atSlot_self hslot] at hs
      exact (Option.some.inj hs).symm.trans (Station.state_post_shutdown x.office _)

/-- Other slots are left as they are. -/
theorem Offline.post (h : x.Offline other) (hne : other ≠ id) (e : Event) :
    (x.post id e).1.Offline other := by
  rw [post_eq_atSlot]
  intro s hs
  rw [state?, getElem?_atSlot_ne hne] at hs
  exact h s hs

/-- All slots that are told are out of service in the end, and so are those that were. -/
theorem offline_of_postAll {ids : List SlotId} (h : id ∈ ids ∨ x.Offline id) :
    (x.postAll .shutdown ids).Offline id := by
  induction ids generalizing x with
  | nil => exact h.resolve_left List.not_mem_nil
  | cons told rest ih =>
      refine ih ?_
      by_cases hself : id = told
      · subst hself
        exact .inr (offline_post_self x id)
      · exact h.imp (fun hm => (List.mem_cons.1 hm).resolve_left hself) fun h => h.post hself _

theorem offline_shutdown (x : Exchange σ) : ∀ s ∈ x.shutdown.1.slots, s.state = .offline := by
  intro s hs
  obtain ⟨id, hid⟩ := List.getElem?_of_mem hs
  have hsize : x.shutdown.1.slotCount = x.slotCount :=
    slotCount_of_acts (Services.acts (services_postAll .shutdown x.slotIds x))
  have htold : id ∈ x.slotIds :=
    List.mem_range.2 (hsize ▸ (List.getElem?_eq_some_iff.1 hid).1)
  exact offline_of_postAll (.inl htold) s.state (by rw [state?]; exact congrArg _ hid)

/-! ## nothing left -/

/-- All slots are out of service: none carries a call or waits for a timer, none is free or
reserved, and no call is in the books or counted. -/
structure OutOfService (x : Exchange σ) : Prop where
  offline : ∀ s ∈ x.slots, s.state = .offline
  calls : ∀ s ∈ x.slots, s.call = none
  untimed : ∀ s ∈ x.slots, s.timer.expiry? = none
  idle : x.ledger.idle.slots = []
  unreserved : x.ledger.reservations.entries = []
  active : x.activeCalls = 0
  counts : ∀ s ∈ x.ledger.segments.entries, s.counter.current = 0

/-- Where all slots are out of service, nothing is left. -/
theorem Reach.outOfService (h : Reach x) (hoffline : ∀ s ∈ x.slots, s.state = .offline) :
    x.OutOfService := by
  have hlawful := h.lawful
  have hlaw {s : Slot σ} (hs : s ∈ x.slots) := (hlawful.slot s hs).law.offline (hoffline s hs)
  have hunlisted (id : SlotId) : ¬ x.ledger.Lists id ∧ ¬ x.ledger.Reserves id := by
    rcases Nat.lt_or_ge id x.slotCount with hthere | hid
    · have hs := List.getElem?_eq_getElem hthere
      have hnumber := hlawful.numbered id _ hs
      exact hnumber ▸ (hlaw (List.mem_of_getElem? hs)).2
    · exact h.known id hid
  refine ⟨hoffline, fun s hs => (hlaw hs).1.call, fun s hs => (hlaw hs).1.untimed, ?_, ?_, ?_, ?_⟩
  · exact List.eq_nil_iff_forall_not_mem.2 fun id => (hunlisted id).1
  · refine List.eq_nil_iff_forall_not_mem.2 fun entry hentry => (hunlisted entry.1).2 ?_
    exact List.any_eq_true.2 ⟨entry, hentry, beq_self_eq_true _⟩
  · refine List.length_eq_zero_iff.2 (List.eq_nil_iff_forall_not_mem.2 fun entry hcall => ?_)
    obtain ⟨cid, id⟩ := entry
    obtain ⟨s, hs, -, hcarried⟩ := hlawful.carries_iff.1 (h.indexed.carries cid id hcall)
    rw [Slot.cid?, (hlaw hs).1.call] at hcarried
    cases hcarried
  · intro segment hsegment
    have hnone : x.accounts.busy segment = 0 := by
      rw [hlawful.busy_eq]
      refine List.countP_eq_zero.2 fun s hs => ?_
      simp [Slot.isBusy, hoffline s hs]
    have hcurrent := h.counted.current segment hsegment
    exact UInt32.toNat_inj.mp (Nat.eq_zero_of_le_zero (hnone ▸ hcurrent))

end Exchange

end Switchboard
