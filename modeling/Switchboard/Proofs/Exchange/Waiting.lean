import Switchboard.Proofs.Exchange.Account

/-!
# Switchboard.Proofs.Exchange.Waiting

Slots that were handed out, and what happens to them until they are used.

1. What clients and operators can tell of a slot is its state, and whether it is
   listed as free or reserved.  Work on other slots leaves all that as it is
   (`Stays`).
2. A slot that is handed out waits: it is free, and nobody else gets it, for it
   is not listed (`Waiting`, `Lawful.waiting_request`).
3. Service leaves a slot that waits as it is, or takes it out of service
   (`Lawful.waiting_service`).
-/

namespace Switchboard.Exchange

variable {σ : Type} {x y z : Exchange σ} {id other : SlotId}

open Ledger (Aside)

/-- The state of a slot, if there is one with this number. -/
def state? (x : Exchange σ) (id : SlotId) : Option SlotState := (x.slots[id]?).map (·.state)

/-! ## slots that stay as they are -/

/-- A slot stays in its state, and as it was listed and reserved. -/
structure Stays (id : SlotId) (x y : Exchange σ) : Prop where
  state : y.state? id = x.state? id
  listed : y.ledger.Lists id ↔ x.ledger.Lists id
  reserved : y.ledger.Reserves id ↔ x.ledger.Reserves id

theorem Stays.refl (id : SlotId) (x : Exchange σ) : Stays id x x := ⟨rfl, .rfl, .rfl⟩

theorem Stays.trans (h : Stays id x y) (hy : Stays id y z) : Stays id x z :=
  ⟨hy.state.trans h.state, hy.listed.trans h.listed, hy.reserved.trans h.reserved⟩

/-- What happens to the books beside a slot leaves it as it is. -/
theorem stays_aside {l : Ledger} (hne : id ≠ other) (ha : Aside other x.ledger l) :
    Stays id x { x with ledger := l } :=
  ⟨rfl, ha.listed id hne, ha.reserved id hne⟩

theorem Elsewhere.stays (h : Elsewhere x y) (id : SlotId) : Stays id x y := by
  refine ⟨?_, ?_, ?_⟩
  · rw [state?, h.slots]
    rfl
  · rw [Ledger.Lists, h.ledger]
    rfl
  · rw [Ledger.Reserves, h.ledger]
    rfl

/-- Work on another slot leaves a slot as it is. -/
theorem Lawful.stays_atSlot {α : Type} (h : x.Lawful) (hne : id ≠ other)
    {f : Station σ → Station σ × α} (hf : ∀ slot, x.slots[other]? = some slot →
      Station.Keeps ⟨slot, x.ledger⟩ (f ⟨slot, x.ledger⟩).1) :
    Stays id x (x.atSlot other f).1 := by
  refine atSlot_cases (R := Stays id x) other f (.refl id x) fun slot hslot => ?_
  have haside := (hf slot hslot).aside
  rw [show (Station.slot ⟨slot, x.ledger⟩).id = other from h.numbered other slot hslot] at haside
  refine ⟨?_, haside.listed id hne, haside.reserved id hne⟩
  simp [state?, List.getElem?_set_ne (Ne.symm hne)]

/-- Work after which its slot stands as before leaves every slot as it is. -/
theorem stays_atSlot_of_standing {α : Type} (id : SlotId) {f : Station σ → Station σ × α}
    (hf : ∀ slot, x.slots[other]? = some slot →
      (f ⟨slot, x.ledger⟩).1.standing = Station.standing ⟨slot, x.ledger⟩) :
    Stays id x (x.atSlot other f).1 := by
  refine atSlot_cases (R := Stays id x) other f (.refl id x) fun slot hslot => ?_
  have hstanding := hf slot hslot
  have hstate := congrArg Standing.state hstanding
  have hidle := congrArg Standing.idle hstanding
  have hreservations := congrArg Standing.reservations hstanding
  simp only [Station.standing] at hstate hidle hreservations
  refine ⟨?_, ?_, ?_⟩
  · by_cases hid : id = other
    · subst hid
      have hlt := (List.getElem?_eq_some_iff.mp hslot).1
      simp [state?, List.getElem?_set_self hlt, hslot, hstate]
    · simp [state?, List.getElem?_set_ne (Ne.symm hid)]
  · rw [Ledger.Lists, hidle]
    rfl
  · rw [Ledger.Reserves, hreservations]
    rfl

/-! ## slots that wait -/

/-- A slot that was handed out waits for its call: it is free, and not listed. -/
structure Waiting (x : Exchange σ) (id : SlotId) : Prop where
  idle : ∀ s, x.state? id = some s → s = .idle
  unlisted : ¬ x.ledger.Lists id

theorem Waiting.stays (h : x.Waiting id) (hs : Stays id x y) : y.Waiting id :=
  ⟨fun s hstate => h.idle s (hs.state ▸ hstate), mt hs.listed.mp h.unlisted⟩

/-- An event leaves a slot that waits as it is, or takes it out of service. -/
theorem Lawful.waiting_posted {α : Type} (h : x.Lawful) (hw : x.Waiting id)
    {f : Station σ → Station σ × α} (hf : ∀ slot, x.slots[id]? = some slot →
      Standing.Posted (Station.standing ⟨slot, x.ledger⟩) (f ⟨slot, x.ledger⟩).1.standing) :
    (x.atSlot id f).1.state? id = some .offline ∨ Stays id x (x.atSlot id f).1 := by
  cases hslot : x.slots[id]? with
  | none =>
      rw [atSlot_of_none hslot]
      exact .inr (.refl id x)
  | some slot =>
      have hidle : slot.state = .idle := hw.idle _ (by rw [state?, hslot]; rfl)
      have hnone := (h.station hslot).cid_eq_none (.inr hidle)
      cases hf slot hslot with
      | kept ht =>
          refine .inr (stays_atSlot_of_standing id fun other hother => ?_)
          obtain rfl := Option.some.inj (hslot.symm.trans hother)
          exact ht
      | disabled _ _ ht =>
          have hlt := (List.getElem?_eq_some_iff.mp hslot).1
          have hstate := congrArg Standing.state ht
          rw [atSlot_of_getElem? hslot, state?, List.getElem?_set_self hlt]
          exact .inl (congrArg some hstate)
      | ended hstate _ | enabled hstate _ _ => exact nomatch hidle.symm.trans hstate
      | broken cid hcid _ | released cid hcid _ => exact nomatch hnone.symm.trans hcid

/-- Service leaves a slot that waits as it is, or takes it out of service. -/
theorem Lawful.waiting_service (h : x.Lawful) (hw : x.Waiting id) (hs : Service x y) :
    y.state? id = some .offline ∨ Stays id x y := by
  cases serviced hs with
  | posted other hf =>
      have hwork : ∀ slot, x.slots[other]? = some slot → _ :=
        fun slot hslot => hf ⟨slot, x.ledger⟩ (h.station hslot) h.nodup
      by_cases hne : id = other
      · subst hne
        exact h.waiting_posted hw fun slot hslot => (hwork slot hslot).2
      · exact .inr (h.stays_atSlot hne fun slot hslot => (hwork slot hslot).1)
  | reload scripts => exact .inr ⟨rfl, .rfl, .rfl⟩
  | elsewhere he => exact .inr (he.stays id)

/-! ## requests -/

/-- A slot that is handed out was listed as free. -/
theorem lists_of_request {group : Option String} (h : (x.request group).2 = .ok id) :
    x.ledger.Lists id := by
  have hcases := requested x group
  generalize x.request group = answered at h hcases
  cases hcases with
  | refused e => exact nomatch h
  | taken _ ht =>
      obtain rfl := Except.ok.inj h
      exact (IdlePool.take_eq_some ht).1
  | reserved _ _ _ ht =>
      obtain rfl := Except.ok.inj h
      exact (IdlePool.take_eq_some ht).1

/-- A slot that is handed out waits, and is reserved if a group was asked for. -/
theorem Lawful.waiting_request (h : x.Lawful) {group : Option String}
    (hok : (x.request group).2 = .ok id) :
    (x.request group).1.Waiting id ∧
      (group.isSome → (x.request group).1.ledger.Reserves id) := by
  have hlisted := lists_of_request hok
  have hidle : ∀ s, x.state? id = some s → s = .idle := by
    intro s hs
    obtain ⟨slot, hslot, rfl⟩ := Option.map_eq_some_iff.mp hs
    have hid := h.numbered id slot hslot
    exact (h.slot slot (List.mem_of_getElem? hslot)).law.idle_of_listed (hid ▸ hlisted)
  have hcases := requested x group
  generalize x.request group = answered at hok hcases
  cases hcases with
  | refused e => exact nomatch hok
  | taken hgroup ht =>
      obtain rfl := Except.ok.inj hok
      obtain ⟨-, rfl⟩ := IdlePool.take_eq_some ht
      refine ⟨⟨hidle, IdlePool.not_mem_remove h.nodup⟩, fun hsome => ?_⟩
      rw [hgroup] at hsome
      exact nomatch hsome
  | reserved _ _ _ ht =>
      obtain rfl := Except.ok.inj hok
      obtain ⟨-, rfl⟩ := IdlePool.take_eq_some ht
      exact ⟨⟨hidle, IdlePool.not_mem_remove h.nodup⟩,
        fun _ => Reservations.contains_insert.mpr (.inr rfl)⟩

/-- A request leaves other slots than the one it hands out as they are. -/
theorem stays_request {group : Option String} (hne : (x.request group).2 ≠ .ok id) :
    Stays id x (x.request group).1 := by
  have hcases := requested x group
  generalize x.request group = answered at hne hcases
  cases hcases with
  | refused e => exact .refl id x
  | @taken idle n _ ht =>
      have hid : id ≠ n := fun hid => hne (congrArg Except.ok hid.symm)
      obtain ⟨-, rfl⟩ := IdlePool.take_eq_some ht
      exact stays_aside hid (.remove n x.ledger)
  | @reserved name s idle n _ _ _ ht =>
      have hid : id ≠ n := fun hid => hne (congrArg Except.ok hid.symm)
      obtain ⟨-, rfl⟩ := IdlePool.take_eq_some ht
      exact stays_aside hid ((Aside.remove n x.ledger).trans (.reserve n s.name _))

/-! ## calls, and slots that are given back -/

theorem Lawful.stays_allocate (h : x.Lawful) (hne : id ≠ other) (setup : CallSetup) :
    Stays id x (x.allocate other setup).1 :=
  h.stays_atSlot hne fun _ hslot => (h.station hslot).allocate h.nodup x.office setup

/-- A call that is refused leaves every slot as it is. -/
theorem stays_allocate_refused (id : SlotId) {setup : CallSetup}
    (hno : ∀ n, (x.allocate other setup).2 ≠ some (.ok n)) :
    Stays id x (x.allocate other setup).1 := by
  refine stays_atSlot_of_standing id fun slot hslot => ?_
  rcases Station.standing_allocate x.office setup ⟨slot, x.ledger⟩ with
    ⟨_, -, hstanding⟩ | ⟨n, _, _, hn, -, -, -⟩
  · exact hstanding
  · refine absurd ?_ (hno n)
    rw [allocate, atSlot_of_getElem? hslot]
    exact congrArg some hn

theorem Lawful.stays_restore (h : x.Lawful) (hne : id ≠ other) :
    Stays id x (x.restore other).1 := by
  refine h.stays_atSlot hne fun slot hslot => ?_
  have hstation := h.station hslot
  obtain rfl : slot.id = other := h.numbered other slot hslot
  dsimp only
  split
  · exact hstation.keeps
  · next hidle => exact hstation.giveBack (by simpa using hidle)

/-- Starting a call leaves other slots than the one it asks for as they are. -/
theorem Lawful.stays_startCall (h : x.Lawful) {group : Option String} (setup : CallSetup)
    (hne : (x.request group).2 ≠ .ok id) : Stays id x (x.startCall group setup).1 := by
  have hrequest := stays_request hne
  have hlawful := h.acts (acts_request x group)
  have hother : ∀ {n}, (x.request group).2 = .ok n → id ≠ n := fun hn hid => hne (hid ▸ hn)
  have hcases := callStarted x group setup
  generalize x.startCall group setup = answered at hcases
  cases hcases with
  | refused _ => exact hrequest
  | begun hn hz _ | missing hn hz _ =>
      have hasked := hrequest.trans (hz.stays id)
      exact hasked.trans ((hlawful.act (.elsewhere hz)).stays_allocate (hother hn) _)
  | @returned z n setup _ hn hz _ =>
      have hlawfulz := hlawful.act (.elsewhere hz)
      have hasked := (hrequest.trans (hz.stays id)).trans
        (hlawfulz.stays_allocate (hother hn) setup)
      exact hasked.trans ((hlawfulz.act (.allocate z n setup)).stays_restore (hother hn))

end Switchboard.Exchange
