import Switchboard.Proofs.Exchange.Operation
import Switchboard.Proofs.Slot.Lifecycle

/-!
# Switchboard.Proofs.Exchange.Lifecycle

The states of slots against calls, scripts, devices, timers and the lists of
free and reserved slots.

1. `Lawful` is the invariant: each slot keeps to the law of its state, and no
   slot is listed twice or was ever found listed already.
2. Work on one slot keeps it, since it leaves the others alone (`Lawful.atSlot`),
   and so does taking a slot from the free ones (`Lawful.handOut`).
-/

namespace Switchboard.Exchange

variable {σ : Type} {x y : Exchange σ}

open Ledger (Aside)

/-! ## the invariant -/

/-- Every slot keeps to the law, and the list of free slots is in order. -/
structure Lawful (x : Exchange σ) : Prop where
  numbered : ∀ (i : Nat) (s : Slot σ), x.slots[i]? = some s → s.id = i
  slot : ∀ s ∈ x.slots, Station.Lawful ⟨s, x.ledger⟩
  nodup : x.ledger.idle.slots.Nodup
  fresh : ∀ id, Notice.alreadyIdle id ∉ x.ledger.journal

namespace Lawful

/-- Before they are in service, slots carry nothing and are on no list. -/
theorem unstarted (c : Config) (p : Plan σ) (segments : Segments) (scripts : LoadedScripts) :
    Lawful (unstarted c p segments scripts) := by
  refine ⟨fun i s hs => ?_, fun s hs => ?_, List.nodup_nil, fun id => List.not_mem_nil⟩
  · obtain ⟨id, hid, rfl⟩ := (List.getElem?_map ..).symm.trans hs |> Option.map_eq_some_iff.mp
    obtain ⟨hi, rfl⟩ := List.getElem?_eq_some_iff.mp hid
    exact List.getElem_range hi
  · obtain ⟨id, -, rfl⟩ := List.mem_map.mp hs
    exact ⟨.new _, rfl,
      .of_offline rfl ⟨rfl, ⟨rfl, rfl, rfl⟩, rfl, rfl⟩ List.not_mem_nil Bool.false_ne_true⟩

/-- Work on one slot that keeps the law for it keeps it for all. -/
theorem atSlot {α : Type} (h : x.Lawful) (id : SlotId) {f : Station σ → Station σ × α}
    (hf : ∀ s : Station σ, s.slot.id = id → s.Lawful → s.ledger.idle.slots.Nodup →
      Station.Keeps s (f s).1) :
    (x.atSlot id f).1.Lawful := by
  unfold Exchange.atSlot
  split
  · exact h
  · next slot hslot =>
      have hid : slot.id = id := h.numbered id slot hslot
      have hk := hf ⟨slot, x.ledger⟩ hid (h.slot slot (List.mem_of_getElem? hslot)) h.nodup
      generalize f ⟨slot, x.ledger⟩ = worked at hk
      obtain ⟨station, result⟩ := worked
      have hset : ∀ i s, (x.slots.set id station.slot)[i]? = some s →
          (i = id ∧ s = station.slot) ∨ (i ≠ id ∧ x.slots[i]? = some s) := by
        intro i s hs
        by_cases hi : i = id
        · subst hi
          rw [List.getElem?_set_self (List.getElem?_eq_some_iff.mp hslot).1] at hs
          exact .inl ⟨rfl, (Option.some.inj hs).symm⟩
        · rw [List.getElem?_set_ne (Ne.symm hi)] at hs
          exact .inr ⟨hi, hs⟩
      have hstation : station.slot.id = id := hk.id.trans hid
      have haside : Aside id x.ledger station.ledger := hid ▸ hk.aside
      refine ⟨fun i s hs => ?_, fun s hs => ?_, haside.nodup h.nodup,
        fun other ho => h.fresh other (haside.notices other ho)⟩
      · rcases hset i s hs with ⟨rfl, rfl⟩ | ⟨-, hs⟩
        · exact hstation
        · exact h.numbered i s hs
      · obtain ⟨i, hs⟩ := List.getElem?_of_mem hs
        rcases hset i s hs with ⟨-, rfl⟩ | ⟨hi, hs⟩
        · exact hk.lawful
        · have hne : s.id ≠ id := fun he => hi ((h.numbered i s hs).symm.trans he)
          exact (h.slot s (List.mem_of_getElem? hs)).beside haside hne

/-- Handing out a listed slot, which is free then, leaves it unlisted. -/
theorem handOut {id : SlotId} {l : Ledger} (h : x.Lawful) (hlisted : x.ledger.Lists id)
    (ha : Aside id x.ledger l) (ho : l.orders = x.ledger.orders) (hl : ¬ l.Lists id) :
    Lawful { x with ledger := l } := by
  refine ⟨h.numbered, fun s hs => ?_, ha.nodup h.nodup,
    fun other hother => h.fresh other (ha.notices other hother)⟩
  have hlawful := h.slot s hs
  by_cases hid : s.id = id
  · have hstate := hlawful.law.idle_of_listed (hid ▸ hlisted)
    have horders : l.ordersOf s.id = x.ledger.ordersOf s.id := by
      rw [Ledger.ordersOf, ho]
      rfl
    exact ⟨hlawful.sound, (congrArg lastArm horders).trans hlawful.booked,
      .of_idle hstate (hlawful.law.idle hstate).1 fun hboth => hl (hid ▸ hboth.1)⟩
  · exact hlawful.beside ha hid

/-- Books that differ in nothing that matters to a slot. -/
theorem withLedger {l : Ledger} (h : x.Lawful) (hi : l.idle = x.ledger.idle)
    (hr : l.reservations = x.ledger.reservations) (ho : l.orders = x.ledger.orders)
    (hn : ∀ id, Notice.alreadyIdle id ∈ l.journal → Notice.alreadyIdle id ∈ x.ledger.journal) :
    Lawful { x with ledger := l } := by
  refine ⟨h.numbered, fun s hs => (h.slot s hs).of_books ?_ ?_ ?_, ?_,
    fun id hid => h.fresh id (hn id hid)⟩
  · rw [Ledger.Lists, hi]
    rfl
  · rw [Ledger.Reserves, hr]
    rfl
  · rw [Ledger.ordersOf, ho]
    rfl
  · exact hi ▸ h.nodup

theorem post (h : x.Lawful) (id : SlotId) (e : Event) : (x.post id e).1.Lawful := by
  have hwork := h.atSlot id (f := Station.post x.office e) fun s _ hs hn => hs.post hn x.office e
  unfold Exchange.post
  generalize x.atSlot id (Station.post x.office e) = worked at hwork
  obtain ⟨y, outcome⟩ := worked
  cases outcome <;> exact hwork

theorem restore (h : x.Lawful) (id : SlotId) : (x.restore id).1.Lawful := by
  refine h.atSlot id fun s hid hs _ => ?_
  subst hid
  split
  · exact hs.keeps
  · next hidle => exact hs.giveBack (by simpa using hidle)

/-- Every act keeps the law. -/
theorem act (h : x.Lawful) (hact : Act x y) : y.Lawful := by
  cases hact with
  | post id e => exact h.post id e
  | expire id now => exact h.atSlot id fun s _ hs hn => hs.expire hn x.office now
  | allocate id setup => exact h.atSlot id fun s _ hs hn => hs.allocate hn x.office setup
  | restore id => exact h.restore id
  | take ht =>
      obtain ⟨hlisted, rfl⟩ := IdlePool.take_eq_some ht
      exact h.handOut hlisted (.remove _ _) rfl (IdlePool.not_mem_remove h.nodup)
  | reserve group ht =>
      obtain ⟨hlisted, rfl⟩ := IdlePool.take_eq_some ht
      exact h.handOut hlisted ((Aside.remove _ _).trans (.reserve _ group _)) rfl
        (IdlePool.not_mem_remove h.nodup)
  | reload scripts => exact ⟨h.numbered, h.slot, h.nodup, h.fresh⟩
  | newPeriod => exact h.withLedger rfl rfl rfl fun _ hid => hid
  | elsewhere he =>
      have hledger := h.withLedger (l := y.ledger) (by rw [he.ledger]) (by rw [he.ledger])
        (by rw [he.ledger]) he.notices
      exact ⟨fun i s hs => h.numbered i s (he.slots ▸ hs),
        fun s hs => hledger.slot s (he.slots ▸ hs), hledger.nodup, hledger.fresh⟩

theorem acts (h : x.Lawful) (hacts : Acts x y) : y.Lawful := by
  induction hacts with
  | refl => exact h
  | tail _ hlast ih => exact ih.act hlast

end Lawful

/-- The law holds in every exchange that can be reached. -/
theorem Reach.lawful (h : Reach x) : x.Lawful :=
  h.of_acts (fun c p segments scripts _ _ => .unstarted c p segments scripts)
    fun _ _ hx hact => hx.act hact

/-- In every exchange that can be reached, a slot that is out of service or free
carries no call, has no script and no timer, and its device is armed with
nothing; out of service it is on no list, and free it is not on both.  A slot
that runs a script carries a call and has a script that runs, one that is to be
free carries a call, and both are on no list.  So whenever a slot becomes free,
it is entered on the list of free slots anew, and no slot is there twice. -/
theorem slot_lifecycle (h : Reach x) :
    (∀ s ∈ x.slots, s.Law (x.ledger.Lists s.id) (x.ledger.Reserves s.id) ∧
        lastArm (x.ledger.ordersOf s.id) = s.armedMask ∧
        (s.state ≠ .idle → (x.ledger.idle.insert s.id).2 = true)) ∧
      x.ledger.idle.slots.Nodup ∧ ∀ id, Notice.alreadyIdle id ∉ x.ledger.journal := by
  have hlawful := h.lawful
  refine ⟨fun s hs => ?_, hlawful.nodup, hlawful.fresh⟩
  have hslot := hlawful.slot s hs
  refine ⟨hslot.law, hslot.booked, fun hstate => ?_⟩
  have hunlisted : s.id ∉ x.ledger.idle.slots := mt hslot.law.idle_of_listed hstate
  rw [IdlePool.insert_eq_of_not_mem hunlisted]

/-- One slot runs a script, one is reserved, and one is out of service. -/
theorem slot_lifecycle_in_each_place : ∃ x : Exchange Unit, Reach x ∧
    x.slots.map (·.state) = [.scripting, .idle, .offline] ∧
    x.ledger.reservations.entries = [(1, "group")] ∧
    (∀ s ∈ x.slots, s.Law (x.ledger.Lists s.id) (x.ledger.Reserves s.id)) ∧
    x.ledger.idle.slots.Nodup := by
  let ops : List Operation :=
    [.startCall (some "group") Station.trialCall, .request (some "group"), .post 2 .disable]
  have hrun : (build trialConfig (trialPlan "@main\n  sleep 60\n  exit\n")).toOption.map
      (fun x => ((x.performAll ops).slots.map (·.state),
        (x.performAll ops).ledger.reservations.entries)) =
      some ([.scripting, .idle, .offline], [(1, "group")]) := by decide +kernel
  obtain ⟨x, hx, hobserved⟩ := Option.map_eq_some_iff.mp hrun
  have hbuild : build trialConfig (trialPlan "@main\n  sleep 60\n  exit\n") = .ok x := by
    cases hb : build trialConfig (trialPlan "@main\n  sleep 60\n  exit\n") with
    | error failure => simp [hb, Except.toOption] at hx
    | ok y => simpa [hb, Except.toOption] using hx
  obtain ⟨hstates, hentries⟩ := Prod.mk.inj hobserved
  have hreach := (Reach.build hbuild).performAll ops
  have hlaw := slot_lifecycle hreach
  exact ⟨_, hreach, hstates, hentries, fun s hs => (hlaw.1 s hs).1, hlaw.2.1⟩

end Switchboard.Exchange
