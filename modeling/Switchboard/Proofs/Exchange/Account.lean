import Switchboard.Proofs.Exchange.Lifecycle
import Switchboard.Proofs.Segment.Counter
import Switchboard.Proofs.Slot.Standing

/-!
# Switchboard.Proofs.Exchange.Account

The calls of an exchange, and what the books say about them.

1. `Accounts` is what there is to say about calls: which slot carries which,
   the index of calls, and the counts of the segments.  Accounts change only
   where a call begins or ends, or a period begins (`Step`).
2. Service posts events to slots (`Serviced`), and begins no call
   (`Lawful.lapse`).  A call that is asked for begins on a slot without one, or
   nothing changes (`Allocated`).  Requests and returned slots leave the accounts
   as they are.  So every act makes a step (`Lawful.step`).
3. No segment counts a call that there is not (`Counted`), and a segment counts the
   calls on its slots as long as their number fits the width of the count (`Counts`).
-/

namespace Switchboard

/-- To write to a place what stands there changes nothing. -/
theorem set_of_getElem? {α : Type} {as : List α} {i : Nat} {a : α} (h : as[i]? = some a) :
    as.set i a = as := by
  obtain ⟨hlt, rfl⟩ := List.getElem?_eq_some_iff.mp h
  exact List.set_getElem_self hlt

/-! ## accounts -/

/-- The calls that slots carry, the index of calls, and the segments. -/
structure Accounts where
  /-- Each slot with the identity of its call, if it has one. -/
  carried : List (SlotId × Option String)
  calls : List (String × SlotId)
  segments : Segments

namespace Accounts

variable {a b c : Accounts} {id : SlotId} {cid : String} {g s : Segment} {st tt : Standing}

/-- A slot carries a call with an identity. -/
def Carries (a : Accounts) (id : SlotId) (cid : String) : Prop :=
  a.carried[id]? = some (id, some cid)

/-- A slot carries no call. -/
def Vacant (a : Accounts) (id : SlotId) : Prop := a.carried[id]? = some (id, none)

/-- The number of calls on slots of a segment. -/
def busy (a : Accounts) (s : Segment) : Nat :=
  a.carried.countP fun c => s.contains c.1 && c.2.isSome

/-- A call has begun. -/
def opened (a : Accounts) (id : SlotId) (cid : String) : Accounts :=
  ⟨a.carried.set id (id, some cid), (cid, id) :: a.calls.filter (·.1 != cid),
    a.segments.callStarted id⟩

/-- A call has ended. -/
def closed (a : Accounts) (id : SlotId) (cid : String) : Accounts :=
  ⟨a.carried.set id (id, none), a.calls.filter (·.1 != cid), a.segments.callEnded id⟩

/-- At most one call ends. -/
inductive Lapse (a b : Accounts) : Prop
  | same : b = a → Lapse a b
  | ended (id : SlotId) (cid : String) : a.Carries id cid → b = a.closed id cid → Lapse a b

/-- Calls end, one after the other. -/
abbrev Lapses : Accounts → Accounts → Prop := Relation.ReflTransGen Lapse

/-- A call begins or ends, or a period begins, or nothing happens. -/
inductive Step (a b : Accounts) : Prop
  | lapse : Lapse a b → Step a b
  | begun (id : SlotId) (cid : String) : a.Vacant id → b = a.opened id cid → Step a b
  | renewed : b = { a with segments := a.segments.newPeriod } → Step a b

/-- Where there is no call, none ends. -/
theorem eq_of_lapses (h : ∀ id cid, ¬ a.Carries id cid) (hs : Lapses a b) : b = a := by
  induction hs with
  | refl => rfl
  | tail _ hlast ih =>
      subst ih
      cases hlast with
      | same hb => exact hb
      | ended id cid hid _ => exact absurd hid (h id cid)

/-! ## counts -/

/-- One call more on its slots. -/
theorem busy_opened (h : a.Vacant id) (cid : String) (s : Segment) :
    (a.opened id cid).busy s = a.busy s + if s.contains id then 1 else 0 := by
  obtain ⟨hid, hget⟩ := List.getElem?_eq_some_iff.mp h
  unfold busy opened
  rw [List.countP_set hid, hget]
  simp

/-- One call less on its slots. -/
theorem busy_closed (h : a.Carries id cid) (s : Segment) :
    (a.closed id cid).busy s + (if s.contains id then 1 else 0) = a.busy s := by
  obtain ⟨hid, hget⟩ := List.getElem?_eq_some_iff.mp h
  have hpos : s.contains id = true → 0 < a.busy s := fun hs =>
    List.countP_pos_iff.mpr ⟨_, List.mem_of_getElem? h, by simpa using hs⟩
  unfold busy closed at *
  rw [List.countP_set hid, hget]
  by_cases hs : s.contains id = true
  · have := hpos hs
    simp only [hs, Option.isSome_some, Option.isSome_none, Bool.and_self, Bool.and_false, if_true,
      Bool.false_eq_true, if_false]
    omega
  · simp [hs]

/-- No segment counts more calls than there are on its slots. -/
structure Counted (a : Accounts) : Prop where
  size : a.carried.length = a.segments.slotCount
  current : ∀ s ∈ a.segments.entries, s.counter.current.toNat ≤ a.busy s

/-- Whether a slot that exists is in a segment. -/
theorem Counted.holds_eq (h : a.Counted) {c : SlotId × Option String}
    (hid : a.carried[id]? = some c) (s : Segment) : a.segments.holds id s = s.contains id := by
  have hlt : id < a.segments.slotCount := h.size ▸ (List.getElem?_eq_some_iff.mp hid).1
  simp [Segments.holds, hlt]

/-- A call that begins is counted in the segments of its slot. -/
theorem Counted.entries_opened (h : a.Counted) (hid : a.Vacant id) (cid : String) :
    (a.opened id cid).segments.entries = a.segments.entries.map fun s =>
      if s.contains id then { s with counter := s.counter.started } else s :=
  List.map_congr_left fun s _ => by rw [h.holds_eq hid]

/-- A call that ends is no longer counted in the segments of its slot. -/
theorem Counted.entries_closed (h : a.Counted) (hid : a.Carries id cid) :
    (a.closed id cid).segments.entries = a.segments.entries.map fun s =>
      if s.contains id then { s with counter := s.counter.ended } else s :=
  List.map_congr_left fun s _ => by rw [h.holds_eq hid]

theorem Counted.opened (h : a.Counted) (hid : a.Vacant id) (cid : String) :
    (a.opened id cid).Counted := by
  refine ⟨(List.length_set ..).trans h.size, fun t ht => ?_⟩
  rw [h.entries_opened hid] at ht
  obtain ⟨s, hs, rfl⟩ := List.mem_map.mp ht
  have hcurrent := h.current s hs
  have hbusy := busy_opened hid cid s
  by_cases hin : s.contains id = true
  · rw [if_pos hin] at hbusy ⊢
    have hstarted := s.counter.toNat_current_started_le
    exact Nat.le_trans hstarted (hbusy ▸ Nat.succ_le_succ hcurrent)
  · rw [if_neg hin] at hbusy ⊢
    exact Nat.le_trans hcurrent (Nat.le_of_eq hbusy.symm)

theorem Counted.closed (h : a.Counted) (hid : a.Carries id cid) : (a.closed id cid).Counted := by
  refine ⟨(List.length_set ..).trans h.size, fun t ht => ?_⟩
  rw [h.entries_closed hid] at ht
  obtain ⟨s, hs, rfl⟩ := List.mem_map.mp ht
  have hcurrent := h.current s hs
  have hbusy := busy_closed hid s
  by_cases hin : s.contains id = true
  · rw [if_pos hin] at hbusy ⊢
    have hended := s.counter.toNat_current_ended
    exact Nat.le_trans (Nat.le_of_eq hended) (Nat.sub_le_of_le_add (hbusy ▸ hcurrent))
  · rw [if_neg hin] at hbusy ⊢
    exact Nat.le_trans hcurrent (Nat.le_of_eq hbusy.symm)

theorem Counted.lapse (h : a.Counted) (hstep : Lapse a b) : b.Counted := by
  cases hstep with
  | same hb => exact hb ▸ h
  | ended id cid hid hb => exact hb ▸ h.closed hid

/-- Every step keeps the counts down to what there is. -/
theorem Counted.step (h : a.Counted) (hstep : Step a b) : b.Counted := by
  cases hstep with
  | lapse hl => exact h.lapse hl
  | begun id cid hid hb => exact hb ▸ h.opened hid cid
  | renewed hb =>
      subst hb
      refine ⟨h.size, fun t ht => ?_⟩
      obtain ⟨s, hs, rfl⟩ := List.mem_map.mp ht
      exact h.current s hs

/-- A segment, whatever it counts, counts the calls on its slots. -/
def Counts (a : Accounts) (g : Segment) : Prop :=
  ∀ s ∈ a.segments.entries, s.blank = g.blank → s.counter.current.toNat = a.busy g

/-- Whatever a segment counts, the calls on its slots are the same. -/
theorem busy_of_blank (h : s.blank = g.blank) (a : Accounts) : a.busy s = a.busy g := by
  have hslots : s.slots = g.slots := congrArg (·.slots) h
  unfold busy Segment.contains
  rw [hslots]

/-- A call that begins is counted, if there is room in the count. -/
theorem Counts.opened (h : a.Counts g) (hc : a.Counted) (hid : a.Vacant id) (cid : String)
    (hroom : (a.opened id cid).busy g < UInt32.size) : (a.opened id cid).Counts g := by
  intro t ht hblank
  rw [hc.entries_opened hid] at ht
  obtain ⟨s, hs, rfl⟩ := List.mem_map.mp ht
  by_cases hin : s.contains id = true
  · rw [if_pos hin] at hblank ⊢
    replace hblank : s.blank = g.blank := hblank
    have hcurrent := h s hs hblank
    have hbusy := busy_opened hid cid s
    rw [if_pos hin, busy_of_blank hblank, busy_of_blank hblank, ← hcurrent] at hbusy
    rw [hbusy] at hroom ⊢
    exact Counter.toNat_current_started_of_lt hroom
  · rw [if_neg hin] at hblank ⊢
    have hbusy := busy_opened hid cid s
    rw [if_neg hin, busy_of_blank hblank, busy_of_blank hblank] at hbusy
    exact (h s hs hblank).trans hbusy.symm

/-- A call that ends is no longer counted. -/
theorem Counts.closed (h : a.Counts g) (hc : a.Counted) (hid : a.Carries id cid) :
    (a.closed id cid).Counts g := by
  intro t ht hblank
  rw [hc.entries_closed hid] at ht
  obtain ⟨s, hs, rfl⟩ := List.mem_map.mp ht
  by_cases hin : s.contains id = true
  · rw [if_pos hin] at hblank ⊢
    replace hblank : s.blank = g.blank := hblank
    have hcurrent := h s hs hblank
    have hbusy := busy_closed hid s
    rw [if_pos hin, busy_of_blank hblank, busy_of_blank hblank, ← hcurrent] at hbusy
    exact s.counter.toNat_current_ended.trans (Nat.sub_eq_of_eq_add hbusy.symm)
  · rw [if_neg hin] at hblank ⊢
    have hbusy := busy_closed hid s
    rw [if_neg hin, busy_of_blank hblank, busy_of_blank hblank] at hbusy
    exact (h s hs hblank).trans hbusy.symm

/-- Calls that end are no longer counted. -/
theorem Counts.lapses (h : a.Counts g) (hc : a.Counted) (hs : Lapses a b) : b.Counts g := by
  have hboth : b.Counted ∧ b.Counts g := by
    induction hs with
    | refl => exact ⟨hc, h⟩
    | tail _ hlast ih =>
        refine ⟨ih.1.lapse hlast, ?_⟩
        cases hlast with
        | same hb => exact hb ▸ ih.2
        | ended id cid hid hb => exact hb ▸ ih.2.closed ih.1 hid
  exact hboth.2

/-! ## from the standing of a slot -/

/-- What a slot stands for in the accounts. -/
structure Shows (a : Accounts) (st : Standing) : Prop where
  carried : a.carried[st.slot]? = some (st.slot, st.cid)
  calls : st.calls = a.calls
  segments : st.segments = a.segments

/-- The accounts with another standing of one slot. -/
def put (a : Accounts) (st : Standing) : Accounts :=
  ⟨a.carried.set st.slot (st.slot, st.cid), st.calls, st.segments⟩

/-- Where a slot stands as it stood, so do the accounts. -/
theorem Shows.put_eq (h : a.Shows st) (hslot : tt.slot = st.slot) (hcid : tt.cid = st.cid)
    (hcalls : tt.calls = st.calls) (hsegments : tt.segments = st.segments) : a.put tt = a := by
  unfold put
  rw [hslot, hcid, hcalls, hsegments, h.calls, h.segments, set_of_getElem? h.carried]

/-- A call that is struck out has ended. -/
theorem Shows.put_struck (h : a.Shows st) (hslot : tt.slot = st.slot)
    (hcid : tt.cid = none) (hcalls : tt.calls = (st.struck cid).calls)
    (hsegments : tt.segments = (st.struck cid).segments) : a.put tt = a.closed st.slot cid := by
  unfold put closed
  rw [hslot, hcid, hcalls, hsegments, ← h.calls, ← h.segments]
  rfl

/-- A call that is entered has begun. -/
theorem Shows.put_entered (h : a.Shows st) (cid : String) (state : SlotState) :
    a.put { st.entered cid with state } = a.opened st.slot cid := by
  unfold put opened
  rw [← h.calls, ← h.segments]
  rfl

/-- An event ends at most one call. -/
theorem Shows.lapse (h : a.Shows st) (hposted : Standing.Posted st tt) : Lapse a (a.put tt) := by
  cases hposted with
  | kept ht => exact .same (h.put_eq (by rw [ht]) (by rw [ht]) (by rw [ht]) (by rw [ht]))
  | ended _ ht => exact .same (h.put_eq (by rw [ht]) (by rw [ht]) (by rw [ht]) (by rw [ht]))
  | enabled _ _ ht =>
      exact .same (h.put_eq (by rw [ht]; rfl) (by rw [ht]; rfl) (by rw [ht]; rfl) (by rw [ht]; rfl))
  | disabled _ _ ht =>
      exact .same (h.put_eq (by rw [ht]; rfl) (by rw [ht]; rfl) (by rw [ht]; rfl) (by rw [ht]; rfl))
  | broken cid hcid ht =>
      exact .ended st.slot cid (h.carried.trans (by rw [hcid]))
        (h.put_struck (by rw [ht]; rfl) (by rw [ht]; rfl) (by rw [ht]) (by rw [ht]))
  | released cid hcid ht =>
      exact .ended st.slot cid (h.carried.trans (by rw [hcid]))
        (h.put_struck (by rw [ht]; rfl) (by rw [ht]; rfl) (by rw [ht]; rfl) (by rw [ht]; rfl))

end Accounts

/-! ## acts on an exchange -/

/-- The identity of the call that a slot carries. -/
def Slot.cid? {σ : Type} (s : Slot σ) : Option String := s.call.map (·.cid)

/-- Whether a slot is in use: it runs a script, or is to be free. -/
def Slot.isBusy {σ : Type} (s : Slot σ) : Bool := s.state == .scripting || s.state == .releasing

namespace Exchange

variable {σ : Type} {x y : Exchange σ} {id : SlotId}

open Accounts (Lapse Lapses Step)

/-- The accounts of an exchange. -/
def accounts (x : Exchange σ) : Accounts where
  carried := x.slots.map fun s => (s.id, s.cid?)
  calls := x.ledger.calls
  segments := x.ledger.segments

/-- Work on a slot that there is. -/
theorem atSlot_of_getElem? {α : Type} {slot : Slot σ} (h : x.slots[id]? = some slot)
    (f : Station σ → Station σ × α) :
    x.atSlot id f = ({ x with
      slots := x.slots.set id (f ⟨slot, x.ledger⟩).1.slot
      ledger := (f ⟨slot, x.ledger⟩).1.ledger }, some (f ⟨slot, x.ledger⟩).2) := by
  unfold atSlot
  rw [h]

/-- Work on a slot that there is not. -/
theorem atSlot_of_none {α : Type} (h : x.slots[id]? = none) (f : Station σ → Station σ × α) :
    x.atSlot id f = (x, none) := by
  unfold atSlot
  rw [h]

/-- What work on a slot leads to, if there is such a slot, and what there was. -/
theorem atSlot_cases {α : Type} {R : Exchange σ → Prop} (id : SlotId)
    (f : Station σ → Station σ × α) (hnone : R x)
    (hsome : ∀ slot, x.slots[id]? = some slot → R { x with
      slots := x.slots.set id (f ⟨slot, x.ledger⟩).1.slot
      ledger := (f ⟨slot, x.ledger⟩).1.ledger }) : R (x.atSlot id f).1 := by
  cases hslot : x.slots[id]? with
  | none =>
      rw [atSlot_of_none hslot]
      exact hnone
  | some slot =>
      rw [atSlot_of_getElem? hslot]
      exact hsome slot hslot

/-- Work on another slot leaves a slot as it is. -/
theorem getElem?_atSlot_ne {α : Type} {other : SlotId} (hne : id ≠ other)
    (f : Station σ → Station σ × α) : (x.atSlot other f).1.slots[id]? = x.slots[id]? :=
  atSlot_cases (R := fun y => y.slots[id]? = x.slots[id]?) other f rfl fun _ _ =>
    List.getElem?_set_ne (Ne.symm hne)

/-- Work on a slot leaves what it makes of it. -/
theorem getElem?_atSlot_self {α : Type} {slot : Slot σ} (h : x.slots[id]? = some slot)
    (f : Station σ → Station σ × α) :
    (x.atSlot id f).1.slots[id]? = some (f ⟨slot, x.ledger⟩).1.slot := by
  rw [atSlot_of_getElem? h]
  exact List.getElem?_set_self (List.getElem?_eq_some_iff.mp h).1

theorem Lawful.shows (h : x.Lawful) {slot : Slot σ} (hslot : x.slots[id]? = some slot) :
    x.accounts.Shows (Station.standing ⟨slot, x.ledger⟩) := by
  have hid : slot.id = id := h.numbered id slot hslot
  refine ⟨?_, rfl, rfl⟩
  rw [show (Station.standing ⟨slot, x.ledger⟩).slot = id from hid]
  simp [accounts, hslot, hid, Station.standing, Slot.cid?]

/-- What work on a slot does to the accounts shows in how the slot stands. -/
theorem Lawful.accounts_set (h : x.Lawful) {slot : Slot σ} (hslot : x.slots[id]? = some slot)
    {s : Station σ} (hs : s.slot.id = slot.id) :
    accounts { x with slots := x.slots.set id s.slot, ledger := s.ledger } =
      x.accounts.put s.standing := by
  have hid : s.slot.id = id := hs.trans (h.numbered id slot hslot)
  unfold accounts Accounts.put
  rw [List.map_set, show s.standing.slot = id from hid, hid]
  rfl

theorem Elsewhere.accounts (h : Elsewhere x y) : y.accounts = x.accounts := by
  unfold Exchange.accounts
  rw [h.slots, h.ledger]

/-- What work on a slot makes of the accounts can be read off its standing. -/
theorem Lawful.accounts_atSlot {α : Type} {R : Accounts → Prop} (h : x.Lawful) (id : SlotId)
    (f : Station σ → Station σ × α) (hsame : R x.accounts)
    (hf : ∀ slot, x.slots[id]? = some slot → (f ⟨slot, x.ledger⟩).1.slot.id = slot.id ∧
      R (x.accounts.put (f ⟨slot, x.ledger⟩).1.standing)) :
    R (x.atSlot id f).1.accounts := by
  refine atSlot_cases (R := fun y => R y.accounts) id f hsame fun slot hslot => ?_
  obtain ⟨hid, hR⟩ := hf slot hslot
  rw [h.accounts_set hslot hid]
  exact hR

theorem Lawful.station (h : x.Lawful) {slot : Slot σ} (hslot : x.slots[id]? = some slot) :
    Station.Lawful ⟨slot, x.ledger⟩ := h.slot slot (List.mem_of_getElem? hslot)

/-- An event is posted by work on its slot. -/
theorem post_eq_atSlot (x : Exchange σ) (id : SlotId) (e : Event) :
    (x.post id e).1 = (x.atSlot id (Station.post x.office e)).1 := by
  unfold post
  generalize x.atSlot id (Station.post x.office e) = worked
  obtain ⟨y, outcome⟩ := worked
  cases outcome <;> rfl

/-- What service does: an event is posted to a slot, or the slots and the books stay
as they are. -/
inductive Serviced (x : Exchange σ) : Exchange σ → Prop
  | posted {α : Type} {f : Station σ → Station σ × α} (id : SlotId) :
      (∀ s : Station σ, s.Lawful → s.ledger.idle.slots.Nodup →
        Station.Keeps s (f s).1 ∧ Standing.Posted s.standing (f s).1.standing) →
      Serviced x (x.atSlot id f).1
  | reload (scripts : LoadedScripts) : Serviced x { x with office := { x.office with scripts } }
  | elsewhere {y : Exchange σ} : Elsewhere x y → Serviced x y

theorem serviced (hs : Service x y) : Serviced x y := by
  cases hs with
  | post id e =>
      rw [post_eq_atSlot]
      exact .posted id fun s hs hn => ⟨hs.post hn x.office e, hs.posted x.office e⟩
  | expire id now =>
      exact .posted (f := Station.expire x.office now) id fun s hs hn =>
        ⟨hs.expire hn x.office now, hs.expired x.office now⟩
  | reload scripts => exact .reload scripts
  | elsewhere he => exact .elsewhere he

/-- Service ends at most one call at a time, and begins none. -/
theorem Lawful.lapse (h : x.Lawful) (hs : Service x y) : Lapse x.accounts y.accounts := by
  cases serviced hs with
  | posted id hf =>
      refine h.accounts_atSlot (R := Lapse x.accounts) id _ (.same rfl) fun slot hslot => ?_
      obtain ⟨hkeeps, hposted⟩ := hf ⟨slot, x.ledger⟩ (h.station hslot) h.nodup
      exact ⟨hkeeps.id, (h.shows hslot).lapse hposted⟩
  | reload scripts => exact .same rfl
  | elsewhere he => exact .same he.accounts

theorem Lawful.lapses (h : x.Lawful) (hs : Services x y) :
    Lapses x.accounts y.accounts := by
  induction hs with
  | refl => exact .refl
  | tail hs hlast ih => exact ih.tail ((h.acts (Services.acts hs)).lapse hlast)

/-- A slot that is given back carries no call before or after. -/
theorem Lawful.accounts_restore (h : x.Lawful) (id : SlotId) :
    (x.restore id).1.accounts = x.accounts := by
  refine h.accounts_atSlot (R := (· = x.accounts)) id _ rfl fun slot hslot => ?_
  dsimp only
  split
  · exact ⟨rfl, (h.shows hslot).put_eq rfl rfl rfl rfl⟩
  · exact ⟨rfl, (h.shows hslot).put_eq rfl rfl rfl rfl⟩

/-- A request changes nothing about calls. -/
theorem accounts_request (x : Exchange σ) (group : Option String) :
    (x.request group).1.accounts = x.accounts := by
  have hcases := requested x group
  generalize x.request group = answered at hcases
  cases hcases <;> rfl

/-- What comes of a call that is asked for: nothing changes, or it begins on a slot
without one, and the reservation of the slot ends. -/
inductive Allocated (x : Exchange σ) (id : SlotId) (setup : CallSetup) : Prop
  | denied : (∀ n, (x.allocate id setup).2 ≠ some (.ok n)) →
      (x.allocate id setup).1.accounts = x.accounts →
      (x.allocate id setup).1.ledger.reservations = x.ledger.reservations → Allocated x id setup
  | begun (n : Nat) (cid : String) : (x.allocate id setup).2 = some (.ok n) →
      x.accounts.Vacant id → (x.allocate id setup).1.accounts = x.accounts.opened id cid →
      (x.allocate id setup).1.ledger.reservations = x.ledger.reservations.release id →
      Allocated x id setup

theorem Lawful.allocated (h : x.Lawful) (id : SlotId) (setup : CallSetup) :
    Allocated x id setup := by
  cases hslot : x.slots[id]? with
  | none =>
      have hnothing := atSlot_of_none hslot (Station.allocate x.office setup)
      exact .denied (by simp [allocate, hnothing]) (by rw [allocate, hnothing])
        (by rw [allocate, hnothing])
  | some slot =>
      obtain rfl : slot.id = id := h.numbered id slot hslot
      have hstation := h.station hslot
      have hshows := h.shows hslot
      have hdone := atSlot_of_getElem? hslot (Station.allocate x.office setup)
      have haccounts : (x.allocate slot.id setup).1.accounts = x.accounts.put
          (Station.allocate x.office setup ⟨slot, x.ledger⟩).1.standing := by
        rw [allocate, hdone, h.accounts_set hslot (hstation.allocate h.nodup x.office setup).id]
      have hreservations : (x.allocate slot.id setup).1.ledger.reservations =
          (Station.allocate x.office setup ⟨slot, x.ledger⟩).1.standing.reservations := by
        rw [allocate, hdone]
        rfl
      rcases Station.standing_allocate x.office setup ⟨slot, x.ledger⟩ with
        ⟨e, he, hst⟩ | ⟨n, cid, state, hn, hidle, -, hst⟩
      · rw [hst] at haccounts hreservations
        refine .denied (by simp [allocate, hdone, he]) (haccounts.trans ?_) hreservations
        exact hshows.put_eq rfl rfl rfl rfl
      · rw [hst] at haccounts hreservations
        have hvacant := hshows.carried
        rw [hstation.cid_eq_none (.inr hidle)] at hvacant
        exact .begun n cid (by simp [allocate, hdone, hn]) hvacant
          (haccounts.trans (hshows.put_entered cid state)) hreservations

/-- Every act makes a step. -/
theorem Lawful.step (h : x.Lawful) (hact : Act x y) : Step x.accounts y.accounts := by
  cases hact with
  | post id e => exact .lapse (h.lapse (.post x id e))
  | expire id now => exact .lapse (h.lapse (.expire x id now))
  | allocate id setup =>
      cases h.allocated id setup with
      | denied _ hsame _ => exact .lapse (.same hsame)
      | begun n cid _ hvacant hopened _ => exact .begun id cid hvacant hopened
  | restore id => exact .lapse (.same (h.accounts_restore id))
  | take ht => exact .lapse (.same rfl)
  | reserve group ht => exact .lapse (.same rfl)
  | reload scripts => exact .lapse (.same rfl)
  | newPeriod => exact .renewed rfl
  | elsewhere he => exact .lapse (.same he.accounts)

/-- What acts keep of lawful exchanges, they keep one after the other. -/
theorem Lawful.of_acts {P : Exchange σ → Prop} (h : x.Lawful) (hx : P x)
    (hstep : ∀ y z, y.Lawful → P y → Act y z → P z) (hacts : Acts x y) : P y := by
  induction hacts with
  | refl => exact hx
  | tail hpast hlast ih => exact hstep _ _ (h.acts hpast) ih hlast

theorem Lawful.counted (h : x.Lawful) (hc : x.accounts.Counted) (hacts : Acts x y) :
    y.accounts.Counted :=
  h.of_acts (P := fun y => y.accounts.Counted) hc
    (fun _ _ hy hcounted hact => hcounted.step (hy.step hact)) hacts

/-- Acts leave the segments as they are, but for what they count. -/
theorem Lawful.layout (h : x.Lawful) (hacts : Acts x y) :
    y.ledger.segments.layout = x.ledger.segments.layout := by
  refine h.of_acts (P := fun y => y.ledger.segments.layout = x.ledger.segments.layout) rfl
    (fun y z hy hlayout hact => ?_) hacts
  refine Eq.trans ?_ hlayout
  change z.accounts.segments.layout = y.accounts.segments.layout
  cases hy.step hact with
  | lapse hl =>
      cases hl with
      | same hb => rw [hb]
      | ended id cid _ hb =>
          rw [hb]
          exact Segments.layout_count _ _ _
  | begun id cid _ hb =>
      rw [hb]
      exact Segments.layout_count _ _ _
  | renewed hb =>
      rw [hb]
      exact Segments.layout_newPeriod _

/-! ## slots in use -/

/-- A slot is in use if it carries a call, and only then. -/
theorem Lawful.isBusy_eq (h : x.Lawful) {slot : Slot σ} (hslot : slot ∈ x.slots) :
    slot.isBusy = slot.cid?.isSome := by
  have hlaw := (h.slot slot hslot).law
  unfold Slot.isBusy Slot.cid?
  rw [Option.isSome_map]
  cases hstate : slot.state with
  | offline =>
      have hcall : slot.call = none := (hlaw.offline hstate).1.call
      simp [hcall]
  | idle =>
      have hcall : slot.call = none := (hlaw.idle hstate).1.call
      simp [hcall]
  | scripting => exact (hlaw.scripting hstate).1.symm
  | releasing => exact (hlaw.releasing hstate).1.symm

/-- The number of slots of a segment that are in use. -/
def busyIn (s : Segment) (x : Exchange σ) : Nat :=
  x.slots.countP fun slot => s.contains slot.id && slot.isBusy

/-- There are as many calls on the slots of a segment as are in use. -/
theorem Lawful.busy_eq (h : x.Lawful) (s : Segment) : x.accounts.busy s = busyIn s x := by
  unfold Accounts.busy accounts busyIn
  rw [List.countP_map]
  refine List.countP_congr fun slot hslot => ?_
  simp [h.isBusy_eq hslot]

/-! ## what holds of all accounts -/

/-- What every step of the accounts keeps holds in every exchange that can be
reached, if it holds before there are calls. -/
theorem Reach.of_steps {P : Accounts → Prop} (h : Reach x)
    (hnew : ∀ c p segments scripts, Segments.ofConfig c = .ok segments →
      P (unstarted (σ := σ) c p segments scripts).accounts)
    (hstep : ∀ a b, P a → Step a b → P b) : P x.accounts :=
  (h.of_acts (P := fun x => x.Lawful ∧ P x.accounts)
    (fun c p segments scripts _ hs =>
      ⟨.unstarted c p segments scripts, hnew c p segments scripts hs⟩)
    fun _ _ hx hact => ⟨hx.1.act hact, hstep _ _ hx.2 (hx.1.step hact)⟩).2

/-- Before they are in service, slots carry no calls. -/
theorem carried_unstarted (c : Config) (p : Plan σ) (segments : Segments)
    (scripts : LoadedScripts) : ∀ entry ∈ (unstarted c p segments scripts).accounts.carried,
    entry.2 = none := by
  intro entry hentry
  obtain ⟨slot, hslot, rfl⟩ := List.mem_map.mp hentry
  obtain ⟨id, -, rfl⟩ := List.mem_map.mp hslot
  rfl

/-- Building begins no call. -/
theorem accounts_of_build {c : Config} {p : Plan σ} (h : build c p = .ok x) :
    ∃ segments scripts, Segments.ofConfig c = .ok segments ∧
      x.accounts = (unstarted c p segments scripts).accounts := by
  obtain ⟨-, segments, scripts, hs, rfl⟩ := build_ok h
  have hlapses := (Lawful.unstarted c p segments scripts).lapses
    (services_postAll .enable (unstarted c p segments scripts).slotIds _)
  refine ⟨segments, scripts, hs, Accounts.eq_of_lapses (fun id cid hc => ?_) hlapses⟩
  exact nomatch carried_unstarted c p segments scripts _ (List.mem_of_getElem? hc)

theorem busy_unstarted (c : Config) (p : Plan σ) (segments : Segments) (scripts : LoadedScripts)
    (s : Segment) : (unstarted c p segments scripts).accounts.busy s = 0 := by
  refine List.countP_eq_zero.mpr fun entry hentry => ?_
  simp [carried_unstarted c p segments scripts entry hentry]

/-- No segment of an exchange that can be reached counts a call that there is not. -/
theorem Reach.counted (h : Reach x) : x.accounts.Counted := by
  refine h.of_steps (fun c p segments scripts hs => ⟨?_, fun s hmem => ?_⟩)
    fun _ _ ha hstep => ha.step hstep
  · simp [accounts, unstarted, Ledger.new]
  · rw [Segments.counter_of_ofConfig hs s hmem]
    exact Nat.zero_le _

/-- When an exchange is built, its segments count the calls there are: none. -/
theorem counts_of_build {c : Config} {p : Plan σ} (h : build c p = .ok x) (g : Segment) :
    x.accounts.Counts g := by
  obtain ⟨segments, scripts, hs, haccounts⟩ := accounts_of_build h
  rw [haccounts]
  intro s hmem _
  rw [Segments.counter_of_ofConfig hs s hmem, busy_unstarted]
  rfl

end Exchange

end Switchboard
