import Switchboard.Proofs.Slot.Wiring

/-!
# Switchboard.Proofs.Slot.Books

What work on one slot does to the books that it shares with the others.

1. A slot is listed as free or not, and reserved or not.  Entering a slot on
   either list, and striking it off, concerns that slot only.
2. `Quiet` work leaves both lists as they are, gives orders to the device of
   its own slot only, and finds no slot listed twice.  All work on a slot is
   quiet but that which lists it or strikes it off (`Discreet`).
3. `Aside` is what any work on a slot is to the other slots.
-/

namespace Switchboard

/-! ## the lists -/

namespace IdlePool

variable {p q : IdlePool} {id other : SlotId}

/-- A slot that is on the list already is not entered again. -/
theorem insert_eq_of_mem (h : id ∈ p.slots) : p.insert id = (p, false) := by
  simp [insert, contains, h]

/-- A slot that is new to the list comes last. -/
theorem insert_eq_of_not_mem (h : id ∉ p.slots) : p.insert id = (⟨p.slots ++ [id]⟩, true) := by
  simp [insert, contains, h]

/-- After an entry, the slot is on the list, and so are those that were. -/
theorem mem_insert : other ∈ (p.insert id).1.slots ↔ other ∈ p.slots ∨ other = id := by
  by_cases h : id ∈ p.slots
  · rw [insert_eq_of_mem h]
    refine ⟨.inl, fun ho => ho.elim (·) fun he => he ▸ h⟩
  · simp [insert_eq_of_not_mem h]

/-- No entry puts a slot on the list twice. -/
theorem nodup_insert (h : p.slots.Nodup) : (p.insert id).1.slots.Nodup := by
  by_cases hm : id ∈ p.slots
  · rwa [insert_eq_of_mem hm]
  · rw [insert_eq_of_not_mem hm]
    exact List.nodup_append.mpr ⟨h, by simp, fun a ha b hb hab =>
      hm (List.mem_singleton.mp hb ▸ hab ▸ ha)⟩

/-- Other slots stay on the list. -/
theorem mem_remove_of_ne (h : other ≠ id) : other ∈ (p.remove id).1.slots ↔ other ∈ p.slots :=
  List.mem_erase_of_ne h

/-- A slot that is struck is not on the list any more. -/
theorem not_mem_remove (h : p.slots.Nodup) : id ∉ (p.remove id).1.slots :=
  h.not_mem_erase

theorem nodup_remove (h : p.slots.Nodup) : (p.remove id).1.slots.Nodup := h.erase id

/-- A policy chooses one of the slots it may choose from. -/
theorem mem_of_choose? {policy : Policy} {slots : List SlotId}
    (h : policy.choose? slots = some id) : id ∈ slots := by
  cases policy with
  | first => exact List.min?_mem h
  | last => exact List.max?_mem h
  | longestIdle => exact List.mem_of_mem_head? h

/-- A slot that is taken was listed, and is struck off. -/
theorem take_eq_some {members : Option (List SlotId)} {policy : Policy}
    (h : p.take members policy = (q, some id)) : id ∈ p.slots ∧ q = (p.remove id).1 := by
  unfold take at h
  split at h
  · simp at h
  · next slot hc =>
      obtain ⟨rfl, hid⟩ := Prod.mk.inj h
      obtain rfl := Option.some.inj hid
      refine ⟨?_, rfl⟩
      cases members with
      | none => exact mem_of_choose? hc
      | some members => exact (List.mem_filter.mp (mem_of_choose? hc)).1

end IdlePool

namespace Reservations

variable {r : Reservations} {id other : SlotId}

/-- Other slots stay reserved. -/
theorem contains_release :
    (r.release id).contains other = true ↔ r.contains other = true ∧ other ≠ id := by
  simp only [contains, release, List.any_filter, List.any_eq_true, Bool.and_eq_true, bne_iff_ne,
    beq_iff_eq]
  constructor
  · rintro ⟨entry, hm, hne, rfl⟩
    exact ⟨⟨entry, hm, rfl⟩, hne⟩
  · rintro ⟨⟨entry, hm, rfl⟩, hne⟩
    exact ⟨entry, hm, hne, rfl⟩

/-- A reservation is for one slot; others keep theirs. -/
theorem contains_insert {group : String} :
    (r.insert id group).contains other = true ↔ r.contains other = true ∨ other = id := by
  have h : (r.insert id group).contains other = (id == other || (r.release id).contains other) := by
    simp [insert, contains]
  rw [h, Bool.or_eq_true, contains_release, beq_iff_eq]
  by_cases he : other = id
  · simp [he]
  · simp [he, Ne.symm he]

end Reservations

namespace Ledger

variable {l m n : Ledger} {id other : SlotId}

/-- A slot is listed as free. -/
def Lists (l : Ledger) (id : SlotId) : Prop := id ∈ l.idle.slots

/-- A slot is reserved for a group. -/
def Reserves (l : Ledger) (id : SlotId) : Prop := l.reservations.contains id = true

/-! ## quiet work -/

/-- Work on the slot `id` that enters no slot on a list and strikes none off. -/
structure Quiet (id : SlotId) (l m : Ledger) : Prop where
  idle : m.idle = l.idle
  reservations : m.reservations = l.reservations
  orders : ∀ other, other ≠ id → m.ordersOf other = l.ordersOf other
  notices : ∀ other, Notice.alreadyIdle other ∈ m.journal → Notice.alreadyIdle other ∈ l.journal

namespace Quiet

theorem refl (id : SlotId) (l : Ledger) : Quiet id l l :=
  ⟨rfl, rfl, fun _ _ => rfl, fun _ h => h⟩

theorem trans (h : Quiet id l m) (hm : Quiet id m n) : Quiet id l n :=
  ⟨hm.idle.trans h.idle, hm.reservations.trans h.reservations,
    fun other ho => (hm.orders other ho).trans (h.orders other ho),
    fun other ho => h.notices other (hm.notices other ho)⟩

/-- Other books than the lists, the orders and the messages do not matter. -/
theorem of_eq (hi : m.idle = l.idle) (hr : m.reservations = l.reservations)
    (ho : m.orders = l.orders) (hj : m.journal = l.journal) : Quiet id l m :=
  ⟨hi, hr, fun other _ => by rw [ordersOf, ho]; rfl, fun other h => hj ▸ h⟩

/-- A call for a worker concerns no book. -/
theorem call (id : SlotId) (l : Ledger) (w : Worker) : Quiet id l (l.call w) := by
  unfold Ledger.call
  split
  · exact .refl id l
  · exact .of_eq rfl rfl rfl rfl

/-- Notes concern no book, unless they say that a slot was on the list already. -/
theorem notes (id : SlotId) (l : Ledger) {ns : List Notice}
    (h : ∀ other, Notice.alreadyIdle other ∉ ns) : Quiet id l (l.notes ns) := by
  refine ⟨rfl, rfl, fun _ _ => rfl, fun other ho => ?_⟩
  rcases List.mem_append.mp ho with ho | ho
  · exact ho
  · exact absurd ho (h other)

/-- An order to a device concerns no book. -/
theorem order (id : SlotId) (l : Ledger) (o : Order) : Quiet id l (l.order id o) := by
  refine ⟨rfl, rfl, fun other ho => ?_, fun _ h => h⟩
  simp [ordersOf, Ledger.order, Ne.symm ho]

/-- A record concerns no book. -/
theorem submit (id : SlotId) (l : Ledger) (r : CallRecord) : Quiet id l (l.submit r) := by
  have hrecords : Quiet id l { l with records := (l.records.submit r).1 } :=
    .of_eq rfl rfl rfl rfl
  unfold Ledger.submit
  dsimp only
  split
  · exact hrecords.trans (.call id _ _)
  · exact hrecords.trans (.notes id _ (by simp))

/-- The index of calls is another book. -/
theorem strikeCall (id : SlotId) (l : Ledger) (cid : String) : Quiet id l (l.strikeCall cid) :=
  .of_eq rfl rfl rfl rfl

theorem identify (id : SlotId) (l : Ledger) (wanted : Option String) :
    Quiet id l (l.identify wanted) := by
  cases wanted <;> exact .of_eq rfl rfl rfl rfl

end Quiet

/-! ## work beside other slots -/

/-- What work on the slot `id` is to the other slots: it leaves their places on
the lists and their devices alone, and finds no slot listed twice. -/
structure Aside (id : SlotId) (l m : Ledger) : Prop where
  listed : ∀ other, other ≠ id → (m.Lists other ↔ l.Lists other)
  reserved : ∀ other, other ≠ id → (m.Reserves other ↔ l.Reserves other)
  orders : ∀ other, other ≠ id → m.ordersOf other = l.ordersOf other
  notices : ∀ other, Notice.alreadyIdle other ∈ m.journal → Notice.alreadyIdle other ∈ l.journal
  nodup : l.idle.slots.Nodup → m.idle.slots.Nodup

namespace Quiet

/-- What is quiet leaves the list of idle slots as it is. -/
theorem lists (h : Quiet id l m) : m.Lists other ↔ l.Lists other := by rw [Lists, h.idle]; rfl

/-- What is quiet leaves the reservations as they are. -/
theorem reserves (h : Quiet id l m) : m.Reserves other ↔ l.Reserves other := by
  rw [Reserves, h.reservations]
  rfl

/-- What changes no book changes none for others. -/
theorem aside (h : Quiet id l m) : Aside id l m :=
  ⟨fun _ _ => h.lists, fun _ _ => h.reserves, h.orders, h.notices, fun hn => h.idle ▸ hn⟩

end Quiet

namespace Aside

theorem trans (h : Aside id l m) (hm : Aside id m n) : Aside id l n :=
  ⟨fun other ho => (hm.listed other ho).trans (h.listed other ho),
    fun other ho => (hm.reserved other ho).trans (h.reserved other ho),
    fun other ho => (hm.orders other ho).trans (h.orders other ho),
    fun other ho => h.notices other (hm.notices other ho), fun hn => hm.nodup (h.nodup hn)⟩

/-- Listing a slot as free. -/
theorem insert (id : SlotId) (l : Ledger) :
    Aside id l { l with idle := (l.idle.insert id).1 } :=
  ⟨fun _ ho => IdlePool.mem_insert.trans (or_iff_left ho), fun _ _ => .rfl, fun _ _ => rfl,
    fun _ h => h, IdlePool.nodup_insert⟩

/-- Striking a slot off the list of free ones. -/
theorem remove (id : SlotId) (l : Ledger) :
    Aside id l { l with idle := (l.idle.remove id).1 } :=
  ⟨fun _ ho => IdlePool.mem_remove_of_ne ho, fun _ _ => .rfl, fun _ _ => rfl, fun _ h => h,
    IdlePool.nodup_remove⟩

/-- Giving up the reservation of a slot. -/
theorem release (id : SlotId) (l : Ledger) :
    Aside id l { l with reservations := l.reservations.release id } :=
  ⟨fun _ _ => .rfl, fun _ ho => Reservations.contains_release.trans (and_iff_left ho),
    fun _ _ => rfl, fun _ h => h, fun hn => hn⟩

/-- Reserving a slot. -/
theorem reserve (id : SlotId) (group : String) (l : Ledger) :
    Aside id l { l with reservations := l.reservations.insert id group } :=
  ⟨fun _ _ => .rfl, fun _ ho => Reservations.contains_insert.trans (or_iff_left ho),
    fun _ _ => rfl, fun _ h => h, fun hn => hn⟩

end Aside

end Ledger

/-! ## work on a slot -/

namespace Station

variable {σ : Type} {x y z : Station σ}

open Ledger (Quiet)

/-- Quiet work on a slot. -/
structure Discreet (x y : Station σ) : Prop where
  id : y.slot.id = x.slot.id
  books : Quiet x.slot.id x.ledger y.ledger

namespace Discreet

theorem refl (x : Station σ) : Discreet x x := ⟨rfl, .refl _ _⟩

theorem trans (h : Discreet x y) (hy : Discreet y z) : Discreet x z :=
  ⟨hy.id.trans h.id, h.books.trans (h.id ▸ hy.books)⟩

/-- Work that does nothing to the books. -/
theorem of_ledger (hid : y.slot.id = x.slot.id) (hl : y.ledger = x.ledger) : Discreet x y :=
  ⟨hid, hl ▸ .refl _ _⟩

/-- Arming a timer changes no book. -/
theorem arm (o : Office σ) (delay : Nanoseconds) (x : Station σ) : Discreet x (x.arm o delay) :=
  ⟨rfl, .call _ _ _⟩

theorem disarm (x : Station σ) : Discreet x x.disarm := .of_ledger rfl rfl

/-- Waiting changes no book, with or without a timer. -/
theorem await (o : Office σ) (wake : Option Nanoseconds) (x : Station σ) :
    Discreet x (x.await o wake) := by
  cases wake with
  | none => exact .disarm x
  | some delay => exact .arm o delay x

theorem armDevice (o : Office σ) (mask : Mask) (x : Station σ) :
    Discreet x (x.armDevice o mask) := ⟨rfl, .order _ _ _⟩

theorem hangUp (o : Office σ) (x : Station σ) : Discreet x (x.hangUp o) := ⟨rfl, .order _ _ _⟩

theorem disconnect (o : Office σ) (x : Station σ) : Discreet x (x.disconnect o) :=
  ⟨rfl, .order _ _ _⟩

theorem setState (state : SlotState) (x : Station σ) : Discreet x (x.setState state) :=
  .of_ledger rfl rfl

theorem setReason (reason : String) (x : Station σ) : Discreet x (x.setReason reason) :=
  .of_ledger rfl rfl

theorem detach (x : Station σ) : Discreet x x.detach := .of_ledger rfl rfl

/-- To begin a release changes no book; only its end lists the slot. -/
theorem beginRelease (o : Office σ) (reason : String) (x : Station σ) :
    Discreet x (x.beginRelease o reason) :=
  ((setReason reason x).trans (.setState _ _)).trans (.arm o _ _)

theorem breakOff (x : Station σ) : Discreet x x.breakOff := ⟨rfl, .of_eq rfl rfl rfl rfl⟩

/-- The end of a call changes the index of calls only. -/
theorem endCall (o : Office σ) (x : Station σ) : Discreet x (x.endCall o) :=
  (hangUp o x).trans (.beginRelease o _ _)

theorem dropCall (x : Station σ) : Discreet x x.dropCall := by
  unfold Station.dropCall
  split
  · exact .refl x
  · exact ⟨rfl, .of_eq rfl rfl rfl rfl⟩

theorem record (o : Office σ) (kind : RecordKind) (x : Station σ) :
    Discreet x (x.record o kind) := by
  unfold Station.record
  split
  · exact .refl x
  · refine ⟨rfl, .trans (m := { x.ledger with records := x.ledger.records.acquire.2 }) ?_ ?_⟩
    · exact .of_eq rfl rfl rfl rfl
    · exact .submit _ _ _

/-- A step of the script changes no book. -/
theorem step (o : Office σ) (x : Station σ) : Discreet x (x.step o).1 := by
  refine ⟨rfl, ?_⟩
  unfold Station.step
  dsimp only
  have hnotes : ∀ said report, Quiet x.slot.id x.ledger
      (x.ledger.notes (stepNotices x.slot.id said report)) := fun said report =>
    .notes _ _ (by cases said <;> cases report <;> simp [stepNotices])
  split
  · exact (hnotes _ _).trans (.order _ _ _)
  · exact hnotes _ _

/-- Nor does a step after which the turn goes on. -/
theorem resume? {o : Office σ} (h : x.resume? o = some y) : Discreet x y := by
  obtain ⟨_, _, ⟨_, rfl⟩ | ⟨_, _, rfl⟩⟩ := resume?_eq_some h
  · exact (step o x).trans (.armDevice o _ _)
  · exact step o x

/-- To settle a turn changes no book. -/
theorem settle (o : Office σ) (x : Station σ) : Discreet x (x.settle o) := by
  unfold Station.settle
  dsimp only
  split
  · exact (step o x).trans (.breakOff _)
  · split
    · exact (step o x).trans (.endCall o _)
    · exact (step o x).trans (.await o _ _)

/-- A whole turn is quiet. -/
theorem runFor (o : Office σ) (n : Nat) (x : Station σ) : Discreet x (runFor o n x) := by
  induction n generalizing x with
  | zero => exact arm o _ x
  | succ n ih =>
      rw [runFor_succ]
      split
      · next y hy => exact (resume? hy).trans (ih y)
      · exact settle o x

end Discreet

end Station

end Switchboard
