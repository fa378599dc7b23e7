import Switchboard.Proofs.Slot.Protocol
import Switchboard.Proofs.Slot.Records
import Switchboard.Proofs.Slot.Timeless

/-!
# Switchboard.Proofs.Slot.Alike

Books that slots have kept at the same time.

1. Two books are alike if they differ in times and in the order of what different
   slots have entered: the lists of free slots, the messages, and the records of
   different slots (`Ledger.Alike`).
2. The entries that events lead to begin no call (`Entry.isService`,
   `Work.Serves`).  Each part of the books becomes something that depends on the entry
   and on little else (`Ledger.taking`).
3. So books that are alike stay alike (`Alike.enterAll`), and whichever of two slots
   makes its entries first, the books come out alike (`alike_swap`).
-/

namespace Switchboard

/-! ## records -/

namespace RecordPool

variable {p q t : RecordPool} {r s : CallRecord}

/-- What there is besides the records that wait. -/
def spare (p : RecordPool) : RecordPool := { p with pending := [] }

/-- The records of each slot that wait are the same but for the times, and so is what
there is besides. -/
structure Alike (p q : RecordPool) : Prop where
  pending : ∀ id : SlotId, q.timeless.pending.filter (·.slot == id) =
    p.timeless.pending.filter (·.slot == id)
  spare : q.spare = p.spare

namespace Alike

theorem refl (p : RecordPool) : Alike p p := ⟨fun _ => rfl, rfl⟩

theorem trans (h : Alike p q) (h' : Alike q t) : Alike p t :=
  ⟨fun id => (h'.pending id).trans (h.pending id), h'.spare.trans h.spare⟩

theorem isOpen (h : Alike p q) : q.isOpen = p.isOpen := congrArg (·.isOpen) h.spare

end Alike

/-- What waits when a record has been handed in. -/
theorem pending_use (p : RecordPool) (r : CallRecord) :
    (p.use r).pending = if p.isOpen then p.pending ++ [r] else p.pending :=
  congrArg (·.pending) (p.use_eq r .blank)

/-- A record that is used does not close the pool. -/
theorem isOpen_use (p : RecordPool) (r : CallRecord) : (p.use r).isOpen = p.isOpen := by
  have hopen : p.acquire.2.isOpen = p.isOpen := by rw [acquire_eq]
  unfold use submit
  split
  · exact hopen
  · rw [recycle_eq]
    exact hopen

/-- What there is besides is the same whatever has been handed in. -/
theorem spare_use (p : RecordPool) (r : CallRecord) :
    (p.use r).spare = (p.spare.use .blank).spare := by
  rw [use_eq p r .blank]
  obtain ⟨capacity, free, pending, isOpen, submitted, dropped⟩ := p
  unfold use submit spare
  cases isOpen with
  | true => cases free <;> rfl
  | false =>
      unfold acquire recycle
      cases free with
      | nil =>
          by_cases hroom : 0 < capacity <;> simp [noteDropped, hroom]
      | cons s rest =>
          by_cases hroom : rest.length < capacity <;> simp [noteDropped, hroom]

/-- Pools stay alike when they use the same record. -/
theorem Alike.use (h : Alike p q) (r : CallRecord) : Alike (p.use r) (q.use r) := by
  refine ⟨fun id => ?_, ?_⟩
  · have hpending := h.pending id
    simp only [timeless, pending_use, h.isOpen] at hpending ⊢
    split
    · simp [hpending]
    · exact hpending
  · rw [spare_use q, spare_use p, h.spare]

/-- Records of different slots may be handed in in either order. -/
theorem alike_swap (p : RecordPool) (h : r.slot ≠ s.slot) :
    Alike ((p.use r).use s) ((p.use s).use r) := by
  refine ⟨fun id => ?_, ?_⟩
  · simp only [timeless, pending_use, isOpen_use]
    split
    · by_cases hr : r.slot = id
      · have hs : s.slot ≠ id := fun hs => h (hr.trans hs.symm)
        simp [CallRecord.timeless, hr, hs]
      · simp [CallRecord.timeless, List.filter_cons, hr]
    · rfl
  · rw [spare_use, spare_use p s, spare_use (p.use r), spare_use p r]

end RecordPool

/-! ## counts -/

/-- Whichever of two calls ends first, the counts come out the same. -/
theorem Segments.callEnded_comm (t : Segments) (i j : SlotId) :
    (t.callEnded i).callEnded j = (t.callEnded j).callEnded i := by
  have hholds : ∀ (k : SlotId) (s : Segment) (c : Counter),
      t.holds k { s with counter := c } = t.holds k s := fun _ _ _ => rfl
  unfold callEnded count
  refine congrArg (Segments.mk · t.slotCount) ?_
  simp only [List.map_map]
  refine List.map_congr_left fun s _ => ?_
  change (if t.holds j (if t.holds i s then _ else _) then _ else _) =
    (if t.holds i (if t.holds j s then _ else _) then _ else _)
  by_cases hi : t.holds i s = true <;> by_cases hj : t.holds j s = true <;>
    simp [hi, hj, hholds]

/-! ## free slots -/

namespace IdlePool

variable {p q : IdlePool} {i j : SlotId}

/-- A slot is put on the list or taken off it, or neither. -/
def moved (p : IdlePool) (id : SlotId) : Option Bool → IdlePool
  | some true => (p.insert id).1
  | some false => (p.remove id).1
  | none => p

/-- A slot that is listed comes last, unless it was on the list. -/
theorem slots_listed (p : IdlePool) (id : SlotId) :
    (p.moved id (some true)).slots = if p.contains id then p.slots else p.slots ++ [id] := by
  unfold moved insert
  dsimp only
  split <;> rfl

theorem slots_unlisted (p : IdlePool) (id : SlotId) :
    (p.moved id (some false)).slots = p.slots.erase id := rfl

/-- An entry is new if the slot was not on the list. -/
theorem isNew_insert (p : IdlePool) (id : SlotId) : (p.insert id).2 = !p.contains id := by
  unfold insert
  split <;> simp [*]

/-- A slot is on one list if it is on the other. -/
theorem contains_of_perm (h : q.slots.Perm p.slots) (id : SlotId) :
    q.contains id = p.contains id := by
  unfold contains
  rw [Bool.eq_iff_iff, List.contains_iff_mem, List.contains_iff_mem]
  exact h.mem_iff

/-- Lists with the same slots keep them, wherever a slot moves. -/
theorem perm_moved (h : q.slots.Perm p.slots) (id : SlotId) (a : Option Bool) :
    (q.moved id a).slots.Perm (p.moved id a).slots := by
  match a with
  | none => exact h
  | some false => exact h.erase id
  | some true =>
      rw [slots_listed, slots_listed, contains_of_perm h]
      split
      · exact h
      · exact h.append_right [id]

/-- Whether a slot is on the list does not depend on the others. -/
theorem contains_moved (hij : i ≠ j) (p : IdlePool) (b : Option Bool) :
    (p.moved j b).contains i = p.contains i := by
  match b with
  | none => rfl
  | some false => simp [contains, slots_unlisted, List.mem_erase_of_ne hij]
  | some true =>
      unfold contains
      rw [slots_listed]
      split
      · rfl
      · simp [hij]

/-- What is taken off a list does not depend on what is put on it. -/
theorem erase_append_singleton (hij : i ≠ j) (l : List SlotId) :
    (l ++ [i]).erase j = l.erase j ++ [i] := by
  by_cases hj : j ∈ l
  · exact List.erase_append_left _ hj
  · rw [List.erase_append_right _ hj, List.erase_of_not_mem hj,
      List.erase_of_not_mem (by simpa using hij.symm)]

/-- Different slots may be put on the list or taken off it in either order. -/
theorem moved_swap (hij : i ≠ j) (p : IdlePool) (a b : Option Bool) :
    ((p.moved j b).moved i a).slots.Perm ((p.moved i a).moved j b).slots := by
  have hi := contains_moved hij p b
  have hj := contains_moved hij.symm p a
  match a, b with
  | none, _ => exact .refl _
  | some _, none => exact .refl _
  | some false, some false => exact .of_eq (List.erase_comm j i)
  | some true, some false =>
      rw [slots_listed, hi, slots_unlisted, slots_unlisted, slots_listed]
      split
      · exact .refl _
      · exact .of_eq (erase_append_singleton hij p.slots).symm
  | some false, some true =>
      rw [slots_unlisted, slots_listed, slots_listed, hj, slots_unlisted]
      split
      · exact .refl _
      · exact .of_eq (erase_append_singleton hij.symm p.slots)
  | some true, some true =>
      rw [slots_listed (p.moved j (some true)), hi, slots_listed p j,
        slots_listed (p.moved i (some true)), hj, slots_listed p i]
      split <;> split
      · exact .refl _
      · exact .refl _
      · exact .refl _
      · rw [List.append_assoc, List.append_assoc]
        exact (List.Perm.swap _ _ _).append_left p.slots

end IdlePool

/-! ## entries that begin no call -/

namespace Entry

/-- Whether an entry begins no call. -/
def isService : Entry → Bool
  | .identifies _ | .books _ => false
  | .calls _ | .notes _ | .orders _ | .records _ _ _ | .strikes _ | .lists | .relists | .unlists
  | .breaks => true

/-- Without its times an entry is what it was. -/
theorem isService_timeless {e f : Entry} (h : e.timeless = some f) :
    f.isService = e.isService := by
  cases e with
  | calls w => exact nomatch h
  | notes | orders | records | strikes | lists | relists | unlists | identifies | books
  | breaks =>
      obtain rfl := Option.some.inj h
      rfl

/-- The call that an entry strikes out. -/
def struck? : Entry → Option String
  | .strikes cid => some cid
  | _ => none

/-- Whether an entry puts the slot on the list of free slots, or takes it off. -/
def listing? : Entry → Option Bool
  | .lists | .relists => some true
  | .unlists => some false
  | _ => none

/-- Whether an entry breaks the work off. -/
def isBreak : Entry → Bool
  | .breaks => true
  | _ => false

/-- The messages that an entry of the slot `id` leads to. -/
def said (id : SlotId) (l : Ledger) : Entry → List Notice
  | .notes ns => ns
  | .relists => if (l.idle.insert id).2 then [] else [.alreadyIdle id]
  | .records _ _ _ => if l.records.isOpen then [] else [.recordRefused id]
  | _ => []

end Entry

namespace Ledger

variable {l m n : Ledger} {i j : SlotId} {e f : Entry}

/-- What each part of the books becomes with an entry that begins no call. -/
def taking (l : Ledger) (id : SlotId) (e : Entry) : Ledger where
  segments := if e.struck?.isSome then l.segments.callEnded id else l.segments
  idle := l.idle.moved id e.listing?
  reservations :=
    if e.listing? = some false then l.reservations.release id else l.reservations
  calls := e.struck?.elim l.calls fun cid => l.calls.filter (·.1 != cid)
  records := (e.record? id).elim l.records l.records.use
  identities := l.identities
  journal := l.journal ++ e.said id l
  orders := l.orders ++ (e.order?.map (id, ·)).toList
  called := l.called
  broken := l.broken || e.isBreak

/-- A call for a worker changes nothing but the calls for workers. -/
theorem call_eq (l : Ledger) (w : Worker) :
    l.call w = { l with called := (l.call w).called } := by
  unfold call
  split <;> rfl

/-- A record is taken for use and handed in. -/
theorem submit_eq (l : Ledger) (r : CallRecord) :
    ∃ called, { l with records := l.records.acquire.2 }.submit r = { l with
      records := l.records.use r
      journal := l.journal ++ if l.records.isOpen then [] else [.recordRefused r.slot]
      called } := by
  have hopen : l.records.acquire.2.isOpen = l.records.isOpen := by
    rw [RecordPool.acquire_eq]
  have htaken : (l.records.acquire.2.submit r).2 = l.records.isOpen := by
    unfold RecordPool.submit
    cases ho : l.records.isOpen <;> simp [hopen, ho]
  unfold submit
  dsimp only
  rw [htaken]
  cases l.records.isOpen with
  | true =>
      refine ⟨(call { l with records := l.records.use r } .poster).called, ?_⟩
      simpa [RecordPool.use] using call_eq { l with records := l.records.use r } .poster
  | false => exact ⟨l.called, rfl⟩

/-- But for the workers called, that is what the books become. -/
theorem enter_eq_taking (hb : l.records.Blank) (he : e.isService = true) (id : SlotId) :
    ∃ called, l.enter id e = { l.taking id e with called } := by
  cases e with
  | identifies | books => exact nomatch he
  | calls w =>
      have htaking : l.taking id (.calls w) = l := by
        simp [taking, Entry.struck?, Entry.listing?, Entry.record?, Entry.order?, Entry.said,
          Entry.isBreak, IdlePool.moved]
      rw [htaking]
      exact ⟨_, call_eq l w⟩
  | records kind c now =>
      obtain ⟨called, hsubmit⟩ := submit_eq l (Station.fill now id c kind .blank)
      refine ⟨called, ?_⟩
      change { l with records := l.records.acquire.2 }.submit
        (Station.fill now id c kind l.records.acquire.1) = _
      rw [hb.acquire.1, hsubmit]
      have hslot : (Station.fill now id c kind .blank).slot = id := by cases kind <;> rfl
      simp [taking, Entry.struck?, Entry.listing?, Entry.record?, Entry.order?, Entry.said,
        Entry.isBreak, IdlePool.moved, hslot]
  | relists =>
      refine ⟨l.called, ?_⟩
      by_cases hnew : (l.idle.insert id).2 = true <;>
        simp [enter, taking, Entry.struck?, Entry.listing?, Entry.record?, Entry.order?,
          Entry.said, Entry.isBreak, IdlePool.moved, note, Ledger.notes, hnew]
  | notes | orders | strikes | lists | unlists | breaks =>
      refine ⟨l.called, ?_⟩
      simp [enter, taking, Entry.struck?, Entry.listing?, Entry.record?, Entry.order?,
        Entry.said, Entry.isBreak, IdlePool.moved, Ledger.notes, Ledger.order, strikeCall]

/-! ## books that are alike -/

/-- The books say the same, but for times, and for the order of what different slots
have entered. -/
structure Alike (l m : Ledger) : Prop where
  segments : m.segments = l.segments
  idle : m.idle.slots.Perm l.idle.slots
  reservations : m.reservations = l.reservations
  calls : m.calls = l.calls
  records : l.records.Alike m.records
  identities : m.identities = l.identities
  journal : m.journal.Perm l.journal
  orders : ∀ id, m.ordersOf id = l.ordersOf id
  broken : m.broken = l.broken

namespace Alike

theorem refl (l : Ledger) : Alike l l :=
  ⟨rfl, .refl _, rfl, rfl, .refl _, rfl, .refl _, fun _ => rfl, rfl⟩

theorem trans (h : Alike l m) (h' : Alike m n) : Alike l n :=
  ⟨h'.segments.trans h.segments, h'.idle.trans h.idle, h'.reservations.trans h.reservations,
    h'.calls.trans h.calls, h.records.trans h'.records, h'.identities.trans h.identities,
    h'.journal.trans h.journal, fun id => (h'.orders id).trans (h.orders id),
    h'.broken.trans h.broken⟩

/-- Books that agree but for the times are alike. -/
theorem of_timeless (h : l.timeless = m.timeless) : Alike l m := by
  obtain ⟨pending, called, hp, rfl⟩ := eq_of_timeless h
  exact ⟨rfl, .refl _, rfl, rfl, ⟨fun id => congrArg (List.filter _) hp, rfl⟩, rfl, .refl _,
    fun _ => rfl, rfl⟩

/-- Who was called does not matter. -/
theorem uncalled (h : Alike l m) (v w : List Worker) :
    Alike { l with called := v } { m with called := w } :=
  ⟨h.segments, h.idle, h.reservations, h.calls, h.records, h.identities, h.journal, h.orders,
    h.broken⟩

/-- Books that are alike have blank records. -/
theorem blank (h : Alike l m) (hb : l.records.Blank) : m.records.Blank := by
  have hfree : m.records.free = l.records.free := congrArg (·.free) h.records.spare
  unfold RecordPool.Blank
  rw [hfree]
  exact hb

end Alike

/-! ### the same entry -/

/-- What an entry makes a device do is the same in ledgers that are alike. -/
theorem Alike.said (h : Alike l m) (id : SlotId) (e : Entry) : e.said id m = e.said id l := by
  cases e with
  | relists =>
      unfold Entry.said
      dsimp only
      rw [IdlePool.isNew_insert, IdlePool.isNew_insert, IdlePool.contains_of_perm h.idle]
  | records kind c now =>
      unfold Entry.said
      dsimp only
      rw [h.records.isOpen]
  | calls | notes | orders | strikes | lists | unlists | identifies | books | breaks => rfl

/-- An entry gives its order to its own device. -/
theorem ordersOf_taking (l : Ledger) (id other : SlotId) (e : Entry) :
    (l.taking id e).ordersOf other =
      l.ordersOf other ++ if other = id then e.order?.toList else [] := by
  unfold ordersOf taking
  rw [List.filterMap_append]
  by_cases hid : id = other
  · cases e.order? <;> simp [hid]
  · cases e.order? <;> simp [hid, Ne.symm hid]

/-- Books that are alike stay alike with the same entry. -/
theorem Alike.taking (h : Alike l m) (id : SlotId) (e : Entry) :
    Alike (l.taking id e) (m.taking id e) := by
  refine ⟨?_, ?_, ?_, ?_, ?_, h.identities, ?_, fun other => ?_, ?_⟩
  · simp only [Ledger.taking, h.segments]
  · exact IdlePool.perm_moved h.idle id e.listing?
  · simp only [Ledger.taking, h.reservations]
  · simp only [Ledger.taking, h.calls]
  · unfold Ledger.taking
    dsimp only
    cases e.record? id with
    | none => exact h.records
    | some r => exact h.records.use r
  · simp only [Ledger.taking, h.said]
    exact h.journal.append_right _
  · rw [ordersOf_taking, ordersOf_taking, h.orders]
  · simp only [Ledger.taking, h.broken]

/-- Ledgers stay alike when one service entry is taken by both. -/
theorem Alike.enter (h : Alike l m) (hb : l.records.Blank) (he : e.isService = true)
    (id : SlotId) : Alike (l.enter id e) (m.enter id e) := by
  obtain ⟨v, hl⟩ := enter_eq_taking hb he id
  obtain ⟨w, hm⟩ := enter_eq_taking (h.blank hb) he id
  rw [hl, hm]
  exact (h.taking id e).uncalled v w

/-- So they do for many entries. -/
theorem Alike.enterAll (h : Alike l m) (hb : l.records.Blank) {es : List Entry}
    (hes : ∀ e ∈ es, e.isService = true) (id : SlotId) :
    Alike (l.enterAll id es) (m.enterAll id es) := by
  induction es generalizing l m with
  | nil => exact h
  | cons e rest ih =>
      exact ih (h.enter hb (hes e List.mem_cons_self) id) (taken_enter hb id e).blank
        fun f hf => hes f (List.mem_cons_of_mem e hf)

/-! ### entries of different slots -/

/-- What an entry of one slot says is not changed by an entry of another. -/
theorem said_taking (hij : i ≠ j) : e.said i (l.taking j f) = e.said i l := by
  cases e with
  | relists =>
      have hidle : (l.taking j f).idle = l.idle.moved j f.listing? := rfl
      unfold Entry.said
      dsimp only
      rw [hidle, IdlePool.isNew_insert, IdlePool.isNew_insert, IdlePool.contains_moved hij]
  | records kind c now =>
      have hopen : (l.taking j f).records.isOpen = l.records.isOpen := by
        unfold taking
        dsimp only
        cases f.record? j with
        | none => rfl
        | some r => exact l.records.isOpen_use r
      unfold Entry.said
      dsimp only
      rw [hopen]
  | calls | notes | orders | strikes | lists | unlists | identifies | books | breaks => rfl

/-- The record of an entry is one of its slot. -/
theorem slot_record? {r : CallRecord} (h : e.record? i = some r) : r.slot = i := by
  cases e with
  | records kind c now =>
      obtain rfl := Option.some.inj h
      cases kind <;> rfl
  | calls | notes | orders | strikes | lists | relists | unlists | identifies | books | breaks =>
      exact nomatch h

/-- Entries of different slots may be made in either order. -/
theorem alike_swap_taking (hij : i ≠ j) (l : Ledger) (e f : Entry) :
    Alike ((l.taking i e).taking j f) ((l.taking j f).taking i e) := by
  refine ⟨?_, ?_, ?_, ?_, ?_, rfl, ?_, fun id => ?_, ?_⟩
  · simp only [taking]
    cases e.struck? <;> cases f.struck? <;> simp [Segments.callEnded_comm]
  · exact IdlePool.moved_swap hij l.idle e.listing? f.listing?
  · simp only [taking, Reservations.release]
    split <;> split <;> first | rfl | exact congrArg Reservations.mk (List.filter_comm ..)
  · simp only [taking]
    cases e.struck? with
    | none => rfl
    | some cid =>
        cases f.struck? with
        | none => rfl
        | some other => exact List.filter_comm ..
  · simp only [taking]
    cases he : e.record? i with
    | none => exact .refl _
    | some r =>
        cases hf : f.record? j with
        | none => exact .refl _
        | some s =>
            refine RecordPool.alike_swap l.records ?_
            rw [slot_record? he, slot_record? hf]
            exact hij
  · have hi : e.said i (l.taking j f) = e.said i l := said_taking hij
    have hj : f.said j (l.taking i e) = f.said j l := said_taking hij.symm
    have hjournal : ∀ (m : Ledger) (id : SlotId) (g : Entry),
        (m.taking id g).journal = m.journal ++ g.said id m := fun _ _ _ => rfl
    simp only [hjournal, hi, hj, List.append_assoc]
    exact (List.perm_append_comm).append_left l.journal
  · rw [ordersOf_taking, ordersOf_taking, ordersOf_taking, ordersOf_taking, List.append_assoc,
      List.append_assoc]
    by_cases hi : id = i
    · simp [hi, hij]
    · simp [hi]
  · simp only [taking, Bool.or_assoc, Bool.or_comm, Bool.or_left_comm]

/-- Two service entries of different slots can be taken in either order. -/
theorem alike_swap_enter (hb : l.records.Blank) (hij : i ≠ j) (he : e.isService = true)
    (hf : f.isService = true) : Alike ((l.enter i e).enter j f) ((l.enter j f).enter i e) := by
  obtain ⟨v, hl⟩ := enter_eq_taking hb he i
  obtain ⟨w, hm⟩ := enter_eq_taking hb hf j
  obtain ⟨v', hl'⟩ := enter_eq_taking (taken_enter hb i e).blank hf j
  obtain ⟨w', hm'⟩ := enter_eq_taking (taken_enter hb j f).blank he i
  rw [hl', hm', hl, hm]
  exact (alike_swap_taking hij l e f).uncalled v' w'

/-- One slot may make an entry before or after another slot makes several. -/
theorem alike_enter_enterAll (hb : l.records.Blank) (hij : i ≠ j) (he : e.isService = true)
    {fs : List Entry} (hfs : ∀ f ∈ fs, f.isService = true) :
    Alike ((l.enter i e).enterAll j fs) ((l.enterAll j fs).enter i e) := by
  induction fs generalizing l with
  | nil => exact .refl _
  | cons f rest ih =>
      have hf := hfs f List.mem_cons_self
      have hrest : ∀ g ∈ rest, g.isService = true :=
        fun g hg => hfs g (List.mem_cons_of_mem f hg)
      have hfirst := alike_swap_enter hb hij he hf
      exact (hfirst.enterAll (taken_enter (taken_enter hb i e).blank j f).blank hrest j).trans
        (ih (taken_enter hb j f).blank hrest)

/-- Whichever of two slots makes its entries first, the books come out alike. -/
theorem alike_swap (hb : l.records.Blank) (hij : i ≠ j) {es fs : List Entry}
    (hes : ∀ e ∈ es, e.isService = true) (hfs : ∀ f ∈ fs, f.isService = true) :
    Alike ((l.enterAll i es).enterAll j fs) ((l.enterAll j fs).enterAll i es) := by
  induction es generalizing l with
  | nil => exact .refl _
  | cons e rest ih =>
      have he := hes e List.mem_cons_self
      have hrest : ∀ g ∈ rest, g.isService = true :=
        fun g hg => hes g (List.mem_cons_of_mem e hg)
      -- The first entry goes past all of the other slot's, and the rest follows it.
      have hlate := ih (taken_enter hb i e).blank hrest
      have hearly := alike_enter_enterAll hb hij he hfs
      exact hlate.trans
        (hearly.enterAll (taken_enterAll (taken_enter hb i e).blank j fs).blank hrest i)

/-- Entries that agree but for the times leave books that are alike. -/
theorem Alike.enterAll_timeless (h : Alike l m) (hb : l.records.Blank) {es fs : List Entry}
    (hes : ∀ e ∈ es, e.isService = true)
    (hsame : es.filterMap Entry.timeless = fs.filterMap Entry.timeless) (id : SlotId) :
    Alike (l.enterAll id es) (m.enterAll id fs) := by
  have htimeless : ∀ f ∈ es.filterMap Entry.timeless, f.isService = true := by
    intro f hf
    obtain ⟨e, he, hef⟩ := List.mem_filterMap.mp hf
    exact (Entry.isService_timeless hef).trans (hes e he)
  have hleft := of_timeless (timeless_enterAll id (l := l) es rfl)
  have hright := of_timeless (timeless_enterAll id (l := m) fs rfl).symm
  rw [← hsame] at hright
  exact (hleft.trans (h.enterAll hb htimeless id)).trans hright

end Ledger

/-! ## work that begins no call -/

namespace Work

variable {σ : Type} {o : Office σ} {w : Work σ} {f : Slot σ → Work σ}

/-- Work that makes no entry that begins a call. -/
def Serves (w : Work σ) : Prop := ∀ e ∈ w.entries, e.isService = true

/-- Work that serves, one after the other, serves. -/
theorem Serves.and (h : w.Serves) (h' : (f w.slot).Serves) : (w.and f).Serves := by
  intro e he
  rcases List.mem_append.mp he with he | he
  · exact h e he
  · exact h' e he

/-- Work without an entry serves. -/
theorem Serves.none {t : Slot σ} : (⟨t, []⟩ : Work σ).Serves := fun _ he => nomatch he

/-- Work with a service entry serves. -/
theorem Serves.one {t : Slot σ} {e : Entry} (he : e.isService = true) :
    (⟨t, [e]⟩ : Work σ).Serves := fun _ hf => List.mem_singleton.mp hf ▸ he

theorem Serves.option {α : Type} {t : Slot σ} {e : α → Entry} (he : ∀ a, (e a).isService = true)
    (a : Option α) : (⟨t, (a.map e).toList⟩ : Work σ).Serves := by
  cases a with
  | none => exact .none
  | some a => exact .one (he a)

/-- A step of the script serves. -/
theorem serves_step (o : Office σ) (s : Slot σ) : (step o s).Serves := by
  intro e he
  rcases List.mem_cons.mp he with rfl | he
  · rfl
  · exact Serves.option (t := s) (fun _ => rfl) (stepped o s).world.passedOn e he

theorem serves_beginRelease (o : Office σ) (reason : String) (s : Slot σ) :
    (beginRelease o reason s).Serves := Serves.one rfl

/-- A turn serves. -/
theorem serves_runFor (o : Office σ) (n : Nat) (s : Slot σ) : (runFor o n s).Serves := by
  induction n generalizing s with
  | zero => exact .one rfl
  | succ n ih =>
      refine (serves_step o s).and ?_
      unfold afterStep
      split
      · exact .one rfl
      · split
        · exact Serves.and (.one rfl) (serves_beginRelease _ _ _)
        · split
          · exact Serves.and (.one rfl) (ih _)
          · split
            · exact ih _
            · unfold await
              split
              · exact .one rfl
              · exact .none

/-- The end of a release serves. -/
theorem serves_finish (o : Office σ) (next : SlotState) (s : Slot σ) :
    (finish o next s).Serves := by
  unfold Serves
  rw [entries_finish]
  cases s.call <;> by_cases s.armedMask = 0 <;> by_cases next = .idle <;>
    simp [Entry.isService, *]

/-- Events begin no calls. -/
theorem serves_post (o : Office σ) (e : Event) (s : Slot σ) : (post o e s).1.Serves := by
  unfold post
  cases s.state with
  | offline =>
      cases e with
      | enable => exact .one rfl
      | shutdown | disable | timeout | drop | hangup | release | signal => exact .none
  | idle =>
      cases e with
      | disable | shutdown => exact .one rfl
      | enable | timeout | drop | hangup | release | signal => exact .none
  | scripting =>
      cases e with
      | timeout => exact serves_runFor o _ s
      | signal name =>
          dsimp only [postScripting]
          split
          · exact serves_runFor o _ _
          · exact .none
      | drop | hangup => exact Serves.and (.one rfl) (serves_beginRelease _ _ _)
      | disable | shutdown => exact Serves.and (.one rfl) (serves_finish _ _ _)
      | enable | release => exact .none
  | releasing =>
      cases e with
      | release | timeout | disable | shutdown => exact serves_finish _ _ _
      | drop | hangup | enable | signal => exact .none

end Work

end Switchboard
