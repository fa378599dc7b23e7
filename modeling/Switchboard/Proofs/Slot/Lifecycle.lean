import Switchboard.Proofs.Slot.Books
import Switchboard.Proofs.Slot.History

/-!
# Switchboard.Proofs.Slot.Lifecycle

What a slot carries in each of its states, and where it stands in the books.

1. A slot out of service or free carries nothing; one that runs a script or is
   about to be free carries a call.  Only free slots are listed or reserved,
   and none of them is both (`Slot.Law`).
2. A turn of the script leaves the slot with its call: the script still runs,
   or the call is over (`Ready.runFor_engaged`).
3. Work on a slot keeps the law for it, and does nothing to the others
   (`Keeps`): there is one lemma for the events in each state, and one for
   calls.
-/

namespace Switchboard

/-- There is no script, and nothing is left of one. -/
def Interpreter.Detached (s : Interpreter) : Prop :=
  s.image = none ∧ s.frames = [] ∧ s.status = .detached

/-! ## the law -/

namespace Slot

variable {σ : Type}

/-- A slot that carries nothing. -/
structure Vacant (s : Slot σ) : Prop where
  call : s.call = none
  detached : s.interpreter.Detached
  unarmed : s.armedMask = 0
  untimed : s.timer.expiry? = none

/-- What a slot carries in each state, and whether it may be listed as free or
reserved for a group. -/
structure Law (s : Slot σ) (listed reserved : Prop) : Prop where
  offline : s.state = .offline → s.Vacant ∧ ¬ listed ∧ ¬ reserved
  idle : s.state = .idle → s.Vacant ∧ ¬ (listed ∧ reserved)
  scripting : s.state = .scripting →
    s.call.isSome ∧ s.interpreter.isRunning = true ∧ ¬ listed ∧ ¬ reserved
  releasing : s.state = .releasing → s.call.isSome ∧ ¬ listed ∧ ¬ reserved

namespace Law

variable {s : Slot σ} {listed reserved : Prop}

theorem of_offline (hs : s.state = .offline) (hv : s.Vacant) (hl : ¬ listed) (hr : ¬ reserved) :
    s.Law listed reserved :=
  ⟨fun _ => ⟨hv, hl, hr⟩, by simp [hs], by simp [hs], by simp [hs]⟩

theorem of_idle (hs : s.state = .idle) (hv : s.Vacant) (h : ¬ (listed ∧ reserved)) :
    s.Law listed reserved :=
  ⟨by simp [hs], fun _ => ⟨hv, h⟩, by simp [hs], by simp [hs]⟩

theorem of_scripting (hs : s.state = .scripting) (hc : s.call.isSome)
    (hr : s.interpreter.isRunning = true) (hl : ¬ listed) (hv : ¬ reserved) :
    s.Law listed reserved :=
  ⟨by simp [hs], by simp [hs], fun _ => ⟨hc, hr, hl, hv⟩, by simp [hs]⟩

theorem of_releasing (hs : s.state = .releasing) (hc : s.call.isSome) (hl : ¬ listed)
    (hr : ¬ reserved) : s.Law listed reserved :=
  ⟨by simp [hs], by simp [hs], by simp [hs], fun _ => ⟨hc, hl, hr⟩⟩

/-- Only free slots are listed. -/
theorem idle_of_listed (h : s.Law listed reserved) (hl : listed) : s.state = .idle := by
  cases hs : s.state with
  | offline => exact absurd hl (h.offline hs).2.1
  | idle => rfl
  | scripting => exact absurd hl (h.scripting hs).2.2.1
  | releasing => exact absurd hl (h.releasing hs).2.1

end Law

end Slot

namespace Station

variable {σ : Type} {x y z : Station σ} {o : Office σ}

open Ledger (Aside Quiet)

/-- The law holds for the slot of a station. -/
structure Lawful (x : Station σ) : Prop where
  sound : x.slot.interpreter.Sound
  booked : x.Booked
  law : x.slot.Law (x.ledger.Lists x.slot.id) (x.ledger.Reserves x.slot.id)

/-- Work on a slot keeps the law for it, beside the other slots. -/
structure Keeps (x y : Station σ) : Prop where
  id : y.slot.id = x.slot.id
  lawful : y.Lawful
  aside : Aside x.slot.id x.ledger y.ledger

theorem Lawful.keeps (h : x.Lawful) : Keeps x x := ⟨rfl, h, (Quiet.refl _ _).aside⟩

/-- In between the law need not hold. -/
theorem Keeps.after (h : Keeps y z) (hid : y.slot.id = x.slot.id)
    (ha : Aside x.slot.id x.ledger y.ledger) : Keeps x z :=
  ⟨h.id.trans hid, h.lawful, ha.trans (hid ▸ h.aside)⟩

/-- Nothing in the books matters to a slot but its places on the lists and the
orders to its device. -/
theorem Lawful.of_books {s : Slot σ} {l m : Ledger} (h : Lawful ⟨s, l⟩)
    (hl : m.Lists s.id ↔ l.Lists s.id) (hr : m.Reserves s.id ↔ l.Reserves s.id)
    (ho : m.ordersOf s.id = l.ordersOf s.id) : Lawful ⟨s, m⟩ := by
  refine ⟨h.sound, (congrArg lastArm ho).trans h.booked, ?_⟩
  dsimp only
  rw [propext hl, propext hr]
  exact h.law

/-- Work on another slot does not matter. -/
theorem Lawful.beside {s : Slot σ} {l m : Ledger} {id : SlotId} (h : Lawful ⟨s, l⟩)
    (hm : Aside id l m) (hne : s.id ≠ id) : Lawful ⟨s, m⟩ :=
  h.of_books (hm.listed _ hne) (hm.reserved _ hne) (hm.orders _ hne)

/-! ## the turn of a call -/

/-- A slot carries a call, whose script runs unless the call is over. -/
structure Engaged (x : Station σ) : Prop where
  sound : x.slot.interpreter.Sound
  booked : x.Booked
  call : x.slot.call.isSome
  phase : x.slot.state = .scripting ∧ x.slot.interpreter.isRunning = true ∨
    x.slot.state = .releasing

/-- A call that goes on quietly keeps the law. -/
theorem Engaged.keeps (hy : y.Engaged) (hd : Discreet x y) (hl : ¬ x.ledger.Lists x.slot.id)
    (hr : ¬ x.ledger.Reserves x.slot.id) : Keeps x y := by
  have hl' : ¬ y.ledger.Lists y.slot.id := by rwa [hd.id, hd.books.lists]
  have hr' : ¬ y.ledger.Reserves y.slot.id := by rwa [hd.id, hd.books.reserves]
  refine ⟨hd.id, ⟨hy.sound, hy.booked, ?_⟩, hd.books.aside⟩
  rcases hy.phase with ⟨hs, hrun⟩ | hs
  · exact .of_scripting hs hy.call hrun hl' hr'
  · exact .of_releasing hs hy.call hl' hr'

/-- The timer has no part in it. -/
theorem Engaged.arm (h : x.Engaged) (o : Office σ) (delay : Nanoseconds) :
    (x.arm o delay).Engaged :=
  ⟨h.sound, h.booked.of_wiring (wiring_arm o delay x), h.call, h.phase⟩

/-- The end of a call leaves the call on its slot. -/
theorem Engaged.beginRelease (hs : x.slot.interpreter.Sound) (hb : x.Booked)
    (hc : x.slot.call.isSome) (o : Office σ) (reason : String) :
    (x.beginRelease o reason).Engaged :=
  ⟨hs, hb.of_wiring (wiring_beginRelease o reason x),
    by simpa [Station.beginRelease, Station.arm, setState, setReason] using hc, .inr rfl⟩

/-- A step that ends a turn leaves the slot with its call. -/
theorem Ready.settle_engaged (h : x.Ready) (hc : x.slot.call.isSome) : (x.settle o).Engaged := by
  have hsound : (x.step o).1.slot.interpreter.Sound := by
    rw [slot_step]
    exact h.sound.step _ _
  have hbooked := h.booked.step o
  unfold Station.settle
  dsimp only
  split
  · next hbroke =>
      have hframes := h.sound.ne_nil (h.sound.attached h.running)
      exact ⟨hsound, hbooked.of_wiring rfl, hc,
        .inl ⟨h.scripting, Interpreter.running_of_broke hframes hbroke⟩⟩
  · split
    · exact .beginRelease (x := (x.step o).1.hangUp o) hsound (hbooked.hangUp o) hc o _
    · next hrun =>
        refine ⟨?_, hbooked.of_wiring (wiring_await o _ _), ?_, .inl ⟨?_, ?_⟩⟩
        · cases (x.step o).2.wake <;> exact hsound
        · cases (x.step o).2.wake <;> exact hc
        · cases (x.step o).2.wake <;> exact h.scripting
        · have hr : (x.step o).1.slot.interpreter.isRunning = true := by simpa using hrun
          cases (x.step o).2.wake <;> exact hr

/-- A turn goes on with the same call. -/
theorem call_of_resume? (h : x.resume? o = some y) : y.slot.call = x.slot.call := by
  obtain ⟨_, _, ⟨_, rfl⟩ | ⟨_, _, rfl⟩⟩ := resume?_eq_some h <;> rfl

/-- A turn leaves the slot with its call. -/
theorem Ready.runFor_engaged {n : Nat} (h : x.Ready) (hc : x.slot.call.isSome) :
    (Station.runFor o n x).Engaged := by
  induction n generalizing x with
  | zero =>
      have hx : x.Engaged := ⟨h.sound, h.booked, hc, .inl ⟨h.scripting, h.running⟩⟩
      exact hx.arm o _
  | succ n ih =>
      rw [runFor_succ]
      split
      · next y hy => exact ih (h.resume? hy) ((call_of_resume? hy).symm ▸ hc)
      · exact h.settle_engaged hc

/-! ## the end of a call -/

/-- A slot that was not listed as free is listed with no message. -/
theorem ledger_listIdle (h : ¬ x.ledger.Lists x.slot.id) :
    x.listIdle.ledger = { x.ledger with idle := (x.ledger.idle.insert x.slot.id).1 } := by
  unfold listIdle
  rw [IdlePool.insert_eq_of_not_mem h]
  rfl

/-- A slot whose call ends carries nothing. -/
theorem vacant_finish (o : Office σ) (next : SlotState) (x : Station σ) :
    (x.finish o next).slot.Vacant := by
  rw [slot_finish]
  exact ⟨rfl, ⟨rfl, rfl, rfl⟩, rfl, rfl⟩

theorem books_finish (o : Office σ) (next : SlotState) (hl : ¬ x.ledger.Lists x.slot.id) :
    Aside x.slot.id x.ledger (x.finish o next).ledger ∧
      ((x.finish o next).ledger.Reserves x.slot.id ↔ x.ledger.Reserves x.slot.id) ∧
      (next ≠ .idle → ¬ (x.finish o next).ledger.Lists x.slot.id) := by
  have hended : Discreet x (((x.disarm.record o .stop).dropCall).detach) :=
    (((Discreet.disarm x).trans (.record o _ _)).trans (.dropCall _)).trans (.detach _)
  unfold finish
  dsimp only
  generalize (((x.disarm.record o .stop).dropCall).detach) = y at hended
  have hunarmed : Discreet x
      ((if y.slot.armedMask != 0 then y.armDevice o 0 else y).setState next) := by
    refine .trans ?_ (.setState _ _)
    split
    · exact hended.trans (.armDevice o _ _)
    · exact hended
  generalize (if y.slot.armedMask != 0 then y.armDevice o 0 else y).setState next = z at hunarmed
  have hz : ¬ z.ledger.Lists z.slot.id := by rwa [hunarmed.id, hunarmed.books.lists]
  split
  · next hnext =>
      rw [ledger_listIdle hz, hunarmed.id]
      exact ⟨hunarmed.books.aside.trans (.insert _ _), hunarmed.books.reserves,
        fun hne => absurd hnext hne⟩
  · exact ⟨hunarmed.books.aside, hunarmed.books.reserves,
      fun _ => hunarmed.id ▸ hz⟩

/-- The end of a call keeps the law. -/
theorem Booked.keeps_finish (h : x.Booked) (hl : ¬ x.ledger.Lists x.slot.id)
    (hr : ¬ x.ledger.Reserves x.slot.id) (o : Office σ) {next : SlotState}
    (hnext : next = .offline ∨ next = .idle) : Keeps x (x.finish o next) := by
  have hid : (x.finish o next).slot.id = x.slot.id := by rw [slot_finish]
  obtain ⟨haside, hreserves, hlists⟩ := books_finish o next hl
  refine ⟨hid, ⟨?_, (h.finish o next).1, ?_⟩, haside⟩
  · rw [interpreter_finish]
    exact .detach _
  · rw [hid]
    rcases hnext with rfl | rfl
    · exact .of_offline (state_finish o _ x) (vacant_finish o _ x) (hlists (by simp))
        (mt hreserves.mp hr)
    · exact .of_idle (state_finish o _ x) (vacant_finish o _ x)
        fun hboth => hr (hreserves.mp hboth.2)

/-! ## events -/

/-- A slot struck off both lists is on neither. -/
theorem books_unlist (hn : x.ledger.idle.slots.Nodup) :
    Aside x.slot.id x.ledger x.unlist.ledger ∧ ¬ x.unlist.ledger.Lists x.slot.id ∧
      ¬ x.unlist.ledger.Reserves x.slot.id :=
  ⟨(Aside.remove _ _).trans (.release _ _), IdlePool.not_mem_remove hn,
    fun hr => (Reservations.contains_release.mp hr).2 rfl⟩

/-- A slot that runs a script has one that runs. -/
theorem Lawful.ready (h : x.Lawful) (hs : x.slot.state = .scripting) : x.Ready :=
  ⟨h.sound, h.booked, hs, (h.law.scripting hs).2.1⟩

/-- A slot that has nothing to do with its timer may lose it. -/
theorem Lawful.untimed (h : x.Lawful) :
    Lawful { x with slot := { x.slot with timer := .unset } } := by
  have hvacant : x.slot.Vacant → Slot.Vacant { x.slot with timer := .unset } :=
    fun hv => ⟨hv.call, hv.detached, hv.unarmed, rfl⟩
  exact ⟨h.sound, h.booked,
    ⟨fun hs => (h.law.offline hs).imp_left hvacant, fun hs => (h.law.idle hs).imp_left hvacant,
      h.law.scripting, h.law.releasing⟩⟩

theorem Lawful.postOffline (h : x.Lawful) (hs : x.slot.state = .offline) (e : Event) :
    Keeps x (x.postOffline e).1 := by
  obtain ⟨hv, -, hr⟩ := h.law.offline hs
  cases e with
  | enable =>
      refine ⟨rfl, ⟨h.sound, h.booked, ?_⟩, .insert _ _⟩
      exact .of_idle rfl ⟨hv.call, hv.detached, hv.unarmed, hv.untimed⟩ fun hboth => hr hboth.2
  | disable | shutdown | drop | hangup | release | timeout | signal => exact h.keeps

theorem Lawful.postIdle (h : x.Lawful) (hn : x.ledger.idle.slots.Nodup)
    (hs : x.slot.state = .idle) (e : Event) : Keeps x (x.postIdle e).1 := by
  obtain ⟨hv, -⟩ := h.law.idle hs
  cases e with
  | disable | shutdown =>
      obtain ⟨haside, hl, hr⟩ := books_unlist hn
      exact ⟨rfl, ⟨h.sound, h.booked,
        .of_offline rfl ⟨hv.call, hv.detached, hv.unarmed, hv.untimed⟩ hl hr⟩, haside⟩
  | enable | drop | hangup | release | timeout | signal => exact h.keeps

theorem Lawful.postScripting (h : x.Lawful) (hs : x.slot.state = .scripting) (o : Office σ)
    (e : Event) : Keeps x (x.postScripting o e).1 := by
  obtain ⟨hc, -, hl, hr⟩ := h.law.scripting hs
  have hready := h.ready hs
  cases e with
  | timeout => exact (hready.runFor_engaged hc).keeps (.runFor o _ x) hl hr
  | signal name =>
      unfold Station.postScripting
      dsimp only
      split
      · have hnext : Ready { x with slot :=
              { x.slot with interpreter := (x.slot.interpreter.trigger name).1 } } :=
          ⟨h.sound.trigger name, h.booked, hs, by
            simpa [Interpreter.isRunning] using hready.running⟩
        exact ((hnext.runFor_engaged hc).keeps (.runFor o _ _) hl hr).after rfl
          (Quiet.refl _ _).aside
      · exact h.keeps
  | drop | hangup =>
      exact (Engaged.beginRelease (x := x.disconnect o) h.sound (h.booked.disconnect o) hc o
        _).keeps ((Discreet.disconnect o x).trans (.beginRelease o _ _)) hl hr
  | disable | shutdown =>
      have hd : ∀ reason, Discreet x ((x.hangUp o).setReason reason) :=
        fun reason => (Discreet.hangUp o x).trans (.setReason reason _)
      have hb : ∀ reason, ((x.hangUp o).setReason reason).Booked :=
        fun reason => (h.booked.hangUp o).of_wiring (wiring_setReason reason _)
      exact ((hb _).keeps_finish (mt (hd _).books.lists.mp hl) (mt (hd _).books.reserves.mp hr) o
        (.inl rfl)).after rfl (hd _).books.aside
  | enable | release => exact h.keeps

theorem Lawful.postReleasing (h : x.Lawful) (hs : x.slot.state = .releasing) (o : Office σ)
    (e : Event) : Keeps x (x.postReleasing o e).1 := by
  obtain ⟨-, hl, hr⟩ := h.law.releasing hs
  cases e with
  | release | timeout => exact h.booked.keeps_finish hl hr o (.inr rfl)
  | disable | shutdown => exact h.booked.keeps_finish hl hr o (.inl rfl)
  | drop | hangup | enable | signal => exact h.keeps

/-- Every event keeps the law. -/
theorem Lawful.post (h : x.Lawful) (hn : x.ledger.idle.slots.Nodup) (o : Office σ) (e : Event) :
    Keeps x (x.post o e).1 := by
  unfold Station.post
  split
  · next hs => exact h.postOffline hs e
  · next hs => exact h.postIdle hn hs e
  · next hs => exact h.postScripting hs o e
  · next hs => exact h.postReleasing hs o e

/-- So does the timer when it runs out. -/
theorem Lawful.expire (h : x.Lawful) (hn : x.ledger.idle.slots.Nodup) (o : Office σ)
    (now : Nat) : Keeps x (x.expire o now).1 := by
  unfold Station.expire Timer.takeDue
  by_cases hdue : x.slot.timer.expiry ≤ now
  · simp only [hdue, if_true]
    exact (h.untimed.post hn o .timeout).after rfl (Quiet.refl _ _).aside
  · simp only [hdue, if_false]
    exact h.keeps

/-! ## calls -/

/-- A call that is entered strikes its slot off both lists. -/
theorem books_entered (o : Office σ) (setup : CallSetup) (s : Interpreter)
    (hn : x.ledger.idle.slots.Nodup) :
    Aside x.slot.id x.ledger (x.entered o setup s).ledger ∧
      ¬ (x.entered o setup s).ledger.Lists x.slot.id ∧
      ¬ (x.entered o setup s).ledger.Reserves x.slot.id := by
  have hidentity := Quiet.identify x.slot.id x.ledger setup.cid
  -- the books are kept by the slot as it is with the call
  have hbook : ∀ y : Station σ, ∀ c : Call, Quiet y.slot.id y.unlist.ledger
      (((y.book c).setState .scripting).record o .start).ledger := fun y c =>
    .trans (m := (y.book c).ledger) (.of_eq rfl rfl rfl rfl)
      (Discreet.record o .start ((y.book c).setState .scripting)).books
  unfold entered
  dsimp only
  generalize hy : (⟨{ x.slot with
      sequence := x.slot.sequence + 1
      interpreter := s
      call := some (called o setup x) }, (x.ledger.identify setup.cid)⟩ : Station σ) = y
  have hid : y.slot.id = x.slot.id := by rw [← hy]
  have hledger : y.ledger = (x.ledger.identify setup.cid) := by rw [← hy]
  rw [← hledger] at hidentity
  obtain ⟨haside, hl, hr⟩ := books_unlist (hidentity.aside.nodup hn)
  have hquiet := hbook y (called o setup x)
  rw [hid] at haside hl hr hquiet
  exact ⟨(hidentity.aside.trans haside).trans hquiet.aside, mt hquiet.lists.mp hl,
    mt hquiet.reserves.mp hr⟩

/-- Asking for a call keeps the law, whatever comes of it. -/
theorem Lawful.allocate (h : x.Lawful) (hn : x.ledger.idle.slots.Nodup) (o : Office σ)
    (setup : CallSetup) : Keeps x (x.allocate o setup).1 := by
  unfold Station.allocate
  have hcases := accepted o setup x
  cases ha : x.accept o setup with
  | mk y answer =>
      rw [ha] at hcases
      cases hcases with
      | refused e => exact h.keeps
      | unseeded s fault hidle =>
          obtain ⟨hv, hboth⟩ := h.law.idle hidle
          have hquiet := Quiet.identify x.slot.id x.ledger setup.cid
          refine ⟨rfl, ⟨.detach s, ?_, ?_⟩, hquiet.aside⟩
          · refine h.booked.of_wiring ?_
            cases setup.cid <;> rfl
          · exact .of_idle hidle ⟨hv.call, ⟨rfl, rfl, rfl⟩, hv.unarmed, hv.untimed⟩
              fun hb => hboth ⟨hquiet.lists.mp hb.1, hquiet.reserves.mp hb.2⟩
      | begun s t hidle hattach hseed =>
          have hready := (accept_ok h.sound h.booked ha).2.1
          have hid : (x.entered o setup t).slot.id = x.slot.id := by simp
          obtain ⟨haside, hl, hr⟩ := books_entered o setup t hn
          rw [← hid] at hl hr
          exact ((hready.runFor_engaged (by simp)).keeps (.runFor o _ _) hl hr).after hid haside

/-- A free slot that is given back is listed and no longer reserved. -/
theorem Lawful.giveBack (h : x.Lawful) (hs : x.slot.state = .idle) :
    Keeps x { x with ledger := { x.ledger with
      idle := (x.ledger.idle.insert x.slot.id).1
      reservations := x.ledger.reservations.release x.slot.id } } :=
  ⟨rfl, ⟨h.sound, h.booked, .of_idle hs (h.law.idle hs).1
      fun hboth => (Reservations.contains_release.mp hboth.2).2 rfl⟩,
    (Aside.insert _ _).trans (.release _ _)⟩

end Station

end Switchboard
