import Mathlib.Data.List.Chain
import Switchboard.Proofs.Slot.Work

/-!
# Switchboard.Proofs.Slot.Protocol

What a slot says to its device in the course of a call.

1. As long as the script runs, the device is armed and executes commands; then it
   hangs up or disconnects; and when the slot is free again or out of service, it may
   have been armed with nothing, and no more (`Protocol`).
2. The orders are all that a device is told, and each that arms it arms it with
   something else (`Slot.Wired`).
3. Work goes on with what was said before (`Work.Wires`, `Work.Speaks`), a turn by
   induction on its steps, and so does every event (`Slot.Spoken.post`).
-/

namespace Switchboard

/-! ## orders -/

namespace Order

/-- What an order arms a device with. -/
def mask? : Order → Option Mask
  | .arm mask => some mask
  | .disconnect | .hangup | .execute _ _ => none

/-- Whether an order is one of those that a script leads to as long as it runs. -/
def isTask : Order → Bool
  | .arm _ | .execute _ _ => true
  | .disconnect | .hangup => false

end Order

/-- What a device makes of an order. -/
def Adapter.obey {σ : Type} (a : Adapter σ) (w : σ) : Order → σ
  | .arm mask => a.arm mask w
  | .disconnect => a.disconnect w
  | .hangup => a.hangup w
  | .execute command args => (a.execute command args w).2

/-- What orders arm a device with, one after the other. -/
def masks (os : List Order) : List Mask := os.filterMap Order.mask?

/-- One more mask comes last. -/
theorem masks_append_arm (os : List Order) (mask : Mask) :
    masks (os ++ [.arm mask]) = masks os ++ [mask] := List.filterMap_append ..

/-- Other orders add no mask. -/
theorem masks_append {order : Order} (os : List Order) (h : ∀ mask, order ≠ .arm mask) :
    masks (os ++ [order]) = masks os := by
  refine (List.filterMap_append ..).trans ?_
  cases order with
  | arm mask => exact absurd rfl (h mask)
  | disconnect | hangup | execute => exact List.append_nil _

/-- What is armed last, beginning with nothing. -/
theorem getLast?_masks (os : List Order) : (0 :: masks os).getLast? = some (lastArm os) := by
  induction os using List.reverseRecOn with
  | nil => rfl
  | append_singleton os order ih =>
      cases order with
      | arm mask =>
          rw [masks_append_arm, lastArm_append_arm, ← List.cons_append, List.getLast?_concat]
      | disconnect | hangup | execute =>
          rw [masks_append os (by simp), lastArm_append os (by simp), ih]

/-- What follows the tasks of a call, by the state of its slot: nothing as long as the
script runs, then one farewell, and in the end perhaps an order to be armed with
nothing. -/
inductive Parting : SlotState → List Order → Prop
  | running : Parting .scripting []
  | said {order : Order} : order = .hangup ∨ order = .disconnect → Parting .releasing [order]
  | closed {state : SlotState} {order : Order} : order = .hangup ∨ order = .disconnect →
      state = .idle ∨ state = .offline → Parting state [order]
  | unarmed {state : SlotState} {order : Order} : order = .hangup ∨ order = .disconnect →
      state = .idle ∨ state = .offline → Parting state [order, .arm 0]

/-- The orders of a call, by the state of its slot. -/
def Protocol (state : SlotState) (os : List Order) : Prop :=
  ∃ tasks rest, os = tasks ++ rest ∧ (∀ order ∈ tasks, order.isTask = true) ∧ Parting state rest

namespace Protocol

variable {state next : SlotState} {os ps : List Order} {order : Order}

/-- A call begins with nothing said. -/
theorem nil : Protocol .scripting [] := ⟨[], [], rfl, fun _ h => (nomatch h), .running⟩

/-- As long as the script runs, there are only tasks. -/
theorem scripting_iff : Protocol .scripting os ↔ ∀ order ∈ os, order.isTask = true := by
  refine ⟨fun ⟨tasks, rest, hos, htasks, hrest⟩ => ?_, fun h => ⟨os, [], by simp, h, .running⟩⟩
  cases hrest with
  | running => simpa [hos] using htasks
  | closed _ hstate | unarmed _ hstate => exact nomatch hstate

/-- Tasks are added while the script runs. -/
theorem tasks (h : Protocol .scripting os) (hp : ∀ order ∈ ps, order.isTask = true) :
    Protocol .scripting (os ++ ps) := by
  rw [scripting_iff] at h ⊢
  intro order horder
  rcases List.mem_append.mp horder with ho | ho
  · exact h order ho
  · exact hp order ho

/-- Then there is a farewell. -/
theorem said (h : Protocol .scripting os) (ho : order = .hangup ∨ order = .disconnect) :
    Protocol .releasing (os ++ [order]) :=
  ⟨os, [order], rfl, scripting_iff.mp h, .said ho⟩

/-- In the end the device may be armed with nothing. -/
theorem finished (h : Protocol .releasing os) (hnext : next = .idle ∨ next = .offline)
    (hp : ps = [] ∨ ps = [.arm 0]) : Protocol next (os ++ ps) := by
  obtain ⟨tasks, rest, rfl, htasks, hrest⟩ := h
  refine ⟨tasks, rest ++ ps, List.append_assoc .., htasks, ?_⟩
  cases hrest with
  | said ho =>
      rcases hp with rfl | rfl
      · exact .closed ho hnext
      · exact .unarmed ho hnext
  | closed _ hstate | unarmed _ hstate => exact nomatch hstate

/-- What is over stays so, in service or out of it. -/
theorem stays (h : Protocol state os) (hstate : state = .idle ∨ state = .offline)
    (hnext : next = .idle ∨ next = .offline) : Protocol next os := by
  obtain ⟨tasks, rest, hos, htasks, hrest⟩ := h
  refine ⟨tasks, rest, hos, htasks, ?_⟩
  cases hrest with
  | running | said _ => exact absurd hstate (by simp)
  | closed ho _ => exact .closed ho hnext
  | unarmed ho _ => exact .unarmed ho hnext

end Protocol

/-! ## orders among the entries -/

/-- The order that an entry is about. -/
def Entry.order? : Entry → Option Order
  | .orders order => some order
  | _ => none

/-- An entry is made among the orders of its slot. -/
theorem Ledger.ordersOf_enter (l : Ledger) (id other : SlotId) (e : Entry) :
    (l.enter id e).ordersOf other =
      l.ordersOf other ++ if other = id then e.order?.toList else [] := by
  have hsame : ∀ {m : Ledger}, m.orders = l.orders → e.order? = none → m.ordersOf other =
      l.ordersOf other ++ if other = id then e.order?.toList else [] := by
    intro m hm he
    simp [ordersOf, hm, he]
  cases e with
  | orders order =>
      by_cases hid : other = id
      · subst hid
        simp [enter, Entry.order?]
      · simp [enter, Ledger.order, ordersOf, hid, Ne.symm hid]
  | calls w =>
      refine hsame ?_ rfl
      unfold enter call
      dsimp only
      split <;> rfl
  | records kind c now =>
      refine hsame ?_ rfl
      unfold enter submit call
      dsimp only
      split
      · split <;> rfl
      · rfl
  | relists =>
      refine hsame ?_ rfl
      unfold enter
      dsimp only
      split <;> rfl
  | identifies wanted => cases wanted <;> exact hsame rfl rfl
  | notes | strikes | lists | unlists | books | breaks => exact hsame rfl rfl

namespace Work

variable {σ : Type} {o : Office σ} {s : Slot σ} {w : Work σ} {f : Slot σ → Work σ}

/-- The orders that work gives. -/
def orders (w : Work σ) : List Order := w.entries.filterMap Entry.order?

/-- The orders of two pieces of work follow each other. -/
theorem orders_and (w : Work σ) (f : Slot σ → Work σ) :
    (w.and f).orders = w.orders ++ (f w.slot).orders := List.filterMap_append ..

/-- What work leaves of the orders to any device. -/
theorem ordersOf_on (w : Work σ) (l : Ledger) (other : SlotId) :
    (w.on l).ledger.ordersOf other =
      l.ordersOf other ++ if other = w.slot.id then w.orders else [] := by
  unfold on orders Ledger.enterAll
  dsimp only
  induction w.entries generalizing l with
  | nil => simp
  | cons e rest ih =>
      rw [List.foldl_cons, ih, Ledger.ordersOf_enter, List.append_assoc]
      by_cases hid : other = w.slot.id
      · cases he : e.order? <;> simp [hid, he]
      · simp [hid]

end Work

/-! ## what a device was told -/

namespace Slot

variable {σ : Type} {a : Adapter σ} {d : σ} {s t : Slot σ} {os : List Order} {order : Order}

/-- A device that was in the state `d`, and armed with nothing, was told these orders
since then, and nothing else. -/
structure Wired (a : Adapter σ) (d : σ) (s : Slot σ) (os : List Order) : Prop where
  obeyed : s.device = os.foldl a.obey d
  armed : s.armedMask = lastArm os
  /-- Each order that arms it arms it with something else. -/
  changing : (0 :: masks os).IsChain (· ≠ ·)

namespace Wired

/-- A slot without a mask is wired by no orders. -/
theorem nil (h : s.armedMask = 0) : s.Wired a s.device [] :=
  ⟨rfl, h, List.IsChain.singleton 0⟩

/-- Nothing is said to the device. -/
theorem quiet (h : s.Wired a d os) (hd : t.device = s.device) (hm : t.armedMask = s.armedMask) :
    t.Wired a d os :=
  ⟨hd.trans h.obeyed, hm.trans h.armed, h.changing⟩

/-- The device is armed with something else. -/
theorem arm (h : s.Wired a d os) {mask : Mask} (hne : mask ≠ s.armedMask)
    (hd : t.device = a.arm mask s.device) (hm : t.armedMask = mask) :
    t.Wired a d (os ++ [.arm mask]) := by
  refine ⟨?_, hm.trans (lastArm_append_arm os mask).symm, ?_⟩
  · rw [List.foldl_append, hd, h.obeyed]
    rfl
  · rw [masks_append_arm, ← List.cons_append, List.isChain_append]
    refine ⟨h.changing, List.IsChain.singleton mask, fun last hlast first hfirst => ?_⟩
    rw [getLast?_masks] at hlast
    obtain rfl := Option.mem_some_iff.mp hlast
    obtain rfl : mask = first := by simpa using hfirst
    exact fun heq => hne (heq.symm.trans h.armed.symm)

/-- The device is told something else. -/
theorem tell (h : s.Wired a d os) (horder : ∀ mask, order ≠ .arm mask)
    (hd : t.device = a.obey s.device order) (hm : t.armedMask = s.armedMask) :
    t.Wired a d (os ++ [order]) := by
  refine ⟨?_, ?_, ?_⟩
  · rw [List.foldl_append, hd, h.obeyed]
    rfl
  · rw [hm, h.armed, lastArm_append os horder]
  · rw [masks_append os horder]
    exact h.changing

end Wired

/-- What a slot has said to its device since its call began: it has kept to the
protocol, and leaves the device armed with nothing. -/
structure Spoken (a : Adapter σ) (d : σ) (s : Slot σ) (os : List Order) : Prop where
  wired : s.Wired a d os
  protocol : Protocol s.state os
  unarmed : s.state = .idle ∨ s.state = .offline → lastArm os = 0

/-- Nothing else matters. -/
theorem Spoken.quiet (h : s.Spoken a d os) (hd : t.device = s.device)
    (hm : t.armedMask = s.armedMask) (hstate : t.state = s.state) : t.Spoken a d os :=
  ⟨h.wired.quiet hd hm, hstate ▸ h.protocol, fun ht => h.unarmed (hstate ▸ ht)⟩

end Slot

/-! ## what work tells a device -/

namespace Work

variable {σ : Type} {o : Office σ} {s : Slot σ} {w : Work σ} {f : Slot σ → Work σ}
  {d : σ} {os : List Order}

/-- Work goes on with what a device was told. -/
def Wires (o : Office σ) (s : Slot σ) (w : Work σ) : Prop :=
  ∀ (d : σ) (os : List Order), s.Wired o.adapter d os → w.slot.Wired o.adapter d (os ++ w.orders)

/-- Work that wires may be followed by work that wires. -/
theorem Wires.and (h : Wires o s w) (h' : Wires o w.slot (f w.slot)) : Wires o s (w.and f) := by
  intro d os hs
  have hboth := h' d _ (h d os hs)
  rwa [List.append_assoc, ← orders_and] at hboth

/-- Work that gives no orders leaves the device alone. -/
theorem Wires.quiet (horders : w.orders = []) (hd : w.slot.device = s.device)
    (hm : w.slot.armedMask = s.armedMask) : Wires o s w := by
  intro d os hs
  rw [horders, List.append_nil]
  exact hs.quiet hd hm

/-- A device is armed with another mask than before. -/
theorem Wires.armDevice {mask : Mask} (h : mask ≠ s.armedMask) :
    Wires o s (armDevice o mask s) :=
  fun _ _ hs => hs.arm h rfl rfl

/-- A device may be hung up at any time. -/
theorem Wires.hangUp (o : Office σ) (s : Slot σ) : Wires o s (hangUp o s) :=
  fun _ _ hs => hs.tell (by simp) rfl rfl

/-- It may be disconnected at any time. -/
theorem Wires.disconnect (o : Office σ) (s : Slot σ) : Wires o s (disconnect o s) :=
  fun _ _ hs => hs.tell (by simp) rfl rfl

/-- A step passes on one command, or leaves the device alone. -/
theorem stepped_device (o : Office σ) (s : Slot σ) :
    ((stepped o s).world.passedOn = none ∧ (stepped o s).world.device = s.device) ∨
      ∃ command args, (stepped o s).world.passedOn = some (.execute command args) ∧
        (stepped o s).world.device = o.adapter.obey s.device (.execute command args) := by
  unfold stepped
  rw [Interpreter.world_step]
  split
  · next command args _ =>
      dsimp only [Errand.host]
      unfold Errand.execute
      split
      · unfold Errand.sleep
        dsimp only
        split <;> exact .inl ⟨rfl, rfl⟩
      · exact .inl ⟨rfl, rfl⟩
      · exact .inl ⟨rfl, rfl⟩
      · exact .inr ⟨command, args, rfl, rfl⟩
  · exact .inl ⟨rfl, rfl⟩

/-! ### turns -/

/-- Work that gives tasks, while the state of the slot stays as it is. -/
structure Toils (o : Office σ) (s : Slot σ) (w : Work σ) : Prop where
  wires : Wires o s w
  state : w.slot.state = s.state
  tasks : ∀ order ∈ w.orders, order.isTask = true

/-- Work that gives tasks, and perhaps a farewell at the end of the call. -/
structure Speaks (o : Office σ) (s : Slot σ) (w : Work σ) : Prop where
  wires : Wires o s w
  phase : (w.slot.state = s.state ∧ ∀ order ∈ w.orders, order.isTask = true) ∨
    (w.slot.state = .releasing ∧ ∃ tasks order, w.orders = tasks ++ [order] ∧
      (∀ order ∈ tasks, order.isTask = true) ∧ (order = .hangup ∨ order = .disconnect))

/-- Work within a call speaks. -/
theorem Toils.speaks (h : Toils o s w) : Speaks o s w := ⟨h.wires, .inl ⟨h.state, h.tasks⟩⟩

/-- Work within a call may come before work that speaks. -/
theorem Toils.and (h : Toils o s w) (h' : Speaks o w.slot (f w.slot)) : Speaks o s (w.and f) := by
  refine ⟨h.wires.and h'.wires, ?_⟩
  rw [orders_and]
  rcases h'.phase with ⟨hstate, htasks⟩ | ⟨hstate, tasks, order, horders, htasks, horder⟩
  · refine .inl ⟨hstate.trans h.state, fun order ho => ?_⟩
    rcases List.mem_append.mp ho with ho | ho
    · exact h.tasks order ho
    · exact htasks order ho
  · refine .inr ⟨hstate, w.orders ++ tasks, order, ?_, fun task ht => ?_, horder⟩
    · rw [horders, List.append_assoc]
    · rcases List.mem_append.mp ht with ht | ht
      · exact h.tasks task ht
      · exact htasks task ht

/-- Work that gives no orders. -/
theorem Toils.quiet (horders : w.orders = []) (hd : w.slot.device = s.device)
    (hm : w.slot.armedMask = s.armedMask) (hstate : w.slot.state = s.state) : Toils o s w :=
  ⟨.quiet horders hd hm, hstate, by simp [horders]⟩

/-- A step is work within a call. -/
theorem Toils.step (o : Office σ) (s : Slot σ) : Toils o s (step o s) := by
  have horders : (Work.step o s).orders = (stepped o s).world.passedOn.toList := by
    unfold orders Work.step
    cases (stepped o s).world.passedOn <;> rfl
  rcases stepped_device o s with ⟨hnone, hdevice⟩ | ⟨command, args, hsome, hdevice⟩
  · exact .quiet (by rw [horders, hnone]; rfl) hdevice rfl rfl
  · rw [hsome] at horders
    refine ⟨fun d os hs => ?_, rfl, fun order ho => ?_⟩
    · rw [horders]
      exact hs.tell (by simp) hdevice rfl
    · rw [horders] at ho
      obtain rfl := List.mem_singleton.mp ho
      rfl

/-- So is a timer that is set. -/
theorem Toils.arm (o : Office σ) (delay : Nanoseconds) (s : Slot σ) : Toils o s (arm o delay s) :=
  .quiet rfl rfl rfl rfl

/-- So is a wait. -/
theorem Toils.await (o : Office σ) (wake : Option Nanoseconds) (s : Slot σ) :
    Toils o s (await o wake s) := by
  cases wake with
  | none => exact .quiet rfl rfl rfl rfl
  | some delay => exact .arm o delay s

/-- So is a device that is armed with another mask. -/
theorem Toils.rearm {mask : Mask} (h : mask ≠ s.armedMask) : Toils o s (armDevice o mask s) :=
  ⟨.armDevice h, rfl, fun _ ho => by rw [List.mem_singleton.mp ho]; rfl⟩

/-- A farewell, and the call is over. -/
theorem Speaks.farewell {g : Slot σ → Work σ} {order : Order} (h : Wires o s (g s))
    (horders : (g s).orders = [order]) (horder : order = .hangup ∨ order = .disconnect)
    (reason : String) : Speaks o s ((g s).and (beginRelease o reason)) := by
  refine ⟨h.and (.quiet rfl rfl rfl), .inr ⟨rfl, [], order, ?_, fun _ h => (nomatch h), horder⟩⟩
  rw [orders_and, horders]
  rfl

/-- A turn gives tasks, and a farewell if the script ends with it. -/
theorem Speaks.runFor (o : Office σ) (n : Nat) (s : Slot σ) : Speaks o s (runFor o n s) := by
  induction n generalizing s with
  | zero => exact (Toils.arm o _ s).speaks
  | succ n ih =>
      refine (Toils.step o s).and ?_
      unfold afterStep
      split
      · exact Toils.speaks (.quiet rfl rfl rfl rfl)
      · split
        · exact .farewell (.hangUp o _) rfl (.inl rfl) _
        · split
          · next hmask => exact (Toils.rearm (by simpa using hmask)).and (ih _)
          · split
            · exact ih _
            · exact (Toils.await o _ _).speaks

/-- A turn keeps to the protocol. -/
theorem Speaks.spoken (h : Speaks o s w) (hs : s.Spoken o.adapter d os)
    (hstate : s.state = .scripting) : w.slot.Spoken o.adapter d (os ++ w.orders) := by
  obtain ⟨hwired, hprotocol, -⟩ := hs
  rw [hstate] at hprotocol
  rcases h.phase with ⟨hsame, htasks⟩ | ⟨hover, tasks, order, horders, htasks, horder⟩
  · have hscripting := hsame.trans hstate
    refine ⟨h.wires d os hwired, hscripting ▸ hprotocol.tasks htasks, fun ht => ?_⟩
    exact nomatch hscripting ▸ ht
  · refine ⟨h.wires d os hwired, ?_, fun ht => nomatch hover ▸ ht⟩
    rw [hover, horders, ← List.append_assoc]
    exact (hprotocol.tasks htasks).said horder

/-! ### the end of a call -/

/-- In the end the device is armed with nothing. -/
theorem wires_finish (o : Office σ) (next : SlotState) (s : Slot σ) :
    Wires o s (finish o next s) ∧
      ((finish o next s).orders = [] ∨ (finish o next s).orders = [.arm 0]) := by
  have horders : (finish o next s).orders =
      if s.armedMask = 0 then [] else [.arm 0] := by
    unfold Work.orders
    rw [entries_finish]
    cases s.call <;> by_cases s.armedMask = 0 <;> by_cases next = .idle <;>
      simp [Entry.order?, List.filterMap_cons, *]
  have hslot := slot_finish o next s
  by_cases hmask : s.armedMask = 0
  · rw [if_pos hmask] at horders
    rw [if_pos hmask] at hslot
    exact ⟨.quiet horders (by rw [hslot]) (by rw [hslot, hmask]), .inl horders⟩
  · rw [if_neg hmask] at horders
    rw [if_neg hmask] at hslot
    refine ⟨fun d os hs => ?_, .inr horders⟩
    rw [horders]
    exact hs.arm (Ne.symm hmask) (by rw [hslot]) (by rw [hslot])

/-- When its call is over a slot may be free or out of service. -/
theorem spoken_finish (hs : s.Spoken o.adapter d os) (hstate : s.state = .releasing)
    {next : SlotState} (hnext : next = .idle ∨ next = .offline) :
    (finish o next s).slot.Spoken o.adapter d (os ++ (finish o next s).orders) := by
  obtain ⟨hwires, horders⟩ := wires_finish o next s
  obtain ⟨hwired, hprotocol, -⟩ := hs
  rw [hstate] at hprotocol
  have hdone := hwires d os hwired
  have hslot := slot_finish o next s
  refine ⟨hdone, ?_, fun _ => hdone.armed.symm.trans (by rw [hslot])⟩
  rw [show (finish o next s).slot.state = next by rw [hslot]]
  exact hprotocol.finished hnext horders

/-- A slot may be taken out of service while its script runs. -/
theorem spoken_takeDown (hs : s.Spoken o.adapter d os) (hstate : s.state = .scripting)
    (reason : String) :
    let w := ((hangUp o s).and (setReason reason)).and (finish o .offline)
    w.slot.Spoken o.adapter d (os ++ w.orders) := by
  intro w
  obtain ⟨hwires, horders⟩ := wires_finish o .offline ((hangUp o s).and (setReason reason)).slot
  obtain ⟨hwired, hprotocol, -⟩ := hs
  rw [hstate] at hprotocol
  have hdone : w.slot.Wired o.adapter d (os ++ w.orders) :=
    (((Wires.hangUp o s).and (.quiet rfl rfl rfl)).and hwires) d os hwired
  have hslot : w.slot = (finish o .offline ((hangUp o s).and (setReason reason)).slot).slot := rfl
  rw [slot_finish] at hslot
  refine ⟨hdone, ?_, fun _ => hdone.armed.symm.trans (by rw [hslot])⟩
  have hall : w.orders = [.hangup] ++
      (finish o .offline ((hangUp o s).and (setReason reason)).slot).orders := orders_and ..
  rw [show w.slot.state = .offline by rw [hslot], hall, ← List.append_assoc]
  exact (hprotocol.said (.inl rfl)).finished (.inr rfl) horders

end Work

/-! ## events -/

namespace Slot.Spoken

open Work

variable {σ : Type} {o : Office σ} {s : Slot σ} {d : σ} {os : List Order}

/-- Nothing is said. -/
theorem rest (h : s.Spoken o.adapter d os) :
    (Work.rest s).slot.Spoken o.adapter d (os ++ (Work.rest s).orders) := by
  rw [show (Work.rest s).orders = [] from rfl, List.append_nil]
  exact h

/-- A slot without a call changes its state, and says nothing. -/
theorem moved (h : s.Spoken o.adapter d os) (hstate : s.state = .idle ∨ s.state = .offline)
    {w : Work σ} (horders : w.orders = []) (hd : w.slot.device = s.device)
    (hm : w.slot.armedMask = s.armedMask)
    (hnext : w.slot.state = .idle ∨ w.slot.state = .offline) :
    w.slot.Spoken o.adapter d (os ++ w.orders) := by
  rw [horders, List.append_nil]
  exact ⟨h.wired.quiet hd hm, h.protocol.stays hstate hnext, fun _ => h.unarmed hstate⟩

/-- A slot that runs a script speaks as it should after an event. -/
theorem postScripting (h : s.Spoken o.adapter d os) (hs : s.state = .scripting) (e : Event) :
    (postScripting o e s).1.slot.Spoken o.adapter d (os ++ (postScripting o e s).1.orders) := by
  cases e with
  | timeout => exact (Speaks.runFor o _ s).spoken h hs
  | signal name =>
      unfold Work.postScripting
      dsimp only
      split
      · exact (Speaks.runFor o _ _).spoken
          (h.quiet (t := { s with interpreter := (s.interpreter.trigger name).1 }) rfl rfl rfl) hs
      · exact h.rest
  | drop | hangup => exact (Speaks.farewell (.disconnect o s) rfl (.inr rfl) _).spoken h hs
  | disable | shutdown => exact spoken_takeDown h hs _
  | enable | release => exact h.rest

/-- Every event goes on with what was said. -/
theorem post (h : s.Spoken o.adapter d os) (e : Event) :
    (post o e s).1.slot.Spoken o.adapter d (os ++ (post o e s).1.orders) := by
  unfold Work.post
  cases hs : s.state with
  | offline =>
      cases e with
      | enable => exact h.moved (.inr hs) rfl rfl rfl (.inl rfl)
      | shutdown | disable | timeout | drop | hangup | release | signal => exact h.rest
  | idle =>
      cases e with
      | disable | shutdown => exact h.moved (.inl hs) rfl rfl rfl (.inr rfl)
      | enable | timeout | drop | hangup | release | signal => exact h.rest
  | scripting => exact h.postScripting hs e
  | releasing =>
      cases e with
      | release | timeout => exact spoken_finish h hs (.inl rfl)
      | disable | shutdown => exact spoken_finish h hs (.inr rfl)
      | drop | hangup | enable | signal => exact h.rest

/-- So does a timer. -/
theorem expire (h : s.Spoken o.adapter d os) (now : Nat) :
    (expire o now s).1.slot.Spoken o.adapter d (os ++ (expire o now s).1.orders) := by
  unfold Work.expire
  split
  · exact (h.quiet (t := { s with timer := .unset }) rfl rfl rfl).post .timeout
  · exact h.rest

/-- A call that begins has said what its first turn said, if its slot's device was
armed with nothing. -/
theorem begun (o : Office σ) (setup : CallSetup) (n : Nat) (i : Interpreter)
    (h : s.armedMask = 0) :
    let w := (entered o setup n i s).and (run o)
    w.slot.Spoken o.adapter s.device w.orders := by
  intro w
  have hentered : (entered o setup n i s).slot.Spoken o.adapter s.device [] :=
    ⟨Slot.Wired.nil (s := (entered o setup n i s).slot) h, .nil,
      fun hstate => by simp [entered] at hstate⟩
  exact (Speaks.runFor o _ _).spoken hentered rfl

end Slot.Spoken

end Switchboard
