import Switchboard.Proofs.Slot.Turn

/-!
# Switchboard.Proofs.Slot.Wiring

What a slot's device has been told, against what the slot notes about it.

1. `lastArm` reads from the orders to a device what it was armed with last.
2. A station is `Booked` if the slot's own note agrees with that.  No operation
   of a station breaks the agreement: most do not touch what it speaks of
   (`wiring`), and those that give orders note them.
-/

namespace Switchboard

/-- The orders that a slot gave to its device, the earliest first. -/
def Ledger.ordersOf (l : Ledger) (id : SlotId) : List Order :=
  l.orders.filterMap fun entry => if entry.1 = id then some entry.2 else none

/-- What a device was armed with last, and nothing if it never was. -/
def lastArm (orders : List Order) : Mask :=
  orders.foldl (fun mask order => match order with
    | .arm other => other
    | _ => mask) 0

@[simp] theorem lastArm_append_arm (orders : List Order) (mask : Mask) :
    lastArm (orders ++ [.arm mask]) = mask := by
  simp [lastArm, List.foldl_append]

/-- Orders that arm nothing change nothing. -/
theorem lastArm_append {order : Order} (orders : List Order) (h : ∀ mask, order ≠ .arm mask) :
    lastArm (orders ++ [order]) = lastArm orders := by
  cases order with
  | arm mask => exact absurd rfl (h mask)
  | disconnect => simp [lastArm, List.foldl_append]
  | hangup => simp [lastArm, List.foldl_append]
  | execute command args => simp [lastArm, List.foldl_append]

@[simp] theorem ordersOf_order (l : Ledger) (id : SlotId) (order : Order) :
    (l.order id order).ordersOf id = l.ordersOf id ++ [order] := by
  simp [Ledger.ordersOf, Ledger.order]

namespace Station

variable {σ : Type}

/-! ## what concerns a device -/

/-- The number of a slot, its note about its device, and the orders given. -/
def wiring (x : Station σ) : SlotId × Mask × List (SlotId × Order) :=
  (x.slot.id, x.slot.armedMask, x.ledger.orders)

/-- The device was armed last with what the slot has noted. -/
def Booked (x : Station σ) : Prop :=
  lastArm (x.ledger.ordersOf x.slot.id) = x.slot.armedMask

/-- Where nothing about the device has changed, the note is as good as before. -/
theorem Booked.of_wiring {x y : Station σ} (h : x.Booked) (hw : y.wiring = x.wiring) :
    y.Booked := by
  have hid : y.slot.id = x.slot.id := congrArg Prod.fst hw
  have hmask : y.slot.armedMask = x.slot.armedMask := congrArg (·.2.1) hw
  have horders : y.ledger.orders = x.ledger.orders := congrArg (·.2.2) hw
  unfold Booked Ledger.ordersOf at h ⊢
  rw [hid, hmask, horders, h]

@[simp] theorem wiring_arm (o : Office σ) (delay : Nanoseconds) (x : Station σ) :
    (x.arm o delay).wiring = x.wiring := by
  rw [wiring, orders_arm]
  rfl

@[simp] theorem wiring_disarm (x : Station σ) : x.disarm.wiring = x.wiring := rfl

@[simp] theorem wiring_await (o : Office σ) (wake : Option Nanoseconds) (x : Station σ) :
    (x.await o wake).wiring = x.wiring := by
  cases wake with
  | none => rfl
  | some delay => exact wiring_arm o delay x

@[simp] theorem wiring_setState (state : SlotState) (x : Station σ) :
    (x.setState state).wiring = x.wiring := rfl

@[simp] theorem wiring_setReason (reason : String) (x : Station σ) :
    (x.setReason reason).wiring = x.wiring := rfl

@[simp] theorem wiring_beginRelease (o : Office σ) (reason : String) (x : Station σ) :
    (x.beginRelease o reason).wiring = x.wiring := by
  simp [beginRelease]

@[simp] theorem wiring_detach (x : Station σ) : x.detach.wiring = x.wiring := rfl

@[simp] theorem wiring_dropCall (x : Station σ) : x.dropCall.wiring = x.wiring := by
  unfold dropCall
  split <;> rfl

@[simp] theorem wiring_listIdle (x : Station σ) : x.listIdle.wiring = x.wiring := by
  unfold listIdle
  dsimp only
  split <;> rfl

@[simp] theorem slot_record (o : Office σ) (kind : RecordKind) (x : Station σ) :
    (x.record o kind).slot = x.slot := by
  unfold record
  split <;> rfl

@[simp] theorem wiring_record (o : Office σ) (kind : RecordKind) (x : Station σ) :
    (x.record o kind).wiring = x.wiring := by
  unfold record
  split
  · rfl
  · dsimp only [wiring, Ledger.submit, Ledger.call]
    split
    · split <;> rfl
    · rfl

/-! ## orders keep the agreement -/

/-- The device is armed with what is then noted. -/
theorem Booked.armDevice (o : Office σ) (mask : Mask) (x : Station σ) :
    (x.armDevice o mask).Booked := by
  simp [Booked, Station.armDevice]

/-- A device that is hung up is armed as before. -/
theorem Booked.hangUp {x : Station σ} (h : x.Booked) (o : Office σ) : (x.hangUp o).Booked := by
  simpa [Booked, Station.hangUp, lastArm_append] using h

/-- So is one that is disconnected. -/
theorem Booked.disconnect {x : Station σ} (h : x.Booked) (o : Office σ) :
    (x.disconnect o).Booked := by
  simpa [Booked, Station.disconnect, lastArm_append] using h

/-- What the step at this station passes on to the device. -/
def passedOn? (o : Office σ) (x : Station σ) : Option Order :=
  match x.slot.interpreter.asked? with
  | some (command, args) =>
    (Errand.execute o.adapter command args (.start x.slot.device)).2.passedOn
  | none => none

/-- A step gives no order but the command it passes on. -/
theorem orders_of_step (o : Office σ) (x : Station σ) :
    (x.step o).1.ledger.orders =
      x.ledger.orders ++ ((x.passedOn? o).map (x.slot.id, ·)).toList := by
  have hw : (x.slot.interpreter.step (Errand.host o.adapter) (.start x.slot.device)).world.passedOn
      = x.passedOn? o := by
    rw [Interpreter.world_step, passedOn?]
    cases x.slot.interpreter.asked? <;> rfl
  unfold step
  simp only [hw]
  cases x.passedOn? o with
  | none => exact (List.append_nil _).symm
  | some order => rfl

/-- What a slot passes on to its device is a command. -/
theorem passedOn?_eq_execute {o : Office σ} {x : Station σ} {order : Order}
    (h : x.passedOn? o = some order) : ∃ command args, order = .execute command args := by
  unfold passedOn? at h
  split at h
  · next command args _ =>
      unfold Errand.execute at h
      split at h
      · unfold Errand.sleep at h
        dsimp only at h
        split at h <;> simp [Errand.start] at h
      · simp [Errand.start] at h
      · simp [Errand.start] at h
      · exact ⟨command, args, (Option.some.inj h).symm⟩
  · contradiction

/-- A step arms with what it then notes. -/
theorem Booked.step {x : Station σ} (h : x.Booked) (o : Office σ) : (x.step o).1.Booked := by
  cases hp : x.passedOn? o with
  | none =>
      refine h.of_wiring ?_
      simp [wiring, orders_of_step, hp, slot_step]
  | some order =>
      obtain ⟨command, args, rfl⟩ := passedOn?_eq_execute hp
      have hl : (x.step o).1.ledger.ordersOf x.slot.id =
          x.ledger.ordersOf x.slot.id ++ [.execute command args] := by
        simp [Ledger.ordersOf, orders_of_step, hp]
      unfold Booked at h ⊢
      rw [show (x.step o).1.slot.id = x.slot.id from rfl, hl,
        lastArm_append _ (fun _ => by simp), h]
      rfl

/-! ## the end of a call -/

@[simp] theorem slot_dropCall (x : Station σ) :
    x.dropCall.slot = { x.slot with call := none } := by
  unfold dropCall
  split
  · next hc => rw [← hc]
  · rfl

@[simp] theorem slot_listIdle (x : Station σ) : x.listIdle.slot = x.slot := rfl

/-- What the end of a call leaves of a slot. -/
theorem slot_finish (o : Office σ) (next : SlotState) (x : Station σ) :
    (x.finish o next).slot = { x.slot with
      state := next
      interpreter := x.slot.interpreter.detach
      call := none
      armedMask := 0
      timer := .unset
      device := if x.slot.armedMask != 0 then o.adapter.arm 0 x.slot.device
        else x.slot.device } := by
  have hdrop : (((x.disarm.record o .stop).dropCall).detach).slot =
      { x.slot with
        timer := .unset
        call := none
        interpreter := x.slot.interpreter.detach } := by
    simp [detach, disarm]
  have hlist : ∀ y : Station σ, (if next = .idle then y.listIdle else y).slot = y.slot := by
    intro y
    split <;> simp
  unfold Station.finish
  dsimp only
  rw [hlist]
  split
  · next hm => simp_all [armDevice, setState]
  · next hm => simp_all [setState]

/-- Letting go of a call ends in the state asked for. -/
theorem state_finish (o : Office σ) (next : SlotState) (x : Station σ) :
    (x.finish o next).slot.state = next := by
  rw [slot_finish]

/-- Letting go of a call lets go of its script. -/
theorem interpreter_finish (o : Office σ) (next : SlotState) (x : Station σ) :
    (x.finish o next).slot.interpreter = x.slot.interpreter.detach := by
  rw [slot_finish]

/-- Letting go of a call leaves the device armed with nothing. -/
theorem Booked.finish {x : Station σ} (h : x.Booked) (o : Office σ) (next : SlotState) :
    (x.finish o next).Booked ∧ (x.finish o next).slot.armedMask = 0 := by
  unfold Station.finish
  dsimp only
  have hw : (((x.disarm.record o .stop).dropCall).detach).wiring = x.wiring := by simp
  generalize (((x.disarm.record o .stop).dropCall).detach) = y at hw
  have hy : (if y.slot.armedMask != 0 then y.armDevice o 0 else y).Booked ∧
      (if y.slot.armedMask != 0 then y.armDevice o 0 else y).slot.armedMask = 0 := by
    split
    · exact ⟨.armDevice o 0 y, rfl⟩
    · next hm => exact ⟨h.of_wiring hw, by simpa using hm⟩
  generalize (if y.slot.armedMask != 0 then y.armDevice o 0 else y) = z at hy
  split
  · have hl := wiring_listIdle (z.setState next)
    exact ⟨hy.1.of_wiring (by simp), (congrArg (·.2.1) hl).trans hy.2⟩
  · exact ⟨hy.1.of_wiring (by simp), hy.2⟩

end Station

end Switchboard
