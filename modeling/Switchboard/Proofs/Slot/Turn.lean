import Switchboard.Proofs.Interpreter.Reachable
import Switchboard.Slot.Post

/-!
# Switchboard.Proofs.Slot.Turn

What happens in one turn of the script on a slot.

1. After a step a turn either goes on at some station (`resume?`) or ends
   (`settle`).  `visits` lists the stations at which the steps of a turn begin.
2. At every step but the first the device is armed with what the script needs:
   `armed_of_getElem?`.
3. A command that lets the script wait changes no needs.  So it ends the turn
   exactly if the device was armed when its step began: `resume?_of_suspends`
   and `resume?_of_suspends_unarmed`.
-/

namespace Switchboard.Station

variable {σ : Type}

/-! ## needs -/

/-- What the script on a slot needs. -/
def needs (x : Station σ) : Mask := x.slot.interpreter.mask

/-- The device is armed with what the script needs. -/
def Armed (x : Station σ) : Prop := x.slot.armedMask = x.needs

instance (x : Station σ) : Decidable x.Armed := inferInstanceAs (Decidable (_ = _))

/-! ## one step -/

/-- Where a turn goes on after a step, if it does. -/
def resume? (o : Office σ) (x : Station σ) : Option (Station σ) :=
  let (y, turn) := x.step o
  if turn.signal = .broke then none
  else if !y.slot.interpreter.isRunning then none
  else if y.needs != y.slot.armedMask then some (y.armDevice o y.needs)
  else if turn.signal = .proceed then some y
  else none

/-- What a step leaves that ends its turn. -/
def settle (o : Office σ) (x : Station σ) : Station σ :=
  let (y, turn) := x.step o
  if turn.signal = .broke then y.breakOff
  else if !y.slot.interpreter.isRunning then y.endCall o
  else y.await o turn.wake

/-- A turn of some steps is its first step and a turn of the others. -/
theorem runFor_succ (o : Office σ) (n : Nat) (x : Station σ) :
    runFor o (n + 1) x = (match x.resume? o with
      | some y => runFor o n y
      | none => x.settle o) := by
  unfold resume? settle
  rw [runFor]
  dsimp only [needs]
  by_cases hb : (x.step o).2.signal = .broke
  · simp [hb]
  · by_cases hr : (x.step o).1.slot.interpreter.isRunning = true
    · by_cases hm : (x.step o).1.slot.interpreter.mask = (x.step o).1.slot.armedMask
      · by_cases hp : (x.step o).2.signal = .proceed
        · simp [hr, hm, hp]
        · simp [hb, hr, hm, hp]
      · simp [hb, hr, hm]
    · simp [hb, hr]

/-- A step changes a slot in its interpreter and its device. -/
theorem slot_step (o : Office σ) (x : Station σ) :
    (x.step o).1.slot = { x.slot with
      interpreter :=
        (x.slot.interpreter.step (Errand.host o.adapter) (.start x.slot.device)).state
      device :=
        (x.slot.interpreter.step (Errand.host o.adapter) (.start x.slot.device)).world.device } :=
  rfl

/-- What a turn asks for is what its step asked for. -/
theorem turn_step (o : Office σ) (x : Station σ) :
    (x.step o).2 =
      ⟨(x.slot.interpreter.step (Errand.host o.adapter) (.start x.slot.device)).signal,
        (x.slot.interpreter.step (Errand.host o.adapter) (.start x.slot.device)).world.wake⟩ :=
  rfl

/-- A turn goes on in one of two ways: the device is armed first, or it is armed
already and the step calls for the next one. -/
theorem resume?_eq_some {o : Office σ} {x y : Station σ} (h : x.resume? o = some y) :
    (x.step o).1.slot.interpreter.isRunning = true ∧ (x.step o).2.signal ≠ .broke ∧
      ((¬ (x.step o).1.Armed ∧ y = (x.step o).1.armDevice o (x.step o).1.needs) ∨
        ((x.step o).1.Armed ∧ (x.step o).2.signal = .proceed ∧ y = (x.step o).1)) := by
  unfold resume? at h
  dsimp only at h
  split at h
  · contradiction
  · next hb =>
      split at h
      · contradiction
      · next hr =>
          refine ⟨by simpa using hr, hb, ?_⟩
          split at h
          · next hm =>
              refine .inl ⟨fun ha => ?_, (Option.some.inj h).symm⟩
              simp [ha.symm] at hm
          · next hm =>
              split at h
              · next hp =>
                  exact .inr ⟨(by simpa using hm : _ = _).symm, hp, (Option.some.inj h).symm⟩
              · contradiction

/-- A turn ends with a step after which nothing can be done, after which no
script runs, or which calls for a pause while the device is armed. -/
theorem resume?_eq_none {o : Office σ} {x : Station σ} (h : x.resume? o = none) :
    (x.step o).2.signal = .broke ∨ (x.step o).1.slot.interpreter.isRunning = false ∨
      ((x.step o).1.Armed ∧ (x.step o).2.signal = .pause) := by
  unfold resume? at h
  dsimp only at h
  split at h
  · next hb => exact .inl hb
  · next hb =>
      split at h
      · next hr => exact .inr (.inl (by simpa using hr))
      · split at h
        · contradiction
        · next hm =>
            split at h
            · contradiction
            · next hp =>
                refine .inr (.inr ⟨(by simpa using hm : _ = _).symm, ?_⟩)
                cases hs : (x.step o).2.signal with
                | proceed => exact absurd hs hp
                | pause => rfl
                | broke => exact absurd hs hb

/-- Whether a turn goes on or not, its script is that after the step. -/
theorem interpreter_of_resume? {o : Office σ} {x y : Station σ} (h : x.resume? o = some y) :
    y.slot.interpreter = (x.step o).1.slot.interpreter := by
  obtain ⟨_, _, ⟨_, rfl⟩ | ⟨_, _, rfl⟩⟩ := resume?_eq_some h <;> rfl

/-- Where a turn goes on, a script runs and the device is armed with what it needs. -/
theorem armed_of_resume? {o : Office σ} {x y : Station σ} (h : x.resume? o = some y) :
    y.slot.interpreter.isRunning = true ∧ y.Armed := by
  obtain ⟨hr, _, ⟨_, rfl⟩ | ⟨ha, _, rfl⟩⟩ := resume?_eq_some h
  · exact ⟨hr, rfl⟩
  · exact ⟨hr, ha⟩

/-! ## the steps of a turn -/

/-- The stations at which the steps of a turn begin. -/
def visits (o : Office σ) : Nat → Station σ → List (Station σ)
  | 0, _ => []
  | n + 1, x => x :: match x.resume? o with
    | some y => visits o n y
    | none => []

/-- What comes at and after a step of a turn is a turn of its own. -/
theorem runFor_of_getElem? {o : Office σ} {n k : Nat} {x z : Station σ}
    (h : (visits o n x)[k]? = some z) :
    ∃ m, m < n ∧ runFor o n x = runFor o (m + 1) z ∧
      (visits o n x).drop k = visits o (m + 1) z := by
  induction k generalizing n x with
  | zero =>
      cases n with
      | zero => simp [visits] at h
      | succ n =>
          obtain rfl : x = z := by simpa [visits] using h
          exact ⟨n, Nat.lt_succ_self n, rfl, rfl⟩
  | succ k ih =>
      cases n with
      | zero => simp [visits] at h
      | succ n =>
          rw [visits, List.getElem?_cons_succ] at h
          cases hr : x.resume? o with
          | none => simp [hr] at h
          | some y =>
              rw [hr] at h
              obtain ⟨m, hm, hrun, hdrop⟩ := ih h
              refine ⟨m, Nat.lt_succ_of_lt hm, ?_, ?_⟩
              · rw [runFor_succ, hr]
                exact hrun
              · rw [visits, hr, List.drop_succ_cons]
                exact hdrop

/-- A property of a station that every step keeps for the next one holds at
every step of a turn. -/
theorem visits_induction {o : Office σ} {P : Station σ → Prop}
    (hstep : ∀ x y, P x → x.resume? o = some y → P y) {n k : Nat} {x z : Station σ} (hx : P x)
    (h : (visits o n x)[k]? = some z) : P z := by
  induction k generalizing n x with
  | zero =>
      cases n with
      | zero => simp [visits] at h
      | succ n =>
          obtain rfl : x = z := by simpa [visits] using h
          exact hx
  | succ k ih =>
      cases n with
      | zero => simp [visits] at h
      | succ n =>
          rw [visits, List.getElem?_cons_succ] at h
          cases hr : x.resume? o with
          | none => simp [hr] at h
          | some y =>
              rw [hr] at h
              exact ih (hstep x y hx hr) h

/-- After the first step the device is armed with what the script needs. -/
theorem armed_of_getElem? {o : Office σ} {n k : Nat} {x z : Station σ}
    (h : (visits o n x)[k + 1]? = some z) : z.Armed := by
  cases n with
  | zero => simp [visits] at h
  | succ n =>
      rw [visits, List.getElem?_cons_succ] at h
      cases hr : x.resume? o with
      | none => simp [hr] at h
      | some y =>
          rw [hr] at h
          exact visits_induction (fun _ _ _ hxy => (armed_of_resume? hxy).2)
            (armed_of_resume? hr).2 h

/-- The first step of a turn begins where the turn does. -/
theorem eq_of_getElem?_zero {o : Office σ} {n : Nat} {x z : Station σ}
    (h : (visits o n x)[0]? = some z) : 0 < n ∧ z = x := by
  cases n with
  | zero => simp [visits] at h
  | succ n => exact ⟨Nat.succ_pos n, by simpa [visits, eq_comm] using h⟩

/-- The device is armed with what the script needs at every step of a turn but
perhaps the first. -/
theorem armed_visit_iff {o : Office σ} {n k : Nat} {x z : Station σ}
    (h : (visits o n x)[k]? = some z) : z.Armed ↔ 0 < k ∨ x.Armed := by
  cases k with
  | zero =>
      obtain ⟨-, rfl⟩ := eq_of_getElem?_zero h
      simp
  | succ k => simp [armed_of_getElem? h]

/-! ## commands that let the script wait -/

/-- The step at this station executes a command which lets the script wait, for
a time or until something happens. -/
def Suspends (o : Office σ) (x : Station σ) (wake : Option Nanoseconds) : Prop :=
  ∃ command args, x.slot.interpreter.asked? = some (command, args) ∧
    (Errand.execute o.adapter command args (.start x.slot.device)).1 = some .suspend ∧
    (Errand.execute o.adapter command args (.start x.slot.device)).2.wake = wake

/-- Such a step stands at the next line then, and calls for a pause. -/
theorem step_of_suspends {o : Office σ} {x : Station σ} {wake : Option Nanoseconds}
    (h : x.Suspends o wake) :
    (x.step o).1.slot.interpreter = x.slot.interpreter.advance ∧
      (x.step o).1.slot.interpreter.isRunning = true ∧ (x.step o).2 = ⟨.pause, wake⟩ := by
  obtain ⟨command, args, hc, ha, rfl⟩ := h
  have hstep : x.slot.interpreter.step (Errand.host o.adapter) (.start x.slot.device) = _ :=
    Interpreter.step_of_suspend hc ha
  have hrun := (Interpreter.execute_of_asked hc).1
  rw [slot_step, turn_step, hstep]
  exact ⟨rfl, by simpa using hrun, rfl⟩

/-- The needs of a script are the same while it waits. -/
theorem needs_of_suspends {o : Office σ} {x : Station σ} {wake : Option Nanoseconds}
    (h : x.Suspends o wake) : (x.step o).1.needs = x.needs := by
  simp [needs, (step_of_suspends h).1]

/-- With an armed device the wish to wait ends the turn. -/
theorem resume?_of_suspends {o : Office σ} {x : Station σ} {wake : Option Nanoseconds}
    (h : x.Suspends o wake) (ha : x.Armed) :
    x.resume? o = none ∧ x.settle o = (x.step o).1.await o wake := by
  obtain ⟨_, hr, ht⟩ := step_of_suspends h
  have hn := needs_of_suspends h
  have hm : (x.step o).1.slot.armedMask = x.needs := ha
  constructor
  · simp [resume?, hr, ht, hn, hm]
  · simp [settle, hr, ht]

/-- With a device that is not armed the wish to wait is lost: the device is
armed, and the turn goes on. -/
theorem resume?_of_suspends_unarmed {o : Office σ} {x : Station σ} {wake : Option Nanoseconds}
    (h : x.Suspends o wake) (ha : ¬ x.Armed) :
    x.resume? o = some ((x.step o).1.armDevice o x.needs) := by
  obtain ⟨_, hr, ht⟩ := step_of_suspends h
  have hn := needs_of_suspends h
  have hm : x.needs ≠ (x.step o).1.slot.armedMask := fun he => ha he.symm
  simp [resume?, hr, ht, hn, hm]

/-! ## orders -/

/-- Orders given in a turn come after those that were there. -/
theorem orders_step (o : Office σ) (x : Station σ) :
    x.ledger.orders <+: (x.step o).1.ledger.orders := by
  unfold step
  dsimp only
  split
  · exact List.prefix_append _ _
  · exact List.prefix_rfl

theorem orders_arm (o : Office σ) (delay : Nanoseconds) (x : Station σ) :
    (x.arm o delay).ledger.orders = x.ledger.orders := by
  simp only [arm, Ledger.call]
  split <;> rfl

theorem orders_await (o : Office σ) (wake : Option Nanoseconds) (x : Station σ) :
    (x.await o wake).ledger.orders = x.ledger.orders := by
  cases wake with
  | none => rfl
  | some delay => exact orders_arm o delay x

theorem orders_settle (o : Office σ) (x : Station σ) :
    x.ledger.orders <+: (x.settle o).ledger.orders := by
  unfold settle
  dsimp only
  split
  · exact orders_step o x
  · split
    · simp only [endCall, beginRelease, orders_arm]
      exact (orders_step o x).trans (List.prefix_append _ _)
    · rw [orders_await]
      exact orders_step o x

theorem orders_resume? {o : Office σ} {x y : Station σ} (h : x.resume? o = some y) :
    x.ledger.orders <+: y.ledger.orders := by
  obtain ⟨_, _, ⟨_, rfl⟩ | ⟨_, _, rfl⟩⟩ := resume?_eq_some h
  · exact (orders_step o x).trans (List.prefix_append _ _)
  · exact orders_step o x

/-- A whole turn only adds orders. -/
theorem orders_runFor (o : Office σ) (n : Nat) (x : Station σ) :
    x.ledger.orders <+: (runFor o n x).ledger.orders := by
  induction n generalizing x with
  | zero =>
      have h : (runFor o 0 x).ledger.orders = x.ledger.orders := orders_arm o _ x
      exact h ▸ List.prefix_rfl
  | succ n ih =>
      rw [runFor_succ]
      split
      · next y hy => exact (orders_resume? hy).trans (ih y)
      · exact orders_settle o x

end Switchboard.Station
