import Switchboard.Proofs.Slot.History

/-!
# Switchboard.Proofs.Slot.Arming

Whether a device is armed before it is used.

1. Whenever a line has a command for the device, the device should be armed
   with what the script needs at that moment.
2. It is so for every line but the first of a turn, however that line was
   reached, and for the first line exactly if the operation was prepared:
   `armed_before_use_iff`.
3. The first line of a call whose entry needs anything goes to a device that is
   armed with nothing (`play_before_arm`).
-/

namespace Switchboard.Station

variable {σ : Type}

/-- A step adds to the orders of its slot the command that it passes on. -/
theorem ordersOf_step (o : Office σ) (x : Station σ) :
    (x.step o).1.ledger.ordersOf x.slot.id =
      x.ledger.ordersOf x.slot.id ++ (x.passedOn? o).toList := by
  unfold Ledger.ordersOf
  rw [orders_of_step, List.filterMap_append]
  cases x.passedOn? o <;> simp

/-- After any history, the device is armed with what the script needs at every
step of a turn but the first, and at the first exactly if the operation was
prepared.  What it was armed with last is read from the orders before the step, to
which the step adds what it passes on.  A call begins with nothing armed. -/
theorem armed_before_use_iff {deeds : List (Deed σ)} {o : Office σ} {op : Operation}
    {x y z : Station σ} {k : Nat} (hx : Reach deeds x) (hy : x.turn? o op = some y)
    (hz : (visits o o.engine.stepsPerTick y)[k]? = some z) :
    (lastArm (z.ledger.ordersOf z.slot.id) = z.needs ↔ 0 < k ∨ Prepared o x op) ∧
      (z.step o).1.ledger.ordersOf z.slot.id =
        z.ledger.ordersOf z.slot.id ++ (z.passedOn? o).toList ∧
      ((∃ setup, op = .allocate setup) → lastArm (x.ledger.ordersOf x.slot.id) = 0) := by
  have hready := (hx.orderly.turn? hy).visit hz
  refine ⟨?_, ordersOf_step o z, ?_⟩
  · rw [hready.booked, ← hx.orderly.armed_iff hy]
    exact armed_visit_iff hz
  · rintro ⟨setup, rfl⟩
    simp only [turn?] at hy
    split at hy
    · next w n ha =>
        rw [hx.orderly.booked]
        exact hx.orderly.vacant (.inr (accept_ok hx.orderly.sound hx.orderly.booked ha).1)
    · contradiction

/-- A script that uses its device at once. -/
def earlyPlay : Office Unit := trialOffice [("play", 1)] "@main\n  play a\n  exit\n"

/-- A script that uses its device after a line that does not. -/
def latePlay : Office Unit :=
  trialOffice [("log", 0), ("play", 1)] "@main\n  log hello\n  play a\n  exit\n"

theorem armed_before_use_late_play :
    let x := newStation.perform latePlay (.post .enable)
    ∃ y z, x.turn? latePlay (.allocate trialCall) = some y ∧
      (visits latePlay 100 y)[1]? = some z ∧
      z.passedOn? latePlay = some (.execute "play" ["a"]) ∧
      lastArm (z.ledger.ordersOf z.slot.id) = z.needs ∧ z.needs = 1 := by
  intro x
  let y := (x.accept latePlay trialCall).1
  let z := (y.step latePlay).1.armDevice latePlay 1
  have hy : x.turn? latePlay (.allocate trialCall) = some y := by decide +kernel
  have hz : (visits latePlay 100 y)[1]? = some z := by decide +kernel
  exact ⟨y, z, hy, hz, by decide +kernel,
    (armed_before_use_iff (reach_enable latePlay (by decide)) hy hz).1.mpr (.inl Nat.zero_lt_one),
    by decide +kernel⟩

/-- Not every command goes to a device that is armed for it. -/
theorem play_before_arm :
    ¬ ∀ (deeds : List (Deed Unit)) (o : Office Unit) (op : Operation) (x y z : Station Unit)
      (k : Nat) (order : Order), Reach deeds x → x.turn? o op = some y →
      (visits o o.engine.stepsPerTick y)[k]? = some z → z.passedOn? o = some order →
      lastArm (z.ledger.ordersOf z.slot.id) = z.needs := by
  intro hall
  let x := newStation.perform earlyPlay (.post .enable)
  let y := (x.accept earlyPlay trialCall).1
  have hy : x.turn? earlyPlay (.allocate trialCall) = some y := by decide +kernel
  have hz : (visits earlyPlay 100 y)[0]? = some y := by decide +kernel
  have hp : y.passedOn? earlyPlay = some (.execute "play" ["a"]) := by decide +kernel
  have harmed := hall _ _ _ _ _ _ 0 _ (reach_enable earlyPlay (by decide)) hy hz hp
  exact absurd harmed (by decide +kernel)

end Switchboard.Station
