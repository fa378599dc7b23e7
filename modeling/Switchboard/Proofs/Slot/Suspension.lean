import Switchboard.Proofs.Slot.History

/-!
# Switchboard.Proofs.Slot.Suspension

Whether a script that wants to wait does wait.

1. A turn should end with the first command that lets the script wait, and
   leave the timer as that command asks.
2. It does so unless the command is in the first line of the turn and the
   operation was not prepared, that is, unless the device has yet to be armed
   for that line: `wait_ends_turn_iff`.
3. In that case the wish is lost: the device is armed after the command, and
   the turn goes on with the next line (`sleep_passed_over`).
-/

namespace Switchboard.Station

variable {σ : Type}

/-- The timer of a script that waits for a time, or until something happens. -/
def wakeTimer (o : Office σ) : Option Nanoseconds → Timer
  | some delay => ⟨Timer.deadline o.clock.now delay⟩
  | none => .unset

theorem timer_await (o : Office σ) (wake : Option Nanoseconds) (x : Station σ) :
    (x.await o wake).slot.timer = wakeTimer o wake := by
  cases wake <;> rfl

/-- A step that ends its turn is the last one. -/
theorem visits_of_resume?_none {o : Office σ} {n : Nat} {x : Station σ}
    (h : x.resume? o = none) : visits o (n + 1) x = [x] := by
  rw [visits, h]

/-- A turn whose device is armed first does not end as if it had not been. -/
theorem runFor_armDevice_ne (o : Office σ) (n : Nat) (mask : Mask) (wake : Option Nanoseconds)
    (x : Station σ) : runFor o n (x.armDevice o mask) ≠ x.await o wake := by
  intro he
  have hle := (orders_runFor o n (x.armDevice o mask)).length_le
  rw [he, orders_await] at hle
  simp only [armDevice, Ledger.order, List.length_append, List.length_singleton] at hle
  omega

/-- After any history, a turn that comes to a command which lets the script wait
ends with it exactly if the device was armed for that line: if it is not the
first line of the turn, or the operation was prepared.  Then that is the last
step, and the timer is as the command asks.  Otherwise the device is armed after
the command, and the turn goes on as if nothing had been asked. -/
theorem wait_ends_turn_iff {deeds : List (Deed σ)} {o : Office σ} {op : Operation}
    {x y z : Station σ} {k : Nat} {wake : Option Nanoseconds} (hx : Reach deeds x)
    (hy : x.turn? o op = some y) (hz : (visits o o.engine.stepsPerTick y)[k]? = some z)
    (hs : z.Suspends o wake) :
    (x.perform o op = (z.step o).1.await o wake ↔ 0 < k ∨ Prepared o x op) ∧
      (0 < k ∨ Prepared o x op →
        (visits o o.engine.stepsPerTick y).length = k + 1 ∧
          (x.perform o op).slot.timer = wakeTimer o wake) ∧
      (¬ (0 < k ∨ Prepared o x op) →
        x.perform o op =
          runFor o (o.engine.stepsPerTick - 1) ((y.step o).1.armDevice o y.needs)) := by
  rw [← hx.orderly.armed_iff hy, ← armed_visit_iff hz, perform_of_turn? hy, run]
  obtain ⟨m, hm, hrun, hdrop⟩ := runFor_of_getElem? hz
  have hends : z.Armed → runFor o (m + 1) z = (z.step o).1.await o wake := by
    intro ha
    obtain ⟨hn, hset⟩ := resume?_of_suspends hs ha
    rw [runFor_succ, hn, ← hset]
  have hlost : ¬ z.Armed → z = y ∧ runFor o o.engine.stepsPerTick y =
      runFor o (o.engine.stepsPerTick - 1) ((y.step o).1.armDevice o y.needs) := by
    intro hn
    have hk : k = 0 := by
      have h := mt (armed_visit_iff hz).mpr hn
      omega
    subst hk
    obtain ⟨hpos, rfl⟩ := eq_of_getElem?_zero hz
    obtain ⟨n, hsteps⟩ := Nat.exists_eq_succ_of_ne_zero (Nat.ne_of_gt hpos)
    rw [hsteps, runFor_succ, resume?_of_suspends_unarmed hs hn]
    exact ⟨rfl, rfl⟩
  refine ⟨⟨fun he => ?_, fun ha => ?_⟩, fun ha => ⟨?_, ?_⟩, fun hn => (hlost hn).2⟩
  · by_cases ha : z.Armed
    · exact ha
    · obtain ⟨rfl, hgo⟩ := hlost ha
      exact absurd (hgo.symm.trans he) (runFor_armDevice_ne o _ _ wake _)
  · rw [hrun, hends ha]
  · have hlen := congrArg List.length hdrop
    rw [visits_of_resume?_none (resume?_of_suspends hs ha).1, List.length_drop,
      List.length_singleton] at hlen
    omega
  · rw [hrun, hends ha, timer_await]

/-- A script that sleeps in its second line, after its device was armed. -/
def lateSleep : Office Unit :=
  trialOffice [("log", 0), ("sleep", 0), ("play", 1)]
    "@main\n  log hello\n  sleep 60\n  play a\n  exit\n"

theorem wait_ends_turn_late_sleep :
    let x := newStation.perform lateSleep (.post .enable)
    ∃ y z, x.turn? lateSleep (.allocate trialCall) = some y ∧
      (visits lateSleep 100 y)[1]? = some z ∧ z.Suspends lateSleep (some 60000000000) ∧
      x.perform lateSleep (.allocate trialCall) =
        (z.step lateSleep).1.await lateSleep (some 60000000000) := by
  intro x
  let y := (x.accept lateSleep trialCall).1
  let z := (y.step lateSleep).1.armDevice lateSleep 1
  have hy : x.turn? lateSleep (.allocate trialCall) = some y := by decide +kernel
  have hz : (visits lateSleep 100 y)[1]? = some z := by decide +kernel
  have hs : z.Suspends lateSleep (some 60000000000) :=
    ⟨"sleep", ["60"], by decide +kernel, by decide +kernel, by decide +kernel⟩
  exact ⟨y, z, hy, hz, hs,
    (wait_ends_turn_iff (reach_enable lateSleep (by decide)) hy hz hs).1.mpr (.inl Nat.zero_lt_one)⟩

/-- A script that sleeps in its first line, before its device was armed. -/
def earlySleep : Office Unit :=
  trialOffice [("sleep", 0), ("play", 1)] "@main\n  sleep 60\n  play a\n  exit\n"

/-- Not every command that lets the script wait ends its turn. -/
theorem sleep_passed_over :
    ¬ ∀ (deeds : List (Deed Unit)) (o : Office Unit) (op : Operation) (x y z : Station Unit)
      (k : Nat) (wake : Option Nanoseconds), Reach deeds x → x.turn? o op = some y →
      (visits o o.engine.stepsPerTick y)[k]? = some z → z.Suspends o wake →
      (visits o o.engine.stepsPerTick y).length = k + 1 ∧
        (x.perform o op).slot.timer = wakeTimer o wake := by
  intro hall
  let x := newStation.perform earlySleep (.post .enable)
  let y := (x.accept earlySleep trialCall).1
  have hy : x.turn? earlySleep (.allocate trialCall) = some y := by decide +kernel
  have hz : (visits earlySleep 100 y)[0]? = some y := by decide +kernel
  have hs : y.Suspends earlySleep (some 60000000000) :=
    ⟨"sleep", ["60"], by decide +kernel, by decide +kernel, by decide +kernel⟩
  have hlen := (hall _ _ _ _ _ _ 0 _ (reach_enable earlySleep (by decide)) hy hz hs).1
  exact absurd hlen (by decide +kernel)

end Switchboard.Station
