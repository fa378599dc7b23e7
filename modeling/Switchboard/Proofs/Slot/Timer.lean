import Switchboard.Proofs.Slot.History

/-!
# Switchboard.Proofs.Slot.Timer

Timers that keep time.

1. A delay ends at a time that is no word any more, or at the greatest word, or it
   is counted in full (`Timer.deadline_of_lt`).
2. A timer that has run out is unset, and then its slot is told; one that has not is
   left alone (`Station.expire_of_due`, `Station.expire_of_early`).
3. A slot keeps time with a delay if its timer is set then, goes off when it has run
   out and not before, and would not have run out later for a shorter delay
   (`Station.KeepsTime`).  That holds exactly of delays that end before the greatest
   time, and of no longer ones (`Station.keepsTime_iff`).
-/

namespace Switchboard

/-! ## words -/

namespace Timer

theorem expiry?_eq_some {t : Timer} {e : Nat} :
    t.expiry? = some e ↔ t.expiry = e ∧ e ≠ never := by
  unfold expiry?
  by_cases h : t.expiry = never
  · simp [h]
    rintro rfl
    simp
  · simp [h]
    rintro rfl
    exact h

theorem expiry?_eq_none {t : Timer} : t.expiry? = none ↔ t.expiry = never := by
  simp [expiry?]

/-- As many milliseconds as a word holds are counted in full. -/
theorem wordMillis_of_lt {delay : Nat} (h : delay / 1000000 < bound) :
    wordMillis delay = delay / 1000000 := Nat.mod_eq_of_lt h

/-- A delay that ends before the greatest time ends on time. -/
theorem deadline_of_lt {now : Nat} {delay : Nat} (h : now + delay / 1000000 < never) :
    deadline now delay = now + delay / 1000000 := by
  have hword : delay / 1000000 < bound := by
    unfold never at h
    omega
  unfold deadline
  rw [wordMillis_of_lt hword]
  omega

/-- The greatest number of milliseconds leaves a timer unset. -/
theorem deadline_of_never (now : Nat) : deadline now (never * 1000000) = never := by
  have hword : wordMillis (never * 1000000) = never := by decide
  unfold deadline
  rw [hword]
  omega

end Timer

/-! ## timers that run out -/

namespace Station

variable {σ : Type} {x : Station σ} {o : Office σ} {now : Nat}

/-- A timer that has run out is unset, and its slot is told. -/
theorem expire_of_due (o : Office σ) (h : x.slot.timer.expiry ≤ now) :
    x.expire o now = ((x.disarm.post o .timeout).1, some (x.disarm.post o .timeout).2) := by
  simp only [expire, Timer.takeDue, h, if_true]
  rfl

/-- A timer that has not run out is left alone. -/
theorem expire_of_early (o : Office σ) (h : now < x.slot.timer.expiry) :
    x.expire o now = (x, none) := by
  have hearly : ¬ x.slot.timer.expiry ≤ now := Nat.not_le_of_gt h
  simp only [expire, Timer.takeDue, hearly, if_false]
  rfl

/-- The time at which a timer runs out that is set for a delay. -/
theorem expiry_arm (o : Office σ) (delay : Nat) (x : Station σ) :
    (x.arm o delay).slot.timer.expiry = Timer.deadline o.clock.now delay := rfl

/-- A slot keeps time with a delay, from the time of its office until `expiry`. -/
structure KeepsTime (o : Office σ) (x : Station σ) (delay : Nat) (expiry : Nat) :
    Prop where
  /-- The timer is set. -/
  pending : (x.arm o delay).slot.timer.expiry? = some expiry
  ahead : o.clock.now ≤ expiry
  /-- From then on it is unset at the first look, and the slot is told once. -/
  due : ∀ p now, expiry ≤ now → (x.arm o delay).expire p now =
    (((x.arm o delay).disarm.post p .timeout).1, some ((x.arm o delay).disarm.post p .timeout).2)
  /-- Before, nothing happens. -/
  early : ∀ p now, now < expiry → (x.arm o delay).expire p now = (x.arm o delay, none)
  /-- A shorter delay does not end later. -/
  shorter : ∀ less : Nat, less ≤ delay → ∃ sooner,
    (x.arm o less).slot.timer.expiry? = some sooner ∧ sooner ≤ expiry

namespace KeepsTime

variable {delay : Nat} {expiry : Nat}

/-- A delay that a slot keeps time with fits into a word. -/
theorem fits (h : KeepsTime o x delay expiry) : delay / 1000000 < Timer.bound := by
  refine Nat.lt_of_not_le fun hlong => ?_
  have hnever : Timer.never ≤ delay / 1000000 := Nat.le_trans (Nat.sub_le _ _) hlong
  have hless : Timer.never * 1000000 ≤ delay :=
    (Nat.le_div_iff_mul_le (by decide)).mp hnever
  obtain ⟨sooner, hsooner, -⟩ := h.shorter _ hless
  obtain ⟨heq, hne⟩ := Timer.expiry?_eq_some.mp hsooner
  rw [expiry_arm, Timer.deadline_of_never] at heq
  exact hne heq.symm

theorem eq (h : KeepsTime o x delay expiry) :
    expiry = o.clock.now + delay / 1000000 ∧ expiry < Timer.never := by
  obtain ⟨heq, hne⟩ := Timer.expiry?_eq_some.mp h.pending
  rw [expiry_arm, Timer.deadline, Timer.wordMillis_of_lt h.fits] at heq
  omega

end KeepsTime

/-- A slot keeps time with a delay exactly if the delay ends before the greatest time
that a word holds, and then it ends on the millisecond.  This goes for any slot at any
time, whether a script sleeps, a turn is interrupted, or a slot waits to be free. -/
theorem keepsTime_iff (o : Office σ) (x : Station σ) (delay : Nat) (expiry : Nat) :
    KeepsTime o x delay expiry ↔
      expiry = o.clock.now + delay / 1000000 ∧ expiry < Timer.never := by
  refine ⟨KeepsTime.eq, fun h => ?_⟩
  obtain ⟨rfl, hlt⟩ := h
  have hexpiry : (x.arm o delay).slot.timer.expiry = o.clock.now + delay / 1000000 :=
    (expiry_arm o delay x).trans (Timer.deadline_of_lt hlt)
  refine ⟨Timer.expiry?_eq_some.mpr ⟨hexpiry, Nat.ne_of_lt hlt⟩, Nat.le_add_right _ _,
    fun p now hnow => expire_of_due p (hexpiry ▸ hnow),
    fun p now hnow => expire_of_early p (hexpiry ▸ hnow), fun less hless => ?_⟩
  have hdiv : less / 1000000 ≤ delay / 1000000 := Nat.div_le_div_right hless
  have hsooner : o.clock.now + less / 1000000 < Timer.never := by omega
  refine ⟨o.clock.now + less / 1000000, Timer.expiry?_eq_some.mpr ⟨?_, by omega⟩, by omega⟩
  exact (expiry_arm o less x).trans (Timer.deadline_of_lt hsooner)

/-- A script that is to sleep for half a billion years sleeps for a minute, which is less
than the hour for which another one sleeps.  A slot that waits for the greatest number of
milliseconds to be free has no timer at all. -/
theorem keepsTime_not_of_long_delays :
    let office (delay : String) := trialOffice slotCommands ("@main\n  sleep " ++ delay ++ "\n")
    let asleep (delay : String) := (newStation.perform (office delay) (.post .enable)).perform
      (office delay) (.allocate trialCall)
    let slow := { office "60" with engine := { (office "60").engine with
      releaseDelayMs := 18446744073709551615 } }
    (asleep "18446744073709612").slot.timer.expiry? = some 60384 ∧
    (asleep "3600").slot.timer.expiry? = some 3600000 ∧
    (∀ expiry, ¬ KeepsTime (office "60") newStation (18446744073709612 * 1000000000) expiry) ∧
    ((asleep "60").perform slow (.post .drop)).slot.state = .releasing ∧
    ((asleep "60").perform slow (.post .drop)).slot.timer.expiry? = none := by
  refine ⟨by decide +kernel, by decide +kernel, fun expiry h => ?_, by decide +kernel,
    by decide +kernel⟩
  obtain ⟨sooner, hsooner, hle⟩ := h.shorter (3600 * 1000000000) (by decide)
  have hhour : Timer.deadline 0 (3600 * 1000000000) = 3600000 := by decide
  have hminute : Timer.deadline 0 (18446744073709612 * 1000000000) = 60384 := by decide
  obtain rfl : 3600000 = sooner := hhour.symm.trans (Timer.expiry?_eq_some.mp hsooner).1
  obtain rfl : 60384 = expiry := hminute.symm.trans (Timer.expiry?_eq_some.mp h.pending).1
  exact absurd hle (by decide)

end Station

end Switchboard
