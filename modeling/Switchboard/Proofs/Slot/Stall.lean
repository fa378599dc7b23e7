import Switchboard.Proofs.Slot.Suspension

/-!
# Switchboard.Proofs.Slot.Stall

When a script is left without a timer.

1. A slot that runs a script and has no timer should wait for an event because
   the last command asked for that.
2. What the timer is depends on the last step of the latest turn alone:
   `timer_runFor`.
3. Besides the case of (1) there is one that nobody asked for: a turn begins
   with a device that is not armed for the script, and its first line leads to
   where the script needs just what the device was armed with.  The step calls
   for a pause, there is nothing to arm, and the turn ends (`jump_stalls`).
4. A time that does not fit into a word is no time, so that a timer which is
   set for it is not set at all.
-/

namespace Switchboard.Station

variable {σ : Type}

/-! ## the end of a turn -/

/-- The last step of a turn either ends it, or comes when the steps are used up. -/
theorem runFor_of_getLast? {o : Office σ} {n : Nat} {x z : Station σ}
    (h : (visits o n x).getLast? = some z) :
    runFor o n x = (match z.resume? o with
      | some w => w.arm o o.engine.stepInterval
      | none => z.settle o) := by
  rw [List.getLast?_eq_getElem?] at h
  obtain ⟨m, _, hrun, hdrop⟩ := runFor_of_getElem? h
  have hlen := congrArg List.length hdrop
  rw [List.length_drop] at hlen
  rw [hrun, runFor_succ]
  cases hw : z.resume? o with
  | none => rfl
  | some w =>
      cases m with
      | zero => rfl
      | succ m =>
          simp only [visits, hw, List.length_cons] at hlen
          omega

theorem visits_ne_nil {o : Office σ} {n : Nat} (hn : 0 < n) (x : Station σ) :
    visits o n x ≠ [] := by
  cases n with
  | zero => contradiction
  | succ n => simp [visits]

/-- A command that asks for a time lets the script wait. -/
theorem suspends_of_wake {o : Office σ} {x : Station σ} {delay : Nanoseconds}
    (h : (x.step o).2.wake = some delay) : x.Suspends o (some delay) := by
  rw [turn_step, Interpreter.world_step] at h
  dsimp only at h
  cases hc : x.slot.interpreter.asked? with
  | none => simp [hc, Errand.start] at h
  | some asked =>
      obtain ⟨command, args⟩ := asked
      simp only [hc, Errand.host] at h
      refine ⟨command, args, hc, ?_, h⟩
      unfold Errand.execute at h ⊢
      split at h
      · unfold Errand.sleep at h ⊢
        dsimp only at h ⊢
        split at h <;> simp_all [Errand.start]
      · simp [Errand.start] at h
      · simp [Errand.start] at h
      · simp [Errand.start] at h

/-- A step that leaves a script running ends the turn for one of two reasons: a
command lets the script wait, or the script needs now what the device, which was
not armed for it, is armed with. -/
theorem timer_settle {o : Office σ} {z : Station σ} (h : z.Ready) (hn : z.resume? o = none)
    (hs : (z.settle o).slot.state = .scripting) (hb : (z.settle o).ledger.broken = false) :
    (z.Armed ∧ ∃ wake, z.Suspends o wake ∧ (z.settle o).slot.timer = wakeTimer o wake) ∨
      (¬ z.Armed ∧ (z.step o).1.Armed ∧ (z.settle o).slot.timer = .unset) := by
  unfold settle at hs hb ⊢
  dsimp only at hs hb ⊢
  split at hb
  · simp [breakOff] at hb
  · next hbroke =>
      rw [if_neg hbroke] at hs ⊢
      split at hs
      · simp [endCall, beginRelease, arm, setState] at hs
      · next hrun =>
          rw [if_neg hrun, timer_await]
          have hr : (z.step o).1.slot.interpreter.isRunning = true := by simpa using hrun
          obtain ⟨harmed, hp⟩ :=
            ((resume?_eq_none hn).resolve_left hbroke).resolve_left (by simp [hr])
          have himage := h.sound.attached h.running
          rcases Interpreter.pause_of_running (h.sound.ne_nil himage) himage hp hr with
            ⟨command, args, hc, ha⟩ | hm
          · -- the script waits
            have hsus : z.Suspends o (z.step o).2.wake := by
              refine ⟨command, args, hc, ha, ?_⟩
              rw [turn_step, Interpreter.world_step, hc]
              rfl
            have hz : z.Armed := by
              unfold Armed at harmed ⊢
              rw [← needs_of_suspends hsus, ← harmed]
              rfl
            exact .inl ⟨hz, _, hsus, rfl⟩
          · -- the script needs something else
            have hz : ¬ z.Armed := by
              intro hz
              unfold Armed at harmed hz
              exact hm (harmed.symm.trans hz)
            refine .inr ⟨hz, harmed, ?_⟩
            cases hw : (z.step o).2.wake with
            | none => rfl
            | some delay =>
                have hneeds := needs_of_suspends (suspends_of_wake hw)
                exact absurd (harmed.trans hneeds) hz

/-! ## the timer after a turn -/

/-- A command asks for one time only. -/
theorem Suspends.unique {o : Office σ} {x : Station σ} {wake other : Option Nanoseconds}
    (h : x.Suspends o wake) (h' : x.Suspends o other) : wake = other := by
  obtain ⟨c, args, hc, -, rfl⟩ := h
  obtain ⟨c', args', hc', -, rfl⟩ := h'
  obtain ⟨rfl, rfl⟩ := Prod.mk.inj (Option.some.inj (hc.symm.trans hc'))
  rfl

/-- The last step of a turn leaves a timer for this time: a command asks for it,
or the steps are used up. -/
def Asks (o : Office σ) (z : Station σ) (delay : Nanoseconds) : Prop :=
  z.Armed ∧ z.Suspends o (some delay) ∨ (z.resume? o).isSome ∧ delay = o.engine.stepInterval

/-- A step that does not end its turn leaves no device armed by chance. -/
theorem armed_of_resume?_isSome {o : Office σ} {z : Station σ} (hr : (z.resume? o).isSome)
    (ha : (z.step o).1.Armed) : z.Armed := by
  obtain ⟨w, hw⟩ := Option.isSome_iff_exists.mp hr
  obtain ⟨-, -, ⟨hn, -⟩ | ⟨-, hp, -⟩⟩ := resume?_eq_some hw
  · exact absurd ha hn
  · have hmask := (Interpreter.running_of_proceed hp).2
    exact Eq.trans ha hmask

namespace Asks

variable {o : Office σ} {z : Station σ} {delay other : Nanoseconds}

theorem unique (h : z.Asks o delay) (h' : z.Asks o other) : delay = other := by
  rcases h with ⟨ha, hs⟩ | ⟨hr, rfl⟩
  · rcases h' with ⟨-, hs'⟩ | ⟨hr, -⟩
    · exact Option.some.inj (hs.unique hs')
    · simp [(resume?_of_suspends hs ha).1] at hr
  · rcases h' with ⟨ha, hs'⟩ | ⟨-, rfl⟩
    · simp [(resume?_of_suspends hs' ha).1] at hr
    · rfl

/-- A step that leaves a timer does not wait for an event. -/
theorem not_waiting (h : z.Asks o delay) : ¬ (z.Armed ∧ z.Suspends o none) := by
  rintro ⟨ha, hs⟩
  rcases h with ⟨-, hs'⟩ | ⟨hr, -⟩
  · exact absurd (hs.unique hs') (by simp)
  · simp [(resume?_of_suspends hs ha).1] at hr

/-- A step that leaves a timer does not come to an armed device by chance. -/
theorem not_by_chance (h : z.Asks o delay) : ¬ (¬ z.Armed ∧ (z.step o).1.Armed) := by
  rintro ⟨hn, ha⟩
  rcases h with ⟨ha', -⟩ | ⟨hr, -⟩
  · exact hn ha'
  · exact hn (armed_of_resume?_isSome hr ha)

end Asks

/-- What the timer is when a turn has ended with a script that runs. -/
theorem timer_runFor {o : Office σ} {n : Nat} {y z : Station σ} (h : y.Ready)
    (hz : (visits o n y).getLast? = some z) (hs : (runFor o n y).slot.state = .scripting)
    (hb : (runFor o n y).ledger.broken = false) :
    (z.Armed ∧ z.Suspends o none ∧ (runFor o n y).slot.timer = .unset) ∨
      (¬ z.Armed ∧ (z.step o).1.Armed ∧ (runFor o n y).slot.timer = .unset) ∨
      ∃ delay, z.Asks o delay ∧ (runFor o n y).slot.timer = wakeTimer o (some delay) := by
  have hready : z.Ready := by
    rw [List.getLast?_eq_getElem?] at hz
    exact h.visit hz
  rw [runFor_of_getLast? hz] at hs hb ⊢
  cases hw : z.resume? o with
  | some w => exact .inr (.inr ⟨_, .inr ⟨by simp [hw], rfl⟩, rfl⟩)
  | none =>
      simp only [hw] at hs hb ⊢
      rcases timer_settle hready hw hs hb with ⟨ha, wake, hsus, ht⟩ | hjump
      · cases wake with
        | none => exact .inl ⟨ha, hsus, ht⟩
        | some delay => exact .inr (.inr ⟨delay, .inl ⟨ha, hsus⟩, ht⟩)
      · exact .inr (.inl hjump)

/-! ## the latest turn -/

/-- The latest operation that led to a turn. -/
def latest? (deeds : List (Deed σ)) : Option (Deed σ) := deeds.find? (·.turn?.isSome)

/-- The slot is as its latest turn left it, which was in order before. -/
structure Resting (deeds : List (Deed σ)) (x : Station σ) (d : Deed σ) (y z : Station σ) :
    Prop where
  latest : latest? deeds = some d
  orderly : d.before.Orderly
  begins : d.turn? = some y
  last : d.steps.getLast? = some z
  slot : x.slot = d.after.slot
  returned : d.after.ledger.broken = false

/-- An operation that leads to no turn, and leaves a script running, leaves the
slot as it was, unless it is about the timer only. -/
theorem slot_of_no_turn {o : Office σ} {x : Station σ} {op : Operation} (h : x.turn? o op = none)
    (hm : op.isManual = false) (hs : (x.perform o op).slot.state = .scripting) :
    x.slot.state = .scripting ∧ (x.perform o op).slot = x.slot := by
  cases op with
  | allocate setup =>
      simp only [turn?] at h
      simp only [perform, allocate] at hs ⊢
      split at h
      · contradiction
      · next y e ha =>
          simp only [ha] at hs ⊢
          obtain ⟨hstate, -, -, rfl | ⟨hidle, -⟩⟩ := accept_error ha
          · exact ⟨hs, rfl⟩
          · simp [hstate, hidle] at hs
  | post e =>
      simp only [perform] at hs ⊢
      have hpost := post_of_no_turn h hs
      rw [hpost] at hs ⊢
      exact ⟨hs, rfl⟩
  | expire now =>
      simp only [turn?] at h
      simp only [perform, expire] at hs ⊢
      split at h
      · next hd =>
          rw [if_pos hd] at hs ⊢
          have hpost := post_of_no_turn h hs
          rw [hpost] at hs
          have hrun : x.slot.state = .scripting := hs
          exact absurd h (by simp [eventTurn?, hrun])
      · next hd =>
          rw [if_neg hd] at hs ⊢
          exact ⟨hs, rfl⟩
  | arm delay => simp [Operation.isManual] at hm
  | disarm => simp [Operation.isManual] at hm

/-- A slot that runs a script is as its latest turn left it. -/
theorem Reach.resting {deeds : List (Deed σ)} {x : Station σ} (h : Reach deeds x)
    (hm : ∀ d ∈ deeds, d.operation.isManual = false) (hs : x.slot.state = .scripting) :
    ∃ d y z, Resting deeds x d y z := by
  induction h with
  | new id limits device hx hl => simp [hx, Slot.new] at hs
  | @perform deeds x o op hx ho hb ih =>
      cases hy : x.turn? o op with
      | some y =>
          obtain ⟨z, hz⟩ : ∃ z, (visits o o.engine.stepsPerTick y).getLast? = some z :=
            ⟨_, List.getLast?_eq_some_getLast (visits_ne_nil ho y)⟩
          refine ⟨⟨o, x, op⟩, y, z, ?_, hx.orderly, hy, ?_, rfl, hb⟩
          · simp [latest?, Deed.turn?, hy]
          · simpa [Deed.steps, Deed.turn?, hy] using hz
      | none =>
          obtain ⟨hscripting, hslot⟩ := slot_of_no_turn hy (hm _ List.mem_cons_self) hs
          obtain ⟨d, y, z, hd⟩ := ih (fun d hd => hm d (List.mem_cons_of_mem _ hd)) hscripting
          refine ⟨d, y, z, ?_, hd.orderly, hd.begins, hd.last, hslot.trans hd.slot, hd.returned⟩
          have hnone : Deed.turn? ⟨o, x, op⟩ = none := hy
          simpa [latest?, List.find?_cons, hnone] using hd.latest
  | others ledger _ _ ih =>
      obtain ⟨d, y, z, hd⟩ := ih hm hs
      exact ⟨d, y, z, hd.latest, hd.orderly, hd.begins, hd.last, hd.slot, hd.returned⟩

/-! ## scripts without a timer -/

theorem expiry?_wakeTimer (o : Office σ) (delay : Nanoseconds) :
    (wakeTimer o (some delay)).expiry? = none ↔
      Timer.deadline o.clock.now delay = Timer.never := by
  unfold Timer.expiry? wakeTimer
  dsimp only
  split
  · next h => simpa using h
  · next h => simpa using h

/-- After any history in which nobody touched the timer by hand, a script that
runs has no timer exactly in these cases: the last line that was executed is a
command that lets the script wait until something happens; or the device was not
armed for that line, and is armed for the next; or a timer was set for a time
that does not fit into a word.  The second case is that of a turn with one step
only, to which an operation led that was not prepared. -/
theorem no_timer_iff {deeds : List (Deed σ)} {x : Station σ} (hx : Reach deeds x)
    (hm : ∀ d ∈ deeds, d.operation.isManual = false) (hs : x.slot.state = .scripting) :
    ∃ d z, latest? deeds = some d ∧ d.steps.getLast? = some z ∧
      (x.slot.timer.expiry? = none ↔
        (z.Armed ∧ z.Suspends d.office none) ∨
        (¬ z.Armed ∧ (z.step d.office).1.Armed) ∨
        ∃ delay, z.Asks d.office delay ∧
          Timer.deadline d.office.clock.now delay = Timer.never) ∧
      (¬ z.Armed → d.steps = [z] ∧ ¬ Prepared d.office d.before d.operation) := by
  obtain ⟨d, y, z, hd⟩ := hx.resting hm hs
  have hy := hd.begins
  have hsteps : d.steps = visits d.office d.office.engine.stepsPerTick y := by
    simp [Deed.steps, hy]
  have hz := hd.last
  rw [hsteps] at hz
  have hafter : d.after = runFor d.office d.office.engine.stepsPerTick y :=
    perform_of_turn? hy
  refine ⟨d, z, hd.latest, hd.last, ?_, fun ha => ?_⟩
  · have hslot := hd.slot
    rw [hafter] at hslot
    have hrun := timer_runFor (hd.orderly.turn? hy) hz (hslot ▸ hs) (hafter ▸ hd.returned)
    rw [← hslot] at hrun
    rcases hrun with ⟨ha, hsus, ht⟩ | ⟨ha, hstep, ht⟩ | ⟨delay, hasks, ht⟩
    · simp [ht, Timer.unset, Timer.expiry?, ha, hsus]
    · simp [ht, Timer.unset, Timer.expiry?, ha, hstep]
    · rw [ht, expiry?_wakeTimer]
      constructor
      · exact fun hnever => .inr (.inr ⟨delay, hasks, hnever⟩)
      · rintro (hwait | hchance | ⟨other, hother, hnever⟩)
        · exact absurd hwait hasks.not_waiting
        · exact absurd hchance hasks.not_by_chance
        · rwa [hasks.unique hother]
  · rw [← hd.orderly.armed_iff hy]
    have hlast := hz
    rw [List.getLast?_eq_getElem?] at hlast
    have hfirst := mt (armed_visit_iff hlast).mpr ha
    refine ⟨?_, fun hp => hfirst (.inr hp)⟩
    obtain ⟨earlier, hall⟩ := List.getLast?_eq_some_iff.mp hd.last
    rw [← hsteps, hall, List.length_append, List.length_singleton] at hfirst
    have hnil : earlier = [] := List.eq_nil_of_length_eq_zero (by omega)
    simpa [hnil] using hall

/-- A script that goes from a header which needs something to one that does not. -/
def quietJump : Office Unit :=
  trialOffice [("log", 0), ("play", 1)]
    "@main\n  goto @quiet\n  play a\n@quiet\n  log hello\n  exit\n"

theorem no_timer_quiet_jump :
    let x := newStation.perform quietJump (.post .enable)
    let y := x.perform quietJump (.allocate trialCall)
    let deeds : List (Deed Unit) :=
      [⟨quietJump, x, .allocate trialCall⟩, ⟨quietJump, newStation, .post .enable⟩]
    y.slot.state = .scripting ∧ y.slot.timer.expiry? = none ∧
      ∃ d z, latest? deeds = some d ∧ d.steps.getLast? = some z ∧
        ((z.Armed ∧ z.Suspends d.office none) ∨ (¬ z.Armed ∧ (z.step d.office).1.Armed) ∨
          ∃ delay, z.Asks d.office delay ∧
            Timer.deadline d.office.clock.now delay = Timer.never) := by
  intro x y deeds
  have hreach : Reach deeds y :=
    .perform quietJump _ (reach_enable quietJump (by decide)) (by decide) (by decide +kernel)
  have hs : y.slot.state = .scripting := by decide +kernel
  have ht : y.slot.timer.expiry? = none := by decide +kernel
  obtain ⟨d, z, hd, hz, hiff, -⟩ := no_timer_iff hreach (by simp [deeds, Operation.isManual]) hs
  exact ⟨hs, ht, d, z, hd, hz, hiff.mp ht⟩

/-- Not every script without a timer waits because a command asked for it. -/
theorem jump_stalls :
    ¬ ∀ (deeds : List (Deed Unit)) (x : Station Unit), Reach deeds x →
      (∀ d ∈ deeds, d.operation.isManual = false) → x.slot.state = .scripting →
      x.slot.timer.expiry? = none →
      ∃ d z, latest? deeds = some d ∧ d.steps.getLast? = some z ∧ z.Suspends d.office none := by
  intro hall
  let x := newStation.perform quietJump (.post .enable)
  let y := (x.accept quietJump trialCall).1
  let d : Deed Unit := ⟨quietJump, x, .allocate trialCall⟩
  have hreach : Reach [d, ⟨quietJump, newStation, .post .enable⟩] d.after :=
    .perform quietJump _ (reach_enable quietJump (by decide)) (by decide) (by decide +kernel)
  obtain ⟨e, z, he, hz, command, args, hc, -⟩ := hall _ _ hreach (by simp [d, Operation.isManual])
    (by decide +kernel) (by decide +kernel)
  have hd : latest? [d, ⟨quietJump, newStation, .post .enable⟩] = some d :=
    List.find?_cons_of_pos (by decide +kernel)
  obtain rfl := Option.some.inj (hd.symm.trans he)
  have hy : d.steps.getLast? = some y := by decide +kernel
  obtain rfl := Option.some.inj (hy.symm.trans hz)
  have hnone : y.slot.interpreter.asked? = none := by decide +kernel
  exact absurd (hnone.symm.trans hc) (by simp)

end Switchboard.Station
