import Switchboard.Proofs.Slot.Operation

/-!
# Switchboard.Proofs.Slot.History

What holds on a slot after any sequence of operations.

1. `Reach deeds x` says that the slot of `x` came out of a new one by the
   operations `deeds`, the latest first, all of which returned.  The office may
   be another one each time, and between two operations the other slots may do
   to the books whatever they like, except give orders to this slot's device.
2. `Orderly` is the invariant: a script that waits has its device armed with
   what it needs, and a slot without a call has its device armed with nothing.
   A turn ends in it wherever it begins (`Ready.runFor`), and so does every
   operation (`Orderly.perform`).
-/

namespace Switchboard.Station

variable {σ : Type}

/-! ## histories -/

/-- An operation that was carried out: the office, the station before it, and
the operation. -/
structure Deed (σ : Type) where
  office : Office σ
  before : Station σ
  operation : Operation

namespace Deed

/-- What an operation left. -/
def after (d : Deed σ) : Station σ := d.before.perform d.office d.operation

/-- Where the turn began that an operation led to. -/
def turn? (d : Deed σ) : Option (Station σ) := d.before.turn? d.office d.operation

/-- The steps taken in that turn. -/
def steps (d : Deed σ) : List (Station σ) :=
  match d.turn? with
  | some y => visits d.office d.office.engine.stepsPerTick y
  | none => []

end Deed

/-- The slot of a station came out of a new one by a sequence of operations. -/
inductive Reach : List (Deed σ) → Station σ → Prop
  | new {x : Station σ} (id : SlotId) (limits : Limits) (device : σ) :
      x.slot = .new id limits device → x.ledger.ordersOf id = [] → Reach [] x
  | perform {deeds : List (Deed σ)} {x : Station σ} (o : Office σ) (op : Operation) :
      Reach deeds x → 0 < o.engine.stepsPerTick → (x.perform o op).ledger.broken = false →
      Reach (⟨o, x, op⟩ :: deeds) (x.perform o op)
  | others {deeds : List (Deed σ)} {x : Station σ} (ledger : Ledger) :
      Reach deeds x → ledger.ordersOf x.slot.id = x.ledger.ordersOf x.slot.id →
      Reach deeds { x with ledger }

/-! ## the invariant -/

/-- How a slot, its script and its device go together between operations. -/
structure Orderly (x : Station σ) : Prop where
  sound : x.slot.interpreter.Sound
  booked : x.Booked
  vacant : x.slot.state = .offline ∨ x.slot.state = .idle → x.slot.armedMask = 0
  waiting : x.slot.state = .scripting → x.slot.interpreter.isRunning = true ∧ x.Armed

/-- An operation calls for no other resources than those that the device is armed
with: the entry of a call needs nothing, or the handler of a signal what was
needed before. -/
def Prepared (o : Office σ) (x : Station σ) : Operation → Prop
  | .allocate setup =>
    ∀ i, o.scripts.image.indexOf? (setup.script.getD o.entry) = some i →
      o.scripts.image.maskAt i = 0
  | .post (.signal name) => (x.slot.interpreter.trigger name).1.mask = x.needs
  | _ => True

/-- The timer has no part in the order of a slot. -/
theorem Orderly.arm {x : Station σ} (h : x.Orderly) (o : Office σ) (delay : Nanoseconds) :
    (x.arm o delay).Orderly :=
  ⟨h.sound, h.booked.of_wiring (wiring_arm o delay x), h.vacant, h.waiting⟩

namespace Ready

/-- A script that runs with an armed device is in order. -/
theorem orderly {x : Station σ} (h : x.Ready) (ha : x.Armed) : x.Orderly := by
  refine ⟨h.sound, h.booked, ?_, fun _ => ⟨h.running, ha⟩⟩
  rintro (hs | hs) <;> exact absurd (h.scripting.symm.trans hs) (by simp)

/-- A turn goes on with a script that runs. -/
theorem resume? {o : Office σ} {x y : Station σ} (h : x.Ready) (hy : x.resume? o = some y) :
    y.Ready := by
  have hint := interpreter_of_resume? hy
  have hrun := (armed_of_resume? hy).1
  have hsound : y.slot.interpreter.Sound := by
    rw [hint, slot_step]
    exact h.sound.step _ _
  obtain ⟨_, _, ⟨_, rfl⟩ | ⟨_, _, rfl⟩⟩ := resume?_eq_some hy
  · exact ⟨hsound, .armDevice o _ _, h.scripting, hrun⟩
  · exact ⟨hsound, h.booked.step o, h.scripting, hrun⟩

/-- A script runs at every step of a turn that begins with one. -/
theorem visit {o : Office σ} {n k : Nat} {y z : Station σ} (h : y.Ready)
    (hz : (visits o n y)[k]? = some z) : z.Ready :=
  visits_induction (fun _ _ hx hy => hx.resume? hy) h hz

/-- A step that ends a turn leaves a slot in order. -/
theorem settle {o : Office σ} {x : Station σ} (h : x.Ready) (hn : x.resume? o = none)
    (hb : (x.settle o).ledger.broken = false) : (x.settle o).Orderly := by
  have hsound : (x.step o).1.slot.interpreter.Sound := by
    rw [slot_step]
    exact h.sound.step _ _
  have hbooked := h.booked.step o
  unfold Station.settle at hb ⊢
  dsimp only at hb ⊢
  split at hb
  · simp [breakOff] at hb
  · next hbroke =>
      rw [if_neg hbroke]
      split
      · refine ⟨hsound, ?_, ?_, ?_⟩
        · exact (hbooked.hangUp o).of_wiring (by simp [endCall])
        · simp [endCall, beginRelease, arm, setState]
        · simp [endCall, beginRelease, arm, setState]
      · next hrun =>
          have harmed : (x.step o).1.Armed := by
            rcases resume?_eq_none hn with h | h | h
            · exact absurd h hbroke
            · simp [h] at hrun
            · exact h.1
          have hs : (x.step o).1.slot.state = .scripting := h.scripting
          refine ⟨?_, hbooked.of_wiring (by simp), ?_, ?_⟩
          · cases (x.step o).2.wake <;> exact hsound
          · cases (x.step o).2.wake <;> simp [await, arm, disarm, hs]
          · intro _
            have hr : (x.step o).1.slot.interpreter.isRunning = true := by simpa using hrun
            cases (x.step o).2.wake <;> exact ⟨hr, harmed⟩

/-- A turn leaves a slot in order, unless it takes no step with a device that is
not armed. -/
theorem runFor {o : Office σ} {n : Nat} {x : Station σ} (h : x.Ready) (ha : x.Armed ∨ 0 < n)
    (hb : (runFor o n x).ledger.broken = false) : (runFor o n x).Orderly := by
  induction n generalizing x with
  | zero =>
      have harmed : x.Armed := ha.resolve_right (Nat.lt_irrefl 0)
      rw [Station.runFor]
      exact (h.orderly harmed).arm o _
  | succ n ih =>
      rw [runFor_succ] at hb ⊢
      cases hy : x.resume? o with
      | none =>
          simp only [hy] at hb ⊢
          exact h.settle hy hb
      | some y =>
          simp only [hy] at hb ⊢
          exact ih (h.resume? hy) (.inl (armed_of_resume? hy).2) hb

end Ready

namespace Orderly

/-- Everything at rest is in order if its script is sound and the note about its
device right. -/
theorem at_rest {x : Station σ} (hs : x.slot.interpreter.Sound) (hb : x.Booked)
    (hm : x.slot.armedMask = 0 ∨ x.slot.state = .releasing) (hn : x.slot.state ≠ .scripting) :
    x.Orderly := by
  refine ⟨hs, hb, fun h => hm.resolve_right ?_, fun h => absurd h hn⟩
  rcases h with h | h <;> simp [h]

/-- The end of a call leaves a slot in order. -/
theorem finish {x : Station σ} (h : x.Booked) (o : Office σ) (next : SlotState)
    (hn : next ≠ .scripting) : (x.finish o next).Orderly := by
  obtain ⟨hb, hm⟩ := h.finish o next
  refine at_rest ?_ hb (.inl hm) (by rwa [state_finish])
  rw [interpreter_finish]
  exact .detach _

/-- A timer that has run out has no part in it either. -/
theorem withTimer {x : Station σ} (h : x.Orderly) (timer : Timer) :
    Orderly { x with slot := { x.slot with timer } } :=
  ⟨h.sound, h.booked, h.vacant, h.waiting⟩

/-- Where a turn begins, a script runs.  If it is the turn of a timeout, the device
is armed with what the script needs. -/
theorem eventTurn? {x y : Station σ} {e : Event} (h : x.Orderly)
    (hy : x.eventTurn? e = some y) :
    y.Ready ∧ y.slot.armedMask = x.needs ∧ (e = .timeout → y.Armed) := by
  unfold Station.eventTurn? at hy
  split at hy
  · next hs =>
      obtain ⟨hrun, harmed⟩ := h.waiting hs
      split at hy
      · obtain rfl := Option.some.inj hy
        exact ⟨⟨h.sound, h.booked, hs, hrun⟩, harmed, fun _ => harmed⟩
      · next name =>
          dsimp only at hy
          split at hy
          · obtain rfl := Option.some.inj hy
            refine ⟨⟨h.sound.trigger name, h.booked, hs, ?_⟩, harmed, by simp⟩
            simpa [Interpreter.isRunning] using hrun
          · contradiction
      · contradiction
  · contradiction

/-- Where a turn begins, a script runs. -/
theorem turn? {o : Office σ} {op : Operation} {x y : Station σ} (h : x.Orderly)
    (hy : x.turn? o op = some y) : y.Ready := by
  cases op with
  | allocate setup =>
      simp only [Station.turn?] at hy
      split at hy
      · next z n ha =>
          obtain rfl := Option.some.inj hy
          exact (accept_ok h.sound h.booked ha).2.1
      · contradiction
  | post e => exact (h.eventTurn? hy).1
  | expire now =>
      simp only [Station.turn?] at hy
      split at hy
      · exact ((h.withTimer _).eventTurn? hy).1
      · contradiction
  | arm delay => contradiction
  | disarm => contradiction

/-- A turn begins with an armed device exactly if the operation was prepared. -/
theorem armed_iff {o : Office σ} {op : Operation} {x y : Station σ} (h : x.Orderly)
    (hy : x.turn? o op = some y) : y.Armed ↔ Prepared o x op := by
  cases op with
  | allocate setup =>
      simp only [Station.turn?] at hy
      split at hy
      · next z n ha =>
          obtain rfl := Option.some.inj hy
          obtain ⟨hidle, -, hm, i, hi, hneeds⟩ := accept_ok h.sound h.booked ha
          unfold Armed Prepared
          rw [hm, h.vacant (.inr hidle), hneeds]
          refine ⟨fun he j hj => ?_, fun he => (he i hi).symm⟩
          obtain rfl := Option.some.inj (hi.symm.trans hj)
          exact he.symm
      · contradiction
  | post e =>
      obtain ⟨-, hm, htimeout⟩ := h.eventTurn? hy
      cases e with
      | timeout => simp [Prepared, htimeout]
      | signal name =>
          have hint : y.slot.interpreter = (x.slot.interpreter.trigger name).1 := by
            simp only [Station.turn?, Station.eventTurn?] at hy
            split at hy
            · split at hy
              · rw [← Option.some.inj hy]
              · contradiction
            · contradiction
          unfold Armed Prepared
          rw [hm, show y.needs = (x.slot.interpreter.trigger name).1.mask from
            congrArg Interpreter.mask hint]
          exact eq_comm
      | enable | disable | drop | hangup | release | shutdown =>
          simp [Station.turn?, Station.eventTurn?] at hy
  | expire now =>
      simp only [Station.turn?] at hy
      split at hy
      · simp [Prepared, ((h.withTimer _).eventTurn? hy).2.2]
      · contradiction
  | arm delay => contradiction
  | disarm => contradiction

/-- An event that leads to no turn leaves a slot in order. -/
theorem post {o : Office σ} {e : Event} {x : Station σ} (h : x.Orderly)
    (hn : x.eventTurn? e = none) : (x.post o e).1.Orderly := by
  by_cases hs : (x.post o e).1.slot.state = .scripting
  · rwa [post_of_no_turn hn hs]
  · unfold Station.post at hs ⊢
    cases hx : x.slot.state with
    | offline =>
        have hm := h.vacant (.inl hx)
        cases e with
        | enable => exact at_rest h.sound h.booked (.inl hm) (by simp [postOffline, setState])
        | shutdown | timeout | disable | drop | hangup | release | signal => exact h
    | idle =>
        have hm := h.vacant (.inr hx)
        cases e with
        | disable | shutdown =>
            exact at_rest h.sound h.booked (.inl hm) (by simp [postIdle, setState])
        | enable | timeout | drop | hangup | release | signal => exact h
    | scripting =>
        simp only [hx] at hs ⊢
        cases e with
        | timeout => simp [Station.eventTurn?, hx] at hn
        | signal name =>
            simp only [Station.eventTurn?, hx, if_true] at hn
            simp only [postScripting] at hs ⊢
            split at hn
            · contradiction
            · next ht => simpa [ht] using h
        | drop | hangup =>
            refine at_rest h.sound ((h.booked.disconnect o).of_wiring (by simp [postScripting]))
              (.inr ?_) hs
            simp [postScripting, beginRelease, Station.arm, setState]
        | disable | shutdown =>
            exact finish ((h.booked.hangUp o).of_wiring (wiring_setReason _ _)) o .offline (by simp)
        | enable | release => exact h
    | releasing =>
        cases e with
        | release | timeout => exact finish h.booked o .idle (by simp)
        | disable | shutdown => exact finish h.booked o .offline (by simp)
        | drop | hangup | enable | signal => exact h

/-- Every operation that returns leaves a slot in order. -/
theorem perform {o : Office σ} {x : Station σ} (h : x.Orderly) (op : Operation)
    (ho : 0 < o.engine.stepsPerTick) (hb : (x.perform o op).ledger.broken = false) :
    (x.perform o op).Orderly := by
  cases hy : x.turn? o op with
  | some y =>
      rw [perform_of_turn? hy] at hb ⊢
      exact (h.turn? hy).runFor (.inr ho) hb
  | none =>
      cases op with
      | allocate setup =>
          simp only [Station.turn?] at hy
          simp only [Station.perform, allocate]
          split at hy
          · contradiction
          · next y e ha =>
              obtain ⟨hs, hw, -, rfl | ⟨hidle, s, hd⟩⟩ := accept_error ha
              · simpa [ha] using h
              · simp only [ha]
                refine at_rest (hd ▸ .detach s) (h.booked.of_wiring hw) (.inl ?_)
                  (by simp [hs, hidle])
                exact (congrArg (·.2.1) hw).trans (h.vacant (.inr hidle))
      | post e => exact h.post hy
      | expire now =>
          simp only [Station.turn?] at hy
          simp only [Station.perform, expire]
          split at hy
          · next hd =>
              rw [if_pos hd]
              exact (h.withTimer _).post hy
          · next hd =>
              rw [if_neg hd]
              exact h
      | arm delay => exact h.arm o delay
      | disarm => exact h.withTimer .unset

end Orderly

/-- Operations leave a slot in order. -/
theorem Reach.orderly {deeds : List (Deed σ)} {x : Station σ} (h : Reach deeds x) :
    x.Orderly := by
  induction h with
  | new id limits device hx hl =>
      refine .at_rest ?_ ?_ (.inl ?_) ?_
      · rw [hx]
        exact .new limits
      · rw [Booked, hx, show (Slot.new id limits device).id = id from rfl, hl]
        rfl
      · rw [hx]
        rfl
      · rw [hx]
        simp [Slot.new]
  | perform o op _ ho hb ih => exact ih.perform op ho hb
  | others ledger _ hl ih =>
      refine ⟨ih.sound, ?_, ih.vacant, ih.waiting⟩
      rw [Booked, hl]
      exact ih.booked

/-! ## a slot to look at -/

/-- An office with one script, and with devices that do what they are told at once. -/
def trialOffice (commands : Commands) (script : String) : Office Unit where
  engine := ⟨20, 100, 500, 32, 256, 64, 2⟩
  entry := "main"
  scripts := ⟨(compile commands [("main", script)]).image, [], 1⟩
  adapter := ⟨fun _ w => w, id, id, fun _ _ w => (some .proceed, w)⟩
  clock := ⟨0, ⟨⟨2000, 1, 1⟩, 0, 0, 0, 0⟩, ⟨⟨2000, 1, 1⟩, 0, 0⟩⟩
  identities := toString

/-- A new slot, with empty books. -/
def newStation : Station Unit := ⟨.new 0 .default (), .new ⟨[], 1⟩ 1⟩

/-- A call for the first header. -/
def trialCall : CallSetup := ⟨some "c", "1", "2", none, none, none⟩

/-- A new slot in service. -/
theorem reach_enable (o : Office Unit) (ho : 0 < o.engine.stepsPerTick) :
    Reach [⟨o, newStation, .post .enable⟩] (newStation.perform o (.post .enable)) :=
  .perform o _ (.new 0 .default () rfl rfl) ho rfl

end Switchboard.Station
