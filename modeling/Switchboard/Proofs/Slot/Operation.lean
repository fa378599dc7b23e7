import Switchboard.Proofs.Slot.Wiring

/-!
# Switchboard.Proofs.Slot.Operation

The operations on a slot.

1. An operation starts a call, posts an event, lets the timer run out, or sets
   the timer by hand.  `turn?` is the station at which its turn of the script
   begins, if it runs the script at all.
2. An operation that leads to a turn ends with it, and one that does not leaves
   a script that runs on as it was: `perform_of_turn?`, `post_of_no_turn`.
3. What comes of a call that is asked for is one of three things (`Accepted`).
   A call that begins has its script at the first line, and the device is as it
   was (`accept_ok`).  A call that is refused leaves the device alone.
-/

namespace Switchboard.Station

variable {σ : Type}

/-! ## operations -/

/-- What can be asked of a slot. -/
inductive Operation where
  | allocate (setup : CallSetup)
  | post (e : Event)
  | expire (now : Nat)
  | arm (delay : Nanoseconds)
  | disarm

/-- Whether an operation sets or unsets the timer and does nothing else. -/
def Operation.isManual : Operation → Bool
  | .arm _ | .disarm => true
  | _ => false

/-- Carry out an operation. -/
def perform (o : Office σ) (x : Station σ) : Operation → Station σ
  | .allocate setup => (x.allocate o setup).1
  | .post e => (x.post o e).1
  | .expire now => (x.expire o now).1
  | .arm delay => x.arm o delay
  | .disarm => x.disarm

/-- Where the turn begins that an event leads to. -/
def eventTurn? (x : Station σ) (e : Event) : Option (Station σ) :=
  if x.slot.state = .scripting then
    match e with
    | .timeout => some x
    | .signal name =>
      let (interpreter, taken) := x.slot.interpreter.trigger name
      if taken then some { x with slot := { x.slot with interpreter } } else none
    | _ => none
  else none

/-- Where the turn begins that an operation leads to. -/
def turn? (o : Office σ) (x : Station σ) : Operation → Option (Station σ)
  | .allocate setup => match x.accept o setup with
    | (y, .ok _) => some y
    | (_, .error _) => none
  | .post e => x.eventTurn? e
  | .expire now =>
    let (timer, due) := x.slot.timer.takeDue now
    if due then eventTurn? { x with slot := { x.slot with timer } } .timeout else none
  | .arm _ | .disarm => none

/-- An event that leads to a turn does nothing else. -/
theorem post_of_eventTurn? {o : Office σ} {x y : Station σ} {e : Event}
    (h : x.eventTurn? e = some y) : (x.post o e).1 = y.run o := by
  unfold eventTurn? at h
  split at h
  · next hs =>
      unfold post
      rw [hs]
      cases e with
      | timeout =>
          obtain rfl := Option.some.inj h
          rfl
      | signal name =>
          simp only [postScripting]
          cases ht : x.slot.interpreter.trigger name with
          | mk interpreter taken =>
              cases taken with
              | true =>
                  simp only [ht, if_true] at h ⊢
                  obtain rfl := Option.some.inj h
                  rfl
              | false => simp [ht] at h
      | enable | disable | drop | hangup | release | shutdown => contradiction
  · contradiction

/-- An operation that leads to a turn ends with it. -/
theorem perform_of_turn? {o : Office σ} {x y : Station σ} {op : Operation}
    (h : x.turn? o op = some y) : x.perform o op = y.run o := by
  cases op with
  | allocate setup =>
      simp only [turn?] at h
      simp only [perform, allocate]
      cases ha : x.accept o setup with
      | mk z answer =>
          rw [ha] at h
          cases answer with
          | ok n =>
              obtain rfl := Option.some.inj h
              rfl
          | error e => contradiction
  | post e => exact post_of_eventTurn? h
  | expire now =>
      simp only [turn?] at h
      simp only [perform, expire]
      split at h
      · next hd =>
          rw [if_pos hd]
          exact post_of_eventTurn? h
      · contradiction
  | arm delay => contradiction
  | disarm => contradiction

/-- An event that leads to no turn leaves a slot alone whose script runs on. -/
theorem post_of_no_turn {o : Office σ} {x : Station σ} {e : Event}
    (h : x.eventTurn? e = none) (hs : (x.post o e).1.slot.state = .scripting) :
    (x.post o e).1 = x := by
  unfold post at hs ⊢
  cases hx : x.slot.state with
  | offline => cases e <;> simp_all [postOffline, setState]
  | idle => cases e <;> simp_all [postIdle, setState]
  | releasing =>
      rw [hx] at hs
      cases e <;> simp_all [postReleasing, state_finish]
  | scripting =>
      rw [hx] at hs
      unfold eventTurn? at h
      rw [if_pos hx] at h
      cases e with
      | timeout => contradiction
      | signal name =>
          simp only [postScripting] at hs ⊢
          dsimp only at h
          split at h
          · contradiction
          · next hf => rw [if_neg hf]
      | drop | hangup => simp [postScripting, beginRelease, arm, setState] at hs
      | disable | shutdown => simp [postScripting, state_finish] at hs
      | enable | release => rfl

/-! ## a call begins -/

/-- The first symbols of a script change nothing else. -/
theorem seed_eq {s t : Interpreter} {pairs : List (String × String)}
    (h : seed s pairs = .ok t) : t = { s with symbols := t.symbols } := by
  induction pairs generalizing s with
  | nil =>
      obtain rfl := Except.ok.inj h
      rfl
  | cons pair rest ih =>
      obtain ⟨name, value⟩ := pair
      simp only [seed, Interpreter.setSymbol, bind, Except.bind, Except.map] at h
      cases ha : s.symbols.assign none name value with
      | error fault => simp [ha] at h
      | ok symbols =>
          simp only [ha] at h
          simpa using ih h

/-- The call that a slot is to carry. -/
def called (o : Office σ) (setup : CallSetup) (x : Station σ) : Call :=
  newCall o setup (setup.cid.getD (o.identities x.ledger.identities)) (setup.script.getD o.entry)
    (x.slot.sequence + 1)

/-- The station after a call has been entered, whose script is `s`. -/
def entered (o : Office σ) (setup : CallSetup) (x : Station σ) (s : Interpreter) : Station σ :=
  let c := called o setup x
  let slot := { x.slot with sequence := x.slot.sequence + 1, interpreter := s, call := some c }
  ((book c ⟨slot, (x.ledger.identify setup.cid)⟩).setState .scripting).record o .start

@[simp] theorem slot_entered (o : Office σ) (setup : CallSetup) (x : Station σ)
    (s : Interpreter) : (x.entered o setup s).slot = { x.slot with
      state := .scripting
      sequence := x.slot.sequence + 1
      interpreter := s
      call := some (called o setup x) } := by
  rw [entered, slot_record]
  rfl

@[simp] theorem wiring_entered (o : Office σ) (setup : CallSetup) (x : Station σ)
    (s : Interpreter) : (x.entered o setup s).wiring = x.wiring := by
  rw [entered, wiring_record]
  cases setup.cid <;> rfl

/-- What comes of a call that is asked for. -/
inductive Accepted (o : Office σ) (setup : CallSetup) (x : Station σ) :
    Station σ × Except Error Nat → Prop
  /-- Nothing, since the slot is not free or its script is not there. -/
  | refused (e : Error) : Accepted o setup x (x, .error e)
  /-- Its data does not fit, so its script is let go again. -/
  | unseeded (s : Interpreter) (fault : Fault) : x.slot.state = .idle →
      Accepted o setup x
        (⟨{ x.slot with sequence := x.slot.sequence + 1, interpreter := s.detach },
          (x.ledger.identify setup.cid)⟩, .error (.script fault))
  | begun (s t : Interpreter) : x.slot.state = .idle →
      x.slot.interpreter.attach o.scripts.image (some (setup.script.getD o.entry)) = (s, true) →
      seed s (seeds x.slot.id (called o setup x)) = .ok t →
      Accepted o setup x (x.entered o setup t, .ok (x.slot.sequence + 1))

theorem accepted (o : Office σ) (setup : CallSetup) (x : Station σ) :
    Accepted o setup x (x.accept o setup) := by
  unfold accept
  split
  · exact .refused _
  · next hidle =>
      have hidle : x.slot.state = .idle := by simpa using hidle
      dsimp only
      cases ha : x.slot.interpreter.attach o.scripts.image (some (setup.script.getD o.entry)) with
      | mk s found =>
          cases found with
          | false => exact .refused _
          | true =>
              simp only [Bool.not_true, Bool.false_eq_true, if_false]
              split
              · next fault _ => exact .unseeded s fault hidle
              · next t ht => exact .begun s t hidle ha ht

/-- A station whose script runs, whatever its device is armed with. -/
structure Ready (x : Station σ) : Prop where
  sound : x.slot.interpreter.Sound
  booked : x.Booked
  scripting : x.slot.state = .scripting
  running : x.slot.interpreter.isRunning = true

/-- A call that begins finds its script at the first line of its entry, and the
device as it was. -/
theorem accept_ok {o : Office σ} {setup : CallSetup} {x y : Station σ} {n : Nat}
    (hs : x.slot.interpreter.Sound) (hb : x.Booked) (h : x.accept o setup = (y, .ok n)) :
    x.slot.state = .idle ∧ y.Ready ∧ y.slot.armedMask = x.slot.armedMask ∧
      ∃ i, o.scripts.image.indexOf? (setup.script.getD o.entry) = some i ∧
        y.needs = o.scripts.image.maskAt i := by
  have hcases := accepted o setup x
  rw [h] at hcases
  cases hcases with
  | begun s t hidle hattach hseed =>
      cases hi : o.scripts.image.indexOf? (setup.script.getD o.entry) with
      | none => simp [Interpreter.attach, hi] at hattach
      | some i =>
          obtain rfl : (x.slot.interpreter.attach o.scripts.image
              (some (setup.script.getD o.entry))).1 = s := congrArg Prod.fst hattach
          have hframes : (x.slot.interpreter.attach o.scripts.image
              (some (setup.script.getD o.entry))).1.frames = _ := hs.frames_attach hi
          have hsound := hs.attach o.scripts.image (some (setup.script.getD o.entry))
          have heq := seed_eq hseed
          have ht : t.Sound := heq ▸ hsound.withSymbols _
          have hneeds : t.mask = o.scripts.image.maskAt i := by
            rw [heq]
            simp [Interpreter.mask, Interpreter.top?, hframes, Frame.base]
          have hrun : t.isRunning = true := by
            rw [heq]
            simp [Interpreter.attach, hi, Interpreter.isRunning]
          refine ⟨hidle, ⟨?_, hb.of_wiring (wiring_entered o setup x t), ?_, ?_⟩, ?_, i, rfl, ?_⟩
          · simpa using ht
          · simp
          · simpa using hrun
          · simp
          · simpa [needs] using hneeds

/-- A call that is refused leaves the script that is there, or none, and the
device as it was. -/
theorem accept_error {o : Office σ} {setup : CallSetup} {x y : Station σ} {e : Error}
    (h : x.accept o setup = (y, .error e)) :
    y.slot.state = x.slot.state ∧ y.wiring = x.wiring ∧ y.slot.timer = x.slot.timer ∧
      (y = x ∨ x.slot.state = .idle ∧ ∃ s : Interpreter, y.slot.interpreter = s.detach) := by
  have hcases := accepted o setup x
  rw [h] at hcases
  cases hcases with
  | refused => exact ⟨rfl, rfl, rfl, .inl rfl⟩
  | unseeded s fault hidle =>
      refine ⟨rfl, ?_, rfl, .inr ⟨hidle, s, rfl⟩⟩
      cases setup.cid <;> rfl

end Switchboard.Station
