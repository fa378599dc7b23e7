import Switchboard.Proofs.Slot.Lifecycle

/-!
# Switchboard.Proofs.Slot.Standing

Where a slot and its call stand in the books.

1. `Standing` is all that other slots and clients can tell about a slot: its
   state, the identity of its call, and the books that it shares with them.
   A turn of the script changes nothing in it but that the call may be over
   (`standing_runFor`).
2. What an event makes of a standing is one of six things (`Posted`).
3. A call that begins is entered, and one that is refused leaves the standing
   as it was (`standing_allocate`).
-/

namespace Switchboard

/-- The state of a slot, the identity of its call, and the shared books. -/
structure Standing where
  slot : SlotId
  state : SlotState
  cid : Option String
  calls : List (String × SlotId)
  segments : Segments
  idle : IdlePool
  reservations : Reservations

namespace Standing

/-- The slot is free, and listed as such. -/
def freed (s : Standing) : Standing :=
  { s with state := .idle, idle := (s.idle.insert s.slot).1 }

/-- The slot is struck off the lists of free and reserved slots. -/
def unlisted (s : Standing) : Standing :=
  { s with
    idle := (s.idle.remove s.slot).1
    reservations := s.reservations.release s.slot }

/-- The call is struck out. -/
def struck (s : Standing) (cid : String) : Standing :=
  { s with
    cid := none
    calls := s.calls.filter (·.1 != cid)
    segments := s.segments.callEnded s.slot }

/-- A call is entered. -/
def entered (s : Standing) (cid : String) : Standing :=
  { s.unlisted with
    cid := some cid
    calls := (cid, s.slot) :: s.calls.filter (·.1 != cid)
    segments := s.segments.callStarted s.slot }

/-- What an event makes of a standing. -/
inductive Posted (s t : Standing) : Prop
  | kept : t = s → Posted s t
  /-- The call is over, and still on its slot. -/
  | ended : s.state = .scripting → t = { s with state := .releasing } → Posted s t
  | enabled : s.state = .offline → s.cid = none → t = s.freed → Posted s t
  | disabled : s.state = .idle → s.cid = none → t = { s.unlisted with state := .offline } →
      Posted s t
  /-- The slot is taken out of service with its call. -/
  | broken (cid : String) : s.cid = some cid → t = { s.struck cid with state := .offline } →
      Posted s t
  | released (cid : String) : s.cid = some cid → t = (s.struck cid).freed → Posted s t

end Standing

namespace Station

variable {σ : Type} {o : Office σ} {x y : Station σ}

/-- Where the slot of a station stands. -/
def standing (x : Station σ) : Standing where
  slot := x.slot.id
  state := x.slot.state
  cid := x.slot.call.map (·.cid)
  calls := x.ledger.calls
  segments := x.ledger.segments
  idle := x.ledger.idle
  reservations := x.ledger.reservations

/-! ## work that leaves the books alone -/

/-- A call of the adapter leaves every standing alone. -/
theorem standing_call (s : Slot σ) (l : Ledger) (w : Worker) :
    standing ⟨s, l.call w⟩ = standing ⟨s, l⟩ := by
  unfold Ledger.call
  split <;> rfl

/-- A record that is handed over leaves every standing alone. -/
theorem standing_submit (s : Slot σ) (l : Ledger) (r : CallRecord) :
    standing ⟨s, l.submit r⟩ = standing ⟨s, l⟩ := by
  unfold Ledger.submit
  dsimp only
  split
  · exact standing_call s _ _
  · rfl

@[simp] theorem standing_arm (o : Office σ) (delay : Nanoseconds) (x : Station σ) :
    (x.arm o delay).standing = x.standing := standing_call _ _ _

@[simp] theorem standing_disarm (x : Station σ) : x.disarm.standing = x.standing := rfl

@[simp] theorem standing_await (o : Office σ) (wake : Option Nanoseconds) (x : Station σ) :
    (x.await o wake).standing = x.standing := by
  cases wake with
  | none => rfl
  | some delay => exact standing_arm o delay x

@[simp] theorem standing_armDevice (o : Office σ) (mask : Mask) (x : Station σ) :
    (x.armDevice o mask).standing = x.standing := rfl

@[simp] theorem standing_hangUp (o : Office σ) (x : Station σ) :
    (x.hangUp o).standing = x.standing := rfl

@[simp] theorem standing_disconnect (o : Office σ) (x : Station σ) :
    (x.disconnect o).standing = x.standing := rfl

@[simp] theorem standing_setState (state : SlotState) (x : Station σ) :
    (x.setState state).standing = { x.standing with state } := rfl

@[simp] theorem standing_setReason (reason : String) (x : Station σ) :
    (x.setReason reason).standing = x.standing := by
  unfold setReason standing
  cases x.slot.call <;> rfl

@[simp] theorem standing_detach (x : Station σ) : x.detach.standing = x.standing := rfl

@[simp] theorem standing_breakOff (x : Station σ) : x.breakOff.standing = x.standing := rfl

@[simp] theorem standing_beginRelease (o : Office σ) (reason : String) (x : Station σ) :
    (x.beginRelease o reason).standing = { x.standing with state := .releasing } := by
  simp [beginRelease]

@[simp] theorem standing_record (o : Office σ) (kind : RecordKind) (x : Station σ) :
    (x.record o kind).standing = x.standing := by
  unfold record
  split
  · rfl
  · exact standing_submit _ _ _

@[simp] theorem standing_step (o : Office σ) (x : Station σ) :
    (x.step o).1.standing = x.standing := by
  unfold step
  dsimp only
  split <;> rfl

/-- A call that resumes stands where it stood. -/
theorem standing_resume? (h : x.resume? o = some y) : y.standing = x.standing := by
  obtain ⟨-, -, ⟨-, rfl⟩ | ⟨-, -, rfl⟩⟩ := resume?_eq_some h <;> simp

/-- A step that has ended leaves the slot where it stands, or in release. -/
theorem standing_settle (o : Office σ) (x : Station σ) :
    (x.settle o).standing = x.standing ∨
      (x.settle o).standing = { x.standing with state := .releasing } := by
  unfold settle
  dsimp only
  split
  · exact .inl (by simp)
  · split
    · exact .inr (by simp [endCall])
    · exact .inl (by simp)

/-- A turn leaves the books alone, though the call may be over. -/
theorem standing_runFor (o : Office σ) (n : Nat) (x : Station σ) :
    (runFor o n x).standing = x.standing ∨
      (runFor o n x).standing = { x.standing with state := .releasing } := by
  induction n generalizing x with
  | zero => exact .inl (standing_arm o _ x)
  | succ n ih =>
      rw [runFor_succ]
      split
      · next y hy =>
          rw [← standing_resume? hy]
          exact ih y
      · exact standing_settle o x

/-! ## the end of a call -/

/-- A call that is dropped is struck out. -/
theorem standing_dropCall {cid : String} (h : x.standing.cid = some cid) :
    x.dropCall.standing = x.standing.struck cid := by
  obtain ⟨c, hc, rfl⟩ := Option.map_eq_some_iff.mp h
  unfold dropCall
  rw [hc]
  rfl

/-- A call that ends is struck out, and its slot may be free. -/
theorem standing_finish (o : Office σ) (next : SlotState) {cid : String}
    (h : x.standing.cid = some cid) :
    (x.finish o next).standing = if next = .idle then (x.standing.struck cid).freed
      else { x.standing.struck cid with state := next } := by
  have hrecorded : (x.disarm.record o .stop).standing.cid = some cid := by simpa using h
  have hended : (((x.disarm.record o .stop).dropCall).detach).standing =
      x.standing.struck cid := by
    rw [standing_detach, standing_dropCall hrecorded]
    simp
  unfold finish
  dsimp only
  generalize (((x.disarm.record o .stop).dropCall).detach) = y at hended
  have hunarmed : (if y.slot.armedMask != 0 then y.armDevice o 0 else y).standing =
      x.standing.struck cid := by
    split <;> exact hended
  generalize (if y.slot.armedMask != 0 then y.armDevice o 0 else y) = z at hunarmed
  split
  · next hnext =>
      subst hnext
      rw [← hunarmed]
      unfold listIdle
      dsimp only
      split <;> rfl
  · rw [standing_setState, hunarmed]

/-! ## events -/

/-- A turn of the script leaves the call on its slot. -/
theorem posted_run (o : Office σ) (hs : x.slot.state = .scripting) :
    Standing.Posted x.standing (x.run o).standing := by
  rcases standing_runFor o o.engine.stepsPerTick x with h | h
  · exact .kept h
  · exact .ended hs h

/-- A slot that is not in use carries no call. -/
theorem Lawful.cid_eq_none (h : x.Lawful) (hs : x.slot.state = .offline ∨ x.slot.state = .idle) :
    x.standing.cid = none := by
  have hcall : x.slot.call = none := by
    rcases hs with hs | hs
    · exact (h.law.offline hs).1.call
    · exact (h.law.idle hs).1.call
  simp [standing, hcall]

/-- A slot in use carries a call. -/
theorem Lawful.cid_eq_some (h : x.Lawful)
    (hs : x.slot.state = .scripting ∨ x.slot.state = .releasing) :
    ∃ cid, x.standing.cid = some cid := by
  have hcall : x.slot.call.isSome := by
    rcases hs with hs | hs
    · exact (h.law.scripting hs).1
    · exact (h.law.releasing hs).1
  obtain ⟨c, hc⟩ := Option.isSome_iff_exists.mp hcall
  exact ⟨c.cid, by simp [standing, hc]⟩

/-- What an event makes of a slot that runs a script. -/
theorem Lawful.posted_scripting (h : x.Lawful) (hs : x.slot.state = .scripting) (o : Office σ)
    (e : Event) : Standing.Posted x.standing (x.postScripting o e).1.standing := by
  obtain ⟨cid, hcid⟩ := h.cid_eq_some (.inl hs)
  cases e with
  | timeout => exact posted_run o hs
  | signal name =>
      unfold Station.postScripting
      dsimp only
      split
      · exact posted_run (x := ⟨{ x.slot with
          interpreter := (x.slot.interpreter.trigger name).1 }, x.ledger⟩) o hs
      · exact .kept rfl
  | drop | hangup => exact .ended hs (by simp [Station.postScripting])
  | disable | shutdown =>
      have hhung : ∀ reason, ((x.hangUp o).setReason reason).standing.cid = some cid := by
        simpa using hcid
      refine .broken cid hcid ?_
      rw [Station.postScripting, standing_finish o .offline (hhung _)]
      simp
  | enable | release => exact .kept rfl

/-- What an event makes of a slot in release. -/
theorem Lawful.posted_releasing (h : x.Lawful) (hs : x.slot.state = .releasing) (o : Office σ)
    (e : Event) : Standing.Posted x.standing (x.postReleasing o e).1.standing := by
  obtain ⟨cid, hcid⟩ := h.cid_eq_some (.inr hs)
  cases e with
  | release | timeout =>
      refine .released cid hcid ?_
      rw [Station.postReleasing, standing_finish o .idle hcid, if_pos rfl]
  | disable | shutdown =>
      exact .broken cid hcid (by rw [Station.postReleasing, standing_finish o .offline hcid]; rfl)
  | drop | hangup | enable | signal => exact .kept rfl

/-- What an event makes of a slot is one of six things. -/
theorem Lawful.posted (h : x.Lawful) (o : Office σ) (e : Event) :
    Standing.Posted x.standing (x.post o e).1.standing := by
  unfold Station.post
  split
  · next hs =>
      cases e with
      | enable => exact .enabled hs (h.cid_eq_none (.inl hs)) rfl
      | disable | shutdown | drop | hangup | release | timeout | signal => exact .kept rfl
  · next hs =>
      cases e with
      | disable | shutdown => exact .disabled hs (h.cid_eq_none (.inr hs)) rfl
      | enable | drop | hangup | release | timeout | signal => exact .kept rfl
  · next hs => exact h.posted_scripting hs o e
  · next hs => exact h.posted_releasing hs o e

/-- A timer that runs out makes no more of it. -/
theorem Lawful.expired (h : x.Lawful) (o : Office σ) (now : Nat) :
    Standing.Posted x.standing (x.expire o now).1.standing := by
  unfold Station.expire Timer.takeDue
  by_cases hdue : x.slot.timer.expiry ≤ now
  · simp only [hdue, if_true]
    exact h.untimed.posted o .timeout
  · simp only [hdue, if_false]
    exact .kept rfl

/-! ## calls -/

/-- An identity that is drawn leaves every standing alone. -/
theorem standing_identity (s : Slot σ) (l : Ledger) (wanted : Option String) :
    standing ⟨s, (l.identify wanted)⟩ = standing ⟨s, l⟩ := by
  cases wanted <;> rfl

/-- A call that is entered stands as entered, and its script runs. -/
theorem standing_entered (o : Office σ) (setup : CallSetup) (x : Station σ) (s : Interpreter) :
    (x.entered o setup s).standing =
      { x.standing.entered (called o setup x).cid with state := .scripting } := by
  rw [entered, standing_record]
  cases hcid : setup.cid <;> simp [book, standing, Ledger.identify, Ledger.enterCall,
    Standing.entered, Standing.unlisted, called, newCall, setState, hcid]

/-- A call that begins finds its slot free and is entered; one that is refused
leaves everything as it was. -/
theorem standing_allocate (o : Office σ) (setup : CallSetup) (x : Station σ) :
    (∃ e, (x.allocate o setup).2 = .error e ∧ (x.allocate o setup).1.standing = x.standing) ∨
      ∃ n cid state, (x.allocate o setup).2 = .ok n ∧ x.slot.state = .idle ∧
        (state = .scripting ∨ state = .releasing) ∧
        (x.allocate o setup).1.standing = { x.standing.entered cid with state } := by
  unfold allocate
  have hcases := accepted o setup x
  cases ha : x.accept o setup with
  | mk y answer =>
      rw [ha] at hcases
      cases hcases with
      | refused e => exact .inl ⟨e, rfl, rfl⟩
      | unseeded s fault hidle => exact .inl ⟨.script fault, rfl, standing_identity _ _ _⟩
      | begun s t hidle _ _ =>
          have hentered := standing_entered o setup x t
          rcases standing_runFor o o.engine.stepsPerTick (x.entered o setup t) with h | h
          · exact .inr ⟨_, _, .scripting, rfl, hidle, .inl rfl, h.trans hentered⟩
          · exact .inr ⟨_, _, .releasing, rfl, hidle, .inr rfl, h.trans (by rw [hentered])⟩

end Station

end Switchboard
