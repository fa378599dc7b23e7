import Switchboard.Proofs.Slot.Operation

/-!
# Switchboard.Proofs.Slot.Work

Work on a slot, seen apart from the books.

1. A slot makes entries in the books, of a few kinds (`Entry`), and the books
   say what an entry does to them (`Ledger.enter`).
2. A piece of work leaves a slot and makes entries (`Work`).  One piece follows
   the other (`Work.and`), and a function on stations does a piece of work if it
   leaves that slot and makes those entries, whatever stands in the books (`Does`).
3. Events, timers and calls that are asked for do work: `Answers.post`,
   `Answers.expire`, `allocate_eq`.  So neither what becomes of a slot nor the
   answer depends on the books, but for the identity of a call that brings none.
-/

namespace Switchboard

/-! ## entries -/

/-- What a slot enters in the books. -/
inductive Entry where
  /-- A worker is called. -/
  | calls (w : Worker)
  /-- Messages are sent. -/
  | notes (ns : List Notice)
  /-- The device gets an order. -/
  | orders (o : Order)
  /-- A record of a call is handed in. -/
  | records (kind : RecordKind) (c : Call) (now : Nat)
  /-- A call is struck out, and no longer counted. -/
  | strikes (cid : String)
  /-- The slot is listed as free. -/
  | lists
  /-- The slot is listed as free again, with a message if it was listed. -/
  | relists
  /-- The slot is struck off the lists of free and reserved slots. -/
  | unlists
  /-- A call gets its identity. -/
  | identifies (wanted : Option String)
  /-- A call is entered on the slot, which is on no list then. -/
  | books (cid : String)
  /-- The work is broken off for good. -/
  | breaks

namespace Ledger

/-- The books after an entry of the slot `id`. -/
def enter (id : SlotId) (l : Ledger) : Entry → Ledger
  | .calls w => l.call w
  | .notes ns => l.notes ns
  | .orders o => l.order id o
  | .records kind c now =>
    { l with records := l.records.acquire.2 }.submit
      (Station.fill now id c kind l.records.acquire.1)
  | .strikes cid =>
    { l.strikeCall cid with segments := l.segments.callEnded id }
  | .lists => { l with idle := (l.idle.insert id).1 }
  | .relists =>
    if (l.idle.insert id).2 then { l with idle := (l.idle.insert id).1 }
    else { l with idle := (l.idle.insert id).1 }.note (.alreadyIdle id)
  | .unlists =>
    { l with
      idle := (l.idle.remove id).1
      reservations := l.reservations.release id }
  | .identifies wanted => (l.identify wanted)
  | .books cid =>
    { l.enterCall cid id with
      segments := l.segments.callStarted id
      idle := (l.idle.remove id).1
      reservations := l.reservations.release id }
  | .breaks => { l with broken := true }

/-- The books after entries of the slot `id`. -/
def enterAll (id : SlotId) (l : Ledger) (es : List Entry) : Ledger := es.foldl (enter id) l

theorem enterAll_append (id : SlotId) (l : Ledger) (es fs : List Entry) :
    l.enterAll id (es ++ fs) = (l.enterAll id es).enterAll id fs := List.foldl_append

end Ledger

/-! ## work -/

/-- A piece of work: the slot that it leaves, and the entries made. -/
structure Work (σ : Type) where
  slot : Slot σ
  entries : List Entry

namespace Work

variable {σ : Type}

/-- What work leaves of a station with these books. -/
def on (w : Work σ) (l : Ledger) : Station σ := ⟨w.slot, l.enterAll w.slot.id w.entries⟩

/-- Work that goes on with other work. -/
def and (w : Work σ) (f : Slot σ → Work σ) : Work σ :=
  ⟨(f w.slot).slot, w.entries ++ (f w.slot).entries⟩

/-- The books stay with the slot they are kept for. -/
theorem on_and {w : Work σ} {f : Slot σ → Work σ} (h : (f w.slot).slot.id = w.slot.id)
    (l : Ledger) : (f w.slot).on (w.on l).ledger = (w.and f).on l := by
  unfold on and
  dsimp only
  rw [Ledger.enterAll_append, h]

/-! ### single pieces -/

/-- No work at all. -/
def rest (s : Slot σ) : Work σ := ⟨s, []⟩

def arm (o : Office σ) (delay : Nanoseconds) (s : Slot σ) : Work σ :=
  ⟨{ s with timer := ⟨Timer.deadline o.clock.now delay⟩ }, [.calls .ticker]⟩

def disarm (s : Slot σ) : Work σ := ⟨{ s with timer := .unset }, []⟩

def await (o : Office σ) (wake : Option Nanoseconds) (s : Slot σ) : Work σ :=
  match wake with
  | some delay => arm o delay s
  | none => disarm s

def armDevice (o : Office σ) (mask : Mask) (s : Slot σ) : Work σ :=
  ⟨{ s with device := o.adapter.arm mask s.device, armedMask := mask }, [.orders (.arm mask)]⟩

def hangUp (o : Office σ) (s : Slot σ) : Work σ :=
  ⟨{ s with device := o.adapter.hangup s.device }, [.orders .hangup]⟩

def disconnect (o : Office σ) (s : Slot σ) : Work σ :=
  ⟨{ s with device := o.adapter.disconnect s.device }, [.orders .disconnect]⟩

def setState (state : SlotState) (s : Slot σ) : Work σ := ⟨{ s with state }, []⟩

def setReason (reason : String) (s : Slot σ) : Work σ :=
  ⟨{ s with call := s.call.map fun c => { c with reason } }, []⟩

def record (o : Office σ) (kind : RecordKind) (s : Slot σ) : Work σ :=
  ⟨s, (s.call.map fun c => .records kind c o.clock.now).toList⟩

def dropCall (s : Slot σ) : Work σ :=
  ⟨{ s with call := none }, (s.call.map fun c => .strikes c.cid).toList⟩

def detach (s : Slot σ) : Work σ := ⟨{ s with interpreter := s.interpreter.detach }, []⟩

/-- The slot stays as it is, and makes an entry. -/
def enter (e : Entry) (s : Slot σ) : Work σ := ⟨s, [e]⟩

/-! ### turns -/

/-- What the interpreter makes of a step, with the slot's device as its world. -/
def stepped (o : Office σ) (s : Slot σ) : Interpreter.Stepped (Errand σ) :=
  s.interpreter.step (Errand.host o.adapter) (.start s.device)

def step (o : Office σ) (s : Slot σ) : Work σ :=
  ⟨{ s with
      interpreter := (stepped o s).state
      device := (stepped o s).world.device },
    .notes (Station.stepNotices s.id (stepped o s).world.said (stepped o s).report) ::
      ((stepped o s).world.passedOn.map .orders).toList⟩

def beginRelease (o : Office σ) (reason : String) (s : Slot σ) : Work σ :=
  ((setReason reason s).and (setState .releasing)).and (arm o o.engine.releaseDelay)

def endCall (o : Office σ) (s : Slot σ) : Work σ :=
  (hangUp o s).and (beginRelease o (Station.endReason s.interpreter))

/-- The work after a step whose result was `r`, if the turn goes on with `g`. -/
def afterStep (o : Office σ) (r : Interpreter.Stepped (Errand σ)) (g : Slot σ → Work σ)
    (s : Slot σ) : Work σ :=
  if r.signal = .broke then enter .breaks s
  else if !s.interpreter.isRunning then endCall o s
  else if s.interpreter.mask != s.armedMask then (armDevice o s.interpreter.mask s).and g
  else if r.signal = .proceed then g s
  else await o r.world.wake s

def runFor (o : Office σ) : Nat → Slot σ → Work σ
  | 0, s => arm o o.engine.stepInterval s
  | n + 1, s => (step o s).and (afterStep o (stepped o s) (runFor o n))

def run (o : Office σ) (s : Slot σ) : Work σ := runFor o o.engine.stepsPerTick s

/-! ### the end of a call -/

/-- Arm the device with nothing, if it is armed with something. -/
def unarm (o : Office σ) (s : Slot σ) : Work σ :=
  if s.armedMask != 0 then armDevice o 0 s else rest s

def finish (o : Office σ) (next : SlotState) (s : Slot σ) : Work σ :=
  ((((((disarm s).and (record o .stop)).and dropCall).and detach).and (unarm o)).and
    (setState next)).and fun s => if next = .idle then enter .relists s else rest s

/-- A device is disarmed if it was armed, and nothing is asked of it otherwise. -/
theorem slot_unarm (o : Office σ) (s : Slot σ) :
    (unarm o s).slot = { s with
      device := if s.armedMask = 0 then s.device else o.adapter.arm 0 s.device
      armedMask := 0 } := by
  by_cases hmask : s.armedMask = 0
  · have hunarm : unarm o s = rest s := by simp [unarm, hmask]
    rw [hunarm, if_pos hmask, ← hmask]
    rfl
  · simp [unarm, armDevice, hmask]

/-- The order goes to a device that was armed. -/
theorem entries_unarm (o : Office σ) (s : Slot σ) :
    (unarm o s).entries = if s.armedMask = 0 then [] else [.orders (.arm 0)] := by
  by_cases hmask : s.armedMask = 0 <;> simp [unarm, armDevice, rest, hmask]

/-- What the end of a call leaves of a slot. -/
theorem slot_finish (o : Office σ) (next : SlotState) (s : Slot σ) :
    (finish o next s).slot = { s with
      state := next
      interpreter := s.interpreter.detach
      device := if s.armedMask = 0 then s.device else o.adapter.arm 0 s.device
      call := none
      armedMask := 0
      timer := .unset } := by
  by_cases hnext : next = .idle <;>
    simp [finish, and, disarm, record, dropCall, detach, slot_unarm, setState, enter, rest, hnext]

/-- The entries that it makes. -/
theorem entries_finish (o : Office σ) (next : SlotState) (s : Slot σ) :
    (finish o next s).entries =
      (s.call.map fun c => Entry.records .stop c o.clock.now).toList ++
        (s.call.map fun c => Entry.strikes c.cid).toList ++
        (if s.armedMask = 0 then [] else [.orders (.arm 0)]) ++
        (if next = .idle then [.relists] else []) := by
  by_cases hnext : next = .idle <;>
    simp [finish, and, disarm, record, dropCall, detach, entries_unarm, setState, enter, rest,
      hnext]

/-! ### events -/

def postOffline (e : Event) (s : Slot σ) : Work σ × Outcome :=
  match e with
  | .enable => ((setState .idle s).and (enter .lists), .handled)
  | .shutdown => (rest s, .handled)
  | _ => (rest s, .rejected)

def postIdle (e : Event) (s : Slot σ) : Work σ × Outcome :=
  match e with
  | .disable | .shutdown => ((enter .unlists s).and (setState .offline), .handled)
  | _ => (rest s, .rejected)

def postScripting (o : Office σ) (e : Event) (s : Slot σ) : Work σ × Outcome :=
  match e with
  | .timeout => (run o s, .handled)
  | .signal name =>
    if (s.interpreter.trigger name).2 then
      (run o { s with interpreter := (s.interpreter.trigger name).1 }, .handled)
    else (rest s, .rejected)
  | .drop | .hangup => ((disconnect o s).and (beginRelease o e.name), .handled)
  | .disable | .shutdown =>
    (((hangUp o s).and (setReason e.name)).and (finish o .offline), .handled)
  | .enable | .release => (rest s, .rejected)

def postReleasing (o : Office σ) (e : Event) (s : Slot σ) : Work σ × Outcome :=
  match e with
  | .release | .timeout => (finish o .idle s, .released ⟨s.id, s.sequence⟩)
  | .drop | .hangup => (rest s, .handled)
  | .disable | .shutdown => (finish o .offline s, .handled)
  | .enable | .signal _ => (rest s, .rejected)

/-- The work for an event, and the answer. -/
def post (o : Office σ) (e : Event) (s : Slot σ) : Work σ × Outcome :=
  match s.state with
  | .offline => postOffline e s
  | .idle => postIdle e s
  | .scripting => postScripting o e s
  | .releasing => postReleasing o e s

/-- The work at a time when the timer may have run out, and the answer. -/
def expire (o : Office σ) (now : Nat) (s : Slot σ) : Work σ × Option Outcome :=
  if s.timer.expiry ≤ now then
    ((post o .timeout { s with timer := .unset }).1,
      some (post o .timeout { s with timer := .unset }).2)
  else (rest s, none)

/-! ### calls -/

/-- The call that a slot is to carry, if `n` identities were made up before. -/
def called (o : Office σ) (setup : CallSetup) (n : Nat) (s : Slot σ) : Call :=
  Station.newCall o setup (setup.cid.getD (o.identities n)) (setup.script.getD o.entry)
    (s.sequence + 1)

/-- A call is entered, whose script is `i`. -/
def entered (o : Office σ) (setup : CallSetup) (n : Nat) (i : Interpreter) (s : Slot σ) :
    Work σ :=
  let c := called o setup n s
  ⟨{ s with state := .scripting, sequence := s.sequence + 1, interpreter := i, call := some c },
    [.identifies setup.cid, .books c.cid, .records .start c o.clock.now]⟩

/-- The work to enter a call that is asked for, and the answer, if `n` identities
were made up before. -/
def accept (o : Office σ) (setup : CallSetup) (n : Nat) (s : Slot σ) :
    Work σ × Except Error Nat :=
  if s.state != .idle then (rest s, .error (.rejected s.id "allocate" s.state))
  else
    let entry := setup.script.getD o.entry
    let attached := s.interpreter.attach o.scripts.image (some entry)
    if !attached.2 then (rest s, .error (.scriptNotFound entry))
    else match Station.seed attached.1 (Station.seeds s.id (called o setup n s)) with
      | .error fault =>
        (⟨{ s with sequence := s.sequence + 1, interpreter := attached.1.detach },
          [.identifies setup.cid]⟩, .error (.script fault))
      | .ok i => (entered o setup n i s, .ok (s.sequence + 1))

/-- The work for a call that is asked for, and the answer. -/
def allocate (o : Office σ) (setup : CallSetup) (n : Nat) (s : Slot σ) :
    Work σ × Except Error Nat :=
  let (w, answer) := accept o setup n s
  match answer with
  | .ok _ => (w.and (run o), answer)
  | .error _ => (w, answer)

/-- What comes of the work for a call that is asked for. -/
inductive Allocated (o : Office σ) (setup : CallSetup) (n : Nat) (s : Slot σ) :
    Work σ × Except Error Nat → Prop
  /-- Nothing. -/
  | refused (e : Error) : Allocated o setup n s (rest s, .error e)
  /-- A number is used up, and perhaps an identity. -/
  | unseeded (i : Interpreter) (fault : Fault) : s.state = .idle →
      Allocated o setup n s (⟨{ s with sequence := s.sequence + 1, interpreter := i },
        [.identifies setup.cid]⟩, .error (.script fault))
  /-- A call begins, and has its first turn. -/
  | begun (i : Interpreter) : s.state = .idle →
      Allocated o setup n s ((entered o setup n i s).and (run o), .ok (s.sequence + 1))

/-- What a slot does that is given a call. -/
theorem allocated (o : Office σ) (setup : CallSetup) (n : Nat) (s : Slot σ) :
    Allocated o setup n s (allocate o setup n s) := by
  unfold allocate accept
  dsimp only
  by_cases hidle : s.state = .idle
  · have hfree : ¬(s.state != .idle) = true := by simp [hidle]
    rw [if_neg hfree]
    generalize s.interpreter.attach o.scripts.image (some (setup.script.getD o.entry)) = attached
    cases hfound : attached.2 with
    | true =>
        simp only [Bool.not_true, Bool.false_eq_true, if_false]
        cases Station.seed _ _ with
        | error fault => exact .unseeded _ fault hidle
        | ok i => exact .begun i hidle
    | false => exact .refused _
  · have hbusy : (s.state != .idle) = true := by simpa using hidle
    rw [if_pos hbusy]
    exact .refused _

end Work

/-! ## work on stations -/

namespace Station

variable {σ : Type}

/-- A function on stations does a piece of work. -/
structure Does (f : Station σ → Station σ) (g : Slot σ → Work σ) : Prop where
  eq : ∀ x : Station σ, f x = (g x.slot).on x.ledger
  same : ∀ s, (g s).slot.id = s.id

namespace Does

variable {f f' : Station σ → Station σ} {g g' : Slot σ → Work σ} {o : Office σ}

/-- To do nothing is no work. -/
theorem rest : Does (fun x : Station σ => x) Work.rest := ⟨fun _ => rfl, fun _ => rfl⟩

/-- Work that depends on the slot it is done on. -/
theorem own {f : Slot σ → Station σ → Station σ} {g : Slot σ → Slot σ → Work σ}
    (h : ∀ s, Does (f s) (g s)) : Does (fun x => f x.slot x) (fun s => g s s) :=
  ⟨fun x => (h x.slot).eq x, fun s => (h s).same s⟩

/-- Work on what other work has left. -/
theorem on (h : Does f g) (w : Work σ) (l : Ledger) : f (w.on l) = (w.and g).on l :=
  (h.eq (w.on l)).trans (Work.on_and (h.same w.slot) l)

/-- One piece of work after the other. -/
theorem and (h : Does f g) (h' : Does f' g') :
    Does (fun x => f' (f x)) (fun s => (g s).and g') := by
  refine ⟨fun x => ?_, fun s => (h'.same _).trans (h.same s)⟩
  rw [h.eq]
  exact h'.on (g x.slot) x.ledger

/-- Different work in different cases. -/
theorem ite (p : Slot σ → Prop) [DecidablePred p] (h : Does f g) (h' : Does f' g') :
    Does (fun x => if p x.slot then f x else f' x) (fun s => if p s then g s else g' s) := by
  refine ⟨fun x => ?_, fun s => ?_⟩
  · split
    · exact h.eq x
    · exact h'.eq x
  · split
    · exact h.same s
    · exact h'.same s

/-! ### single pieces -/

/-- To arm a timer is work of the slot alone. -/
theorem arm (o : Office σ) (delay : Nanoseconds) : Does (Station.arm o delay) (Work.arm o delay) :=
  ⟨fun _ => rfl, fun _ => rfl⟩

theorem disarm : Does (Station.disarm (σ := σ)) Work.disarm := ⟨fun _ => rfl, fun _ => rfl⟩

/-- To wait is work of the slot alone. -/
theorem await (o : Office σ) (wake : Option Nanoseconds) :
    Does (Station.await o wake) (Work.await o wake) := by
  cases wake with
  | none => exact disarm
  | some delay => exact arm o delay

/-- An order to a device is entered, and the slot remembers the mask. -/
theorem armDevice (o : Office σ) (mask : Mask) :
    Does (Station.armDevice o mask) (Work.armDevice o mask) := ⟨fun _ => rfl, fun _ => rfl⟩

theorem hangUp (o : Office σ) : Does (Station.hangUp o) (Work.hangUp o) :=
  ⟨fun _ => rfl, fun _ => rfl⟩

theorem disconnect (o : Office σ) : Does (Station.disconnect o) (Work.disconnect o) :=
  ⟨fun _ => rfl, fun _ => rfl⟩

theorem setState (state : SlotState) :
    Does (Station.setState (σ := σ) state) (Work.setState state) := ⟨fun _ => rfl, fun _ => rfl⟩

theorem setReason (reason : String) :
    Does (Station.setReason (σ := σ) reason) (Work.setReason reason) :=
  ⟨fun _ => rfl, fun _ => rfl⟩

/-- A record is entered as it is made. -/
theorem record (o : Office σ) (kind : RecordKind) :
    Does (Station.record o kind) (Work.record o kind) := by
  refine ⟨fun x => ?_, fun _ => rfl⟩
  unfold Station.record Work.record
  cases hc : x.slot.call <;> rfl

/-- A call that goes is struck from the index. -/
theorem dropCall : Does (Station.dropCall (σ := σ)) Work.dropCall := by
  refine ⟨fun x => ?_, fun _ => rfl⟩
  obtain ⟨slot, ledger⟩ := x
  unfold Station.dropCall Work.dropCall
  cases hc : slot.call with
  | none =>
      obtain ⟨id, state, interpreter, device, call, armedMask, sequence, timer⟩ := slot
      dsimp only at hc
      rw [hc]
      rfl
  | some c => rfl

theorem detach : Does (Station.detach (σ := σ)) Work.detach := ⟨fun _ => rfl, fun _ => rfl⟩

theorem breakOff : Does (Station.breakOff (σ := σ)) (Work.enter .breaks) :=
  ⟨fun _ => rfl, fun _ => rfl⟩

theorem unlist : Does (Station.unlist (σ := σ)) (Work.enter .unlists) :=
  ⟨fun _ => rfl, fun _ => rfl⟩

/-- A slot comes into service on the list of free slots. -/
theorem list : Does (fun x : Station σ => { x with ledger :=
      { x.ledger with idle := (x.ledger.idle.insert x.slot.id).1 } }) (Work.enter .lists) :=
  ⟨fun _ => rfl, fun _ => rfl⟩

theorem listIdle : Does (Station.listIdle (σ := σ)) (Work.enter .relists) :=
  ⟨fun _ => rfl, fun _ => rfl⟩

/-! ### turns -/

/-- A step of the script is work of the slot, with its notes and orders entered. -/
theorem step (o : Office σ) : Does (fun x => (Station.step o x).1) (Work.step o) := by
  refine ⟨fun x => ?_, fun _ => rfl⟩
  unfold Station.step Work.step
  cases h : (Work.stepped o x.slot).world.passedOn with
  | none => simp only [Work.stepped] at h; simp only [h]; rfl
  | some order => simp only [Work.stepped] at h; simp only [h]; rfl

/-- A release is begun by the slot itself. -/
theorem beginRelease (o : Office σ) (reason : String) :
    Does (Station.beginRelease o reason) (Work.beginRelease o reason) :=
  ((setReason reason).and (setState _)).and (arm o _)

theorem endCall (o : Office σ) : Does (Station.endCall o) (Work.endCall o) :=
  own (f := fun s x => (x.hangUp o).beginRelease o (endReason s.interpreter))
    (g := fun s t => (Work.hangUp o t).and (Work.beginRelease o (endReason s.interpreter)))
    fun s => (hangUp o).and (beginRelease o (endReason s.interpreter))

/-- The device is armed with what the script needs, and the turn goes on. -/
theorem rearm (h : Does f g) :
    Does (fun x => f (x.armDevice o x.slot.interpreter.mask))
      (fun s => (Work.armDevice o s.interpreter.mask s).and g) :=
  own (f := fun s x => f (x.armDevice o s.interpreter.mask))
    (g := fun s t => (Work.armDevice o s.interpreter.mask t).and g)
    fun _ => (armDevice o _).and h

/-- What follows a step whose result was `r`. -/
theorem afterStep (h : Does f g) (r : Interpreter.Stepped (Errand σ)) :
    Does
      (fun x =>
        if r.signal = .broke then x.breakOff
        else if !x.slot.interpreter.isRunning then x.endCall o
        else if x.slot.interpreter.mask != x.slot.armedMask then
          f (x.armDevice o x.slot.interpreter.mask)
        else if r.signal = .proceed then f x
        else x.await o r.world.wake)
      (Work.afterStep o r g) :=
  ite (fun _ => r.signal = .broke) breakOff <|
  ite (fun s => (!s.interpreter.isRunning) = true) (endCall o) <|
  ite (fun s => (s.interpreter.mask != s.armedMask) = true) (rearm h) <|
  ite (fun _ => r.signal = .proceed) h (await o _)

/-- A turn is work, step after step. -/
theorem runFor (o : Office σ) (n : Nat) : Does (Station.runFor o n) (Work.runFor o n) := by
  induction n with
  | zero => exact arm o _
  | succ n ih =>
      refine ⟨fun x => ?_, fun s => ?_⟩
      · exact ((step o).and (afterStep ih (Work.stepped o x.slot))).eq x
      · exact ((step o).and (afterStep ih (Work.stepped o s))).same s

theorem run (o : Office σ) : Does (Station.run o) (Work.run o) := runFor o _

/-! ### the end of a call -/

/-- A device that is armed is disarmed. -/
theorem unarm (o : Office σ) :
    Does (fun x => if x.slot.armedMask != 0 then x.armDevice o 0 else x) (Work.unarm o) :=
  ite (fun s => (s.armedMask != 0) = true) (armDevice o 0) rest

/-- A release comes to its end in the slot, and lists it last. -/
theorem finish (o : Office σ) (next : SlotState) :
    Does (Station.finish o next) (Work.finish o next) :=
  ((((((disarm.and (record o .stop)).and dropCall).and detach).and (unarm o)).and
    (setState next)).and (ite (fun _ => next = .idle) listIdle rest))

end Does

/-! ## work with an answer -/

/-- A function on stations does a piece of work and gives its answer. -/
structure Answers {α : Type} (f : Station σ → Station σ × α) (g : Slot σ → Work σ × α) :
    Prop where
  eq : ∀ x : Station σ, f x = ((g x.slot).1.on x.ledger, (g x.slot).2)
  same : ∀ s, (g s).1.slot.id = s.id

/-- Work that is done has an answer that the slot gives. -/
theorem Does.answers {α : Type} {f : Station σ → Station σ} {g : Slot σ → Work σ} (h : Does f g)
    (a : Slot σ → α) : Answers (fun x => (f x, a x.slot)) (fun s => (g s, a s)) :=
  ⟨fun x => Prod.ext (h.eq x) rfl, h.same⟩

namespace Answers

variable {o : Office σ}

/-- An event for a slot that is offline is work, with an answer. -/
theorem postOffline (e : Event) :
    Answers (Station.postOffline (σ := σ) e) (Work.postOffline e) := by
  cases e with
  | enable => exact ((Does.setState .idle).and .list).answers fun _ => Outcome.handled
  | shutdown => exact Does.rest.answers fun _ => Outcome.handled
  | disable | timeout | drop | hangup | release | signal =>
      exact Does.rest.answers fun _ => Outcome.rejected

theorem postIdle (e : Event) : Answers (Station.postIdle (σ := σ) e) (Work.postIdle e) := by
  cases e with
  | disable | shutdown =>
      exact (Does.unlist.and (.setState .offline)).answers fun _ => Outcome.handled
  | enable | timeout | drop | hangup | release | signal =>
      exact Does.rest.answers fun _ => Outcome.rejected

theorem postScripting (o : Office σ) (e : Event) :
    Answers (Station.postScripting o e) (Work.postScripting o e) := by
  cases e with
  | timeout => exact (Does.run o).answers fun _ => Outcome.handled
  | signal name =>
      refine ⟨fun x => ?_, fun s => ?_⟩
      · unfold Station.postScripting Work.postScripting
        dsimp only
        split
        · exact Prod.ext ((Does.run o).eq _) rfl
        · rfl
      · unfold Work.postScripting
        dsimp only
        split
        · exact (Does.run o).same _
        · rfl
  | drop | hangup =>
      exact ((Does.disconnect o).and (.beginRelease o _)).answers fun _ => Outcome.handled
  | disable | shutdown =>
      exact (((Does.hangUp o).and (.setReason _)).and (.finish o .offline)).answers
        fun _ => Outcome.handled
  | enable | release => exact Does.rest.answers fun _ => Outcome.rejected

theorem postReleasing (o : Office σ) (e : Event) :
    Answers (Station.postReleasing o e) (Work.postReleasing o e) := by
  cases e with
  | release | timeout =>
      exact (Does.finish o .idle).answers fun s => Outcome.released ⟨s.id, s.sequence⟩
  | drop | hangup => exact Does.rest.answers fun _ => Outcome.handled
  | disable | shutdown => exact (Does.finish o .offline).answers fun _ => Outcome.handled
  | enable | signal => exact Does.rest.answers fun _ => Outcome.rejected

/-- An event does its work, whatever stands in the books. -/
theorem post (o : Office σ) (e : Event) : Answers (Station.post o e) (Work.post o e) := by
  refine ⟨fun x => ?_, fun s => ?_⟩
  · unfold Station.post Work.post
    cases x.slot.state with
    | offline => exact (postOffline e).eq x
    | idle => exact (postIdle e).eq x
    | scripting => exact (postScripting o e).eq x
    | releasing => exact (postReleasing o e).eq x
  · unfold Work.post
    cases s.state with
    | offline => exact (postOffline e).same s
    | idle => exact (postIdle e).same s
    | scripting => exact (postScripting o e).same s
    | releasing => exact (postReleasing o e).same s

/-- So does a timer. -/
theorem expire (o : Office σ) (now : Nat) :
    Answers (Station.expire o now) (Work.expire o now) := by
  refine ⟨fun x => ?_, fun s => ?_⟩
  · unfold Station.expire Work.expire Timer.takeDue
    by_cases hdue : x.slot.timer.expiry ≤ now
    · simp only [hdue, if_true]
      rw [(post o .timeout).eq]
    · simp only [hdue, if_false]
      rfl
  · unfold Work.expire
    split
    · exact (post o .timeout).same _
    · rfl

end Answers

/-! ## calls -/

/-- The call of a slot, with an identity that the office numbers, depends on the count of
identities and on the slot only. -/
theorem called_eq (o : Office σ) (setup : CallSetup) (x : Station σ) :
    called o setup x = Work.called o setup x.ledger.identities x.slot := by
  unfold called Work.called
  cases setup.cid <;> rfl

/-- A call that enters a script is work. -/
theorem entered_eq (o : Office σ) (setup : CallSetup) (i : Interpreter) (x : Station σ) :
    x.entered o setup i = (Work.entered o setup x.ledger.identities i x.slot).on x.ledger := by
  unfold entered Work.entered
  rw [called_eq]
  rfl

/-- A call that is accepted is work, whose answer is the slot's. -/
theorem accept_eq (o : Office σ) (setup : CallSetup) (x : Station σ) :
    x.accept o setup = ((Work.accept o setup x.ledger.identities x.slot).1.on x.ledger,
      (Work.accept o setup x.ledger.identities x.slot).2) := by
  have hc := called_eq o setup x
  unfold called at hc
  unfold accept Work.accept
  dsimp only
  split
  · rfl
  · split
    · rfl
    · rw [hc]
      cases hs : seed (x.slot.interpreter.attach o.scripts.image
          (some (setup.script.getD o.entry))).1
          (seeds x.slot.id (Work.called o setup x.ledger.identities x.slot)) with
      | error fault => rfl
      | ok i =>
          rw [← entered_eq, entered, called_eq]

/-- A call that is asked for does its work, which depends on the books only by
the identity that a call gets which brings none. -/
theorem allocate_eq (o : Office σ) (setup : CallSetup) (x : Station σ) :
    x.allocate o setup = ((Work.allocate o setup x.ledger.identities x.slot).1.on x.ledger,
      (Work.allocate o setup x.ledger.identities x.slot).2) := by
  unfold allocate Work.allocate
  rw [accept_eq]
  generalize Work.accept o setup x.ledger.identities x.slot = accepted
  obtain ⟨w, answer⟩ := accepted
  cases answer with
  | ok n => exact Prod.ext ((Does.run o).on w x.ledger) rfl
  | error e => rfl

/-- The work for a call is done on the slot it is asked for. -/
theorem id_allocate (o : Office σ) (setup : CallSetup) (n : Nat) (s : Slot σ) :
    (Work.allocate o setup n s).1.slot.id = s.id := by
  have hcases := Work.allocated o setup n s
  generalize Work.allocate o setup n s = done at hcases
  cases hcases with
  | refused | unseeded => rfl
  | begun i _ => exact (Does.run o).same _

end Station

end Switchboard
