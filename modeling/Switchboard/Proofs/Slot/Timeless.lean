import Switchboard.Proofs.Slot.Work

/-!
# Switchboard.Proofs.Slot.Timeless

Slots, books and work with the times left out.

1. Left out are timers, the times that calls and records tell, and who was
   called to do work in the background (`Slot.timeless`, `Ledger.timeless`,
   `Entry.timeless`).
2. What an entry makes of the books, times left out, depends on the entry and
   the books with their times left out (`timeless_enterAll`).
3. Work matches other work if the two agree but for the times wherever the slots
   do (`Work.Matches`).  The same events match in offices where only the time
   differs: `Matches.post`.
-/

namespace Switchboard

/-! ## times left out -/

def CallRecord.timeless (r : CallRecord) : CallRecord :=
  { r with started := .epoch, durationMs := r.durationMs.map fun _ => 0 }

def RecordPool.timeless (p : RecordPool) : RecordPool :=
  { p with pending := p.pending.map CallRecord.timeless }

def Ledger.timeless (l : Ledger) : Ledger :=
  { l with records := l.records.timeless, called := [] }

def Call.timeless (c : Call) : Call := { c with started := .epoch, startedMs := 0 }

def Slot.timeless {σ : Type} (s : Slot σ) : Slot σ :=
  { s with timer := .unset, call := s.call.map Call.timeless }

def Station.timeless {σ : Type} (x : Station σ) : Station σ := ⟨x.slot.timeless, x.ledger.timeless⟩

/-- An entry without its times, if it is about anything else. -/
def Entry.timeless : Entry → Option Entry
  | .calls _ => none
  | .records kind c _ => some (.records kind c.timeless 0)
  | e => some e

def Work.timeless {σ : Type} (w : Work σ) : Work σ :=
  ⟨w.slot.timeless, w.entries.filterMap Entry.timeless⟩

/-- Without the times, work is broken off if it is with them. -/
theorem Entry.breaks_mem_timeless {es : List Entry} :
    Entry.breaks ∈ es.filterMap Entry.timeless ↔ Entry.breaks ∈ es := by
  rw [List.mem_filterMap]
  refine ⟨fun ⟨e, he, htimeless⟩ => ?_, fun h => ⟨.breaks, h, rfl⟩⟩
  cases e with
  | breaks => exact he
  | calls | notes | orders | records | strikes | lists | relists | unlists | identifies
  | books => simp [Entry.timeless] at htimeless

/-! ## the books -/

namespace Ledger

/-- Books that agree but for the times differ in the records that wait, and in
who was called. -/
theorem eq_of_timeless {l m : Ledger} (h : l.timeless = m.timeless) :
    ∃ pending called, pending.map CallRecord.timeless =
        l.records.pending.map CallRecord.timeless ∧
      m = { l with records := { l.records with pending }, called } := by
  obtain ⟨segments, idle, reservations, calls, ⟨capacity, free, pending, isOpen, submitted,
    dropped⟩, identities, journal, orders, called, broken⟩ := m
  simp only [timeless, RecordPool.timeless, Ledger.mk.injEq, RecordPool.mk.injEq] at h
  obtain ⟨rfl, rfl, rfl, rfl, ⟨rfl, rfl, hp, rfl, rfl, rfl⟩, rfl, rfl, rfl, -, rfl⟩ := h
  exact ⟨pending, called, hp.symm, rfl⟩

theorem timeless_call (l : Ledger) (w : Worker) : (l.call w).timeless = l.timeless := by
  unfold call
  split <;> rfl

/-- But for its time, a record is the same whenever it is made. -/
theorem timeless_fill (now : Nat) (slot : SlotId) (c : Call) (kind : RecordKind)
    (r : CallRecord) : (Station.fill now slot c kind r).timeless =
      (Station.fill 0 slot c.timeless kind r).timeless := by
  cases kind <;> rfl

/-- A record that is handed in is taken or refused whatever times it tells. -/
theorem timeless_submit {l m : Ledger} {r q : CallRecord} (hl : l.timeless = m.timeless)
    (hr : r.timeless = q.timeless) : (l.submit r).timeless = (m.submit q).timeless := by
  have hslot : q.timeless.slot = r.timeless.slot := congrArg CallRecord.slot hr.symm
  change q.slot = r.slot at hslot
  obtain ⟨pending, called, hp, rfl⟩ := eq_of_timeless hl
  unfold submit RecordPool.submit
  dsimp only
  cases ho : l.records.isOpen with
  | true =>
      simp only [if_true, timeless_call]
      simp [timeless, RecordPool.timeless, hp, hr]
  | false =>
      by_cases hroom : l.records.free.length < l.records.capacity <;>
        simp [ho, hroom, hslot, RecordPool.noteDropped, RecordPool.recycle, timeless,
          RecordPool.timeless, hp, note, notes, CallRecord.clear_eq_blank]

/-- An entry, times left out. -/
theorem timeless_enter (id : SlotId) {l m : Ledger} {e f : Entry} (hl : l.timeless = m.timeless)
    (he : e.timeless = some f) : (l.enter id e).timeless = (m.enter id f).timeless := by
  cases e with
  | calls w => contradiction
  | records kind c now =>
      obtain rfl := Option.some.inj he
      obtain ⟨pending, called, hp, rfl⟩ := eq_of_timeless hl
      unfold enter RecordPool.acquire
      dsimp only
      cases hf : l.records.free with
      | nil =>
          refine timeless_submit ?_ (timeless_fill ..)
          simp [timeless, RecordPool.timeless, hp, hf]
      | cons r rest =>
          refine timeless_submit ?_ (timeless_fill ..)
          simp [timeless, RecordPool.timeless, hp]
  | relists =>
      obtain rfl := Option.some.inj he
      obtain ⟨pending, called, hp, rfl⟩ := eq_of_timeless hl
      unfold enter
      dsimp only
      split <;> simp [timeless, RecordPool.timeless, hp, note, notes]
  | identifies wanted =>
      obtain rfl := Option.some.inj he
      obtain ⟨pending, called, hp, rfl⟩ := eq_of_timeless hl
      cases wanted <;> simp [enter, identify, timeless, RecordPool.timeless, hp]
  | notes | orders | strikes | lists | unlists | books | breaks =>
      obtain rfl := Option.some.inj he
      obtain ⟨pending, called, hp, rfl⟩ := eq_of_timeless hl
      simp [enter, timeless, RecordPool.timeless, hp, notes, order, strikeCall, enterCall]

/-- Entries, times left out. -/
theorem timeless_enterAll (id : SlotId) {l m : Ledger} (es : List Entry)
    (hl : l.timeless = m.timeless) : (l.enterAll id es).timeless =
      (m.enterAll id (es.filterMap Entry.timeless)).timeless := by
  induction es generalizing l m with
  | nil => exact hl
  | cons e rest ih =>
      cases he : e.timeless with
      | none =>
          rw [List.filterMap_cons_none he]
          refine ih (.trans ?_ hl)
          cases e with
          | calls w => exact timeless_call l w
          | _ => exact nomatch he
      | some f =>
          rw [List.filterMap_cons_some he]
          exact ih (timeless_enter id hl he)

end Ledger

/-! ## work that matches -/

namespace Work

variable {σ : Type}

/-- What work leaves, times left out. -/
theorem timeless_on {w v : Work σ} {l m : Ledger} (hw : w.timeless = v.timeless)
    (hl : l.timeless = m.timeless) : (w.on l).timeless = (v.on m).timeless := by
  have hslot : w.slot.timeless = v.slot.timeless := congrArg Work.slot hw
  have hid : w.slot.timeless.id = v.slot.timeless.id := congrArg Slot.id hslot
  change w.slot.id = v.slot.id at hid
  have hentries : w.entries.filterMap Entry.timeless = v.entries.filterMap Entry.timeless :=
    congrArg Work.entries hw
  refine congrArg₂ Station.mk hslot ?_
  dsimp only [on]
  rw [Ledger.timeless_enterAll _ _ hl, Ledger.timeless_enterAll _ v.entries rfl, hid, hentries]

/-- Work that matches goes on to work that matches. -/
theorem timeless_and {w v : Work σ} {f g : Slot σ → Work σ} (hw : w.timeless = v.timeless)
    (h : (f w.slot).timeless = (g v.slot).timeless) : (w.and f).timeless = (v.and g).timeless := by
  have hentries : w.entries.filterMap Entry.timeless = v.entries.filterMap Entry.timeless :=
    congrArg Work.entries hw
  refine congrArg₂ Work.mk (congrArg Work.slot h) ?_
  dsimp only [and]
  rw [List.filterMap_append, List.filterMap_append, hentries]
  exact congrArg _ (congrArg Work.entries h)

/-- Work that comes to the same but for the times. -/
def Matches (f g : Slot σ → Work σ) : Prop :=
  ∀ s t : Slot σ, s.timeless = t.timeless → (f s).timeless = (g t).timeless

/-- Slots that agree but for the times differ in their timers and in what their
calls tell. -/
theorem eq_of_timeless {s t : Slot σ} (h : s.timeless = t.timeless) :
    ∃ timer call, call.map Call.timeless = s.call.map Call.timeless ∧
      t = { s with timer, call } := by
  obtain ⟨id, state, interpreter, device, call, armedMask, sequence, timer⟩ := t
  simp only [Slot.timeless, Slot.mk.injEq] at h
  obtain ⟨rfl, rfl, rfl, rfl, hc, rfl, rfl, -⟩ := h
  exact ⟨timer, call, hc.symm, rfl⟩

namespace Matches

variable {f f' g g' : Slot σ → Work σ} {o p : Office σ}

/-- Matching work after work that comes to the same. -/
theorem after (h : Matches f g) {w v : Work σ} (hw : w.timeless = v.timeless) :
    (w.and f).timeless = (v.and g).timeless :=
  timeless_and hw (h _ _ (congrArg Work.slot hw))

/-- Works that match, one after the other, match. -/
theorem and (h : Matches f g) (h' : Matches f' g') :
    Matches (fun s => (f s).and f') (fun s => (g s).and g') :=
  fun s t hst => h'.after (h s t hst)

theorem rest : Matches (Work.rest (σ := σ)) Work.rest := fun _ _ h => congrArg (Work.mk · []) h

theorem symm (h : Matches f g) : Matches g f := fun s t hst => (h t s hst.symm).symm

theorem trans (h : Matches f g) (h' : Matches g g') : Matches f g' :=
  fun s t hst => (h s s rfl).trans (h' s t hst)

/-- Matching work in matching cases. -/
theorem ite {q q' : Slot σ → Prop} [DecidablePred q] [DecidablePred q'] (h : Matches f g)
    (h' : Matches f' g') (hq : ∀ s t : Slot σ, s.timeless = t.timeless → (q s ↔ q' t)) :
    Matches (fun s => if q s then f s else f' s) (fun s => if q' s then g s else g' s) := by
  intro s t hst
  dsimp only
  by_cases hs : q s
  · rw [if_pos hs, if_pos ((hq s t hst).mp hs)]
    exact h s t hst
  · rw [if_neg hs, if_neg (mt (hq s t hst).mpr hs)]
    exact h' s t hst

/-- Work that is the same whatever the slot's times. -/
theorem of_eq (h : ∀ (s : Slot σ) timer call, call.map Call.timeless = s.call.map Call.timeless →
    (f s).timeless = (g { s with timer, call }).timeless) : Matches f g := by
  intro s t hst
  obtain ⟨timer, call, hc, rfl⟩ := eq_of_timeless hst
  exact h s timer call hc

/-! ### single pieces -/

/-- Timers match whatever their delays are. -/
theorem arm (o p : Office σ) (delay wait : Nanoseconds) :
    Matches (Work.arm o delay) (Work.arm p wait) := by
  refine of_eq fun s timer call hc => ?_
  simp [Work.arm, Work.timeless, Slot.timeless, hc]

theorem disarm : Matches (Work.disarm (σ := σ)) Work.disarm := by
  refine of_eq fun s timer call hc => ?_
  simp [Work.disarm, Work.timeless, Slot.timeless, hc]

/-- Whether a timer is set does not matter. -/
theorem rest_await (o : Office σ) (wake : Option Nanoseconds) :
    Matches Work.rest (Work.await o wake) := by
  refine of_eq fun s timer call hc => ?_
  cases wake <;>
    simp [Work.rest, Work.await, Work.arm, Work.disarm, Work.timeless, Slot.timeless,
      Entry.timeless, hc]

/-- Orders match for slots with the same adapter. -/
theorem armDevice (h : o.adapter = p.adapter) (mask : Mask) :
    Matches (Work.armDevice o mask) (Work.armDevice p mask) := by
  refine of_eq fun s timer call hc => ?_
  simp [Work.armDevice, Work.timeless, Slot.timeless, Entry.timeless, hc, h]

theorem hangUp (h : o.adapter = p.adapter) : Matches (Work.hangUp o) (Work.hangUp p) := by
  refine of_eq fun s timer call hc => ?_
  simp [Work.hangUp, Work.timeless, Slot.timeless, Entry.timeless, hc, h]

theorem disconnect (h : o.adapter = p.adapter) :
    Matches (Work.disconnect o) (Work.disconnect p) := by
  refine of_eq fun s timer call hc => ?_
  simp [Work.disconnect, Work.timeless, Slot.timeless, Entry.timeless, hc, h]

theorem setState (state : SlotState) :
    Matches (Work.setState (σ := σ) state) (Work.setState state) := by
  refine of_eq fun s timer call hc => ?_
  simp [Work.setState, Work.timeless, Slot.timeless, hc]

/-- Two calls that agree but for the times, or none twice. -/
theorem call_cases {c d : Option Call} (h : d.map Call.timeless = c.map Call.timeless) :
    (c = none ∧ d = none) ∨ ∃ a b, c = some a ∧ d = some b ∧ b.timeless = a.timeless := by
  cases c with
  | none => exact .inl ⟨rfl, by simpa using h⟩
  | some a =>
      cases d with
      | none => contradiction
      | some b => exact .inr ⟨a, b, rfl, rfl, by simpa using h⟩

theorem setReason (reason : String) :
    Matches (Work.setReason (σ := σ) reason) (Work.setReason reason) := by
  refine of_eq fun s timer call hc => ?_
  rcases call_cases hc with ⟨hs, rfl⟩ | ⟨a, b, hs, rfl, hab⟩
  · simp [Work.setReason, Work.timeless, Slot.timeless, hs]
  · have hreason := congrArg (fun c : Call => { c with reason }) hab
    simpa [Work.setReason, Work.timeless, Slot.timeless, hs, Call.timeless] using hreason.symm

/-- Records match whenever they are made. -/
theorem record (o p : Office σ) (kind : RecordKind) :
    Matches (Work.record o kind) (Work.record p kind) := by
  refine of_eq fun s timer call hc => ?_
  rcases call_cases hc with ⟨hs, rfl⟩ | ⟨a, b, hs, rfl, hab⟩
  · simp [Work.record, Work.timeless, Slot.timeless, hs]
  · simp [Work.record, Work.timeless, Slot.timeless, Entry.timeless, hs, hab]

theorem dropCall : Matches (Work.dropCall (σ := σ)) Work.dropCall := by
  refine of_eq fun s timer call hc => ?_
  rcases call_cases hc with ⟨hs, rfl⟩ | ⟨a, b, hs, rfl, hab⟩
  · simp [Work.dropCall, Work.timeless, Slot.timeless, hs]
  · have hcid : b.timeless.cid = a.timeless.cid := congrArg Call.cid hab
    change b.cid = a.cid at hcid
    simp [Work.dropCall, Work.timeless, Slot.timeless, Entry.timeless, hs, hcid]

theorem detach : Matches (Work.detach (σ := σ)) Work.detach := by
  refine of_eq fun s timer call hc => ?_
  simp [Work.detach, Work.timeless, Slot.timeless, hc]

/-- An entry matches itself. -/
theorem enter (e : Entry) : Matches (Work.enter (σ := σ) e) (Work.enter e) := by
  refine of_eq fun s timer call hc => ?_
  simp [Work.enter, Work.timeless, Slot.timeless, hc]

/-! ### turns -/

/-- A step comes to the same whatever the slot's times. -/
theorem stepped_eq (h : o.adapter = p.adapter) {s t : Slot σ} (hst : s.timeless = t.timeless) :
    stepped o s = stepped p t := by
  obtain ⟨timer, call, -, rfl⟩ := eq_of_timeless hst
  simp [stepped, h]

/-- Steps match for slots with the same adapter. -/
theorem step (h : o.adapter = p.adapter) : Matches (Work.step o) (Work.step p) := by
  refine of_eq fun s timer call hc => ?_
  have hstepped : stepped o s = stepped p { s with timer, call } := by simp [stepped, h]
  simp only [Work.step, Work.timeless, Slot.timeless, hstepped, hc]

/-- A release that begins matches at any time. -/
theorem beginRelease (o p : Office σ) (reason : String) :
    Matches (Work.beginRelease o reason) (Work.beginRelease p reason) :=
  ((setReason reason).and (setState _)).and (arm o p _ _)

theorem endCall (h : o.adapter = p.adapter) : Matches (Work.endCall o) (Work.endCall p) := by
  intro s t hst
  obtain ⟨timer, call, -, rfl⟩ := eq_of_timeless hst
  exact (beginRelease o p _).after (hangUp h _ _ hst)

/-- What follows a step, if it goes on alike. -/
theorem afterStep (h : o.adapter = p.adapter) (r : Interpreter.Stepped (Errand σ))
    (hg : Matches f g) : Matches (Work.afterStep o r f) (Work.afterStep p r g) := by
  have hrearm : Matches (fun s => (Work.armDevice o s.interpreter.mask s).and f)
      (fun s => (Work.armDevice p s.interpreter.mask s).and g) := by
    intro s t hst
    obtain ⟨timer, call, -, rfl⟩ := eq_of_timeless hst
    exact hg.after (armDevice h _ _ _ hst)
  have hawait : Matches (Work.await o r.world.wake) (Work.await p r.world.wake) :=
    (rest_await o _).symm.trans (rest_await p _)
  refine ite (enter .breaks) (ite (endCall h) (ite hrearm (ite hg hawait ?_) ?_) ?_) ?_
  all_goals
    intro s t hst
    obtain ⟨timer, call, -, rfl⟩ := eq_of_timeless hst
    rfl

/-- Turns of the same length match. -/
theorem runFor (h : o.adapter = p.adapter) (n : Nat) :
    Matches (Work.runFor o n) (Work.runFor p n) := by
  induction n with
  | zero => exact arm o p _ _
  | succ n ih =>
      intro s t hst
      simp only [Work.runFor, ← stepped_eq h hst]
      exact (afterStep h _ ih).after (step h s t hst)

/-! ### the end of a call -/

/-- Releases that come to their end match. -/
theorem finish (h : o.adapter = p.adapter) (next : SlotState) :
    Matches (Work.finish o next) (Work.finish p next) := by
  have hunarm : Matches (Work.unarm o) (Work.unarm p) := by
    refine ite (armDevice h 0) rest fun s t hst => ?_
    obtain ⟨timer, call, -, rfl⟩ := eq_of_timeless hst
    rfl
  exact (((((disarm.and (record o p .stop)).and dropCall).and detach).and hunarm).and
    (setState next)).and (ite (enter .relists) rest fun _ _ _ => .rfl)

end Matches

/-! ## events -/

/-- Work with an answer that comes to the same but for the times. -/
def Agree {α : Type} (a b : Work σ × α) : Prop := a.1.timeless = b.1.timeless ∧ a.2 = b.2

variable {o p : Office σ} {s t : Slot σ}

/-- Works that match, with one answer, agree. -/
theorem Matches.agree {α : Type} {f g : Slot σ → Work σ} (h : Matches f g)
    (hst : s.timeless = t.timeless) (a : α) : Agree (f s, a) (g t, a) := ⟨h s t hst, rfl⟩

/-- Slots that are alike but for times answer alike while they are offline. -/
theorem agree_postOffline (e : Event) (hst : s.timeless = t.timeless) :
    Agree (postOffline e s) (postOffline e t) := by
  cases e with
  | enable => exact ((Matches.setState .idle).and (.enter .lists)).agree hst _
  | shutdown | disable | timeout | drop | hangup | release | signal =>
      exact Matches.rest.agree hst _

/-- So they do while they are idle. -/
theorem agree_postIdle (e : Event) (hst : s.timeless = t.timeless) :
    Agree (postIdle e s) (postIdle e t) := by
  cases e with
  | disable | shutdown => exact ((Matches.enter .unlists).and (.setState .offline)).agree hst _
  | enable | timeout | drop | hangup | release | signal => exact Matches.rest.agree hst _

/-- So they do while a script runs, if a tick has the same steps. -/
theorem agree_postScripting (ha : o.adapter = p.adapter)
    (hn : o.engine.stepsPerTick = p.engine.stepsPerTick) (e : Event)
    (hst : s.timeless = t.timeless) : Agree (postScripting o e s) (postScripting p e t) := by
  have hrun : Matches (run o) (run p) := by
    unfold run
    rw [hn]
    exact .runFor ha _
  cases e with
  | timeout => exact hrun.agree hst _
  | signal name =>
      obtain ⟨timer, call, hc, rfl⟩ := eq_of_timeless hst
      unfold postScripting
      dsimp only
      split
      · refine hrun.agree ?_ _
        simp [Slot.timeless, hc]
      · exact Matches.rest.agree hst _
  | drop | hangup => exact ((Matches.disconnect ha).and (.beginRelease o p _)).agree hst _
  | disable | shutdown =>
      exact (((Matches.hangUp ha).and (.setReason _)).and (.finish ha .offline)).agree hst _
  | enable | release => exact Matches.rest.agree hst _

/-- So they do while a release is under way. -/
theorem agree_postReleasing (ha : o.adapter = p.adapter) (e : Event)
    (hst : s.timeless = t.timeless) : Agree (postReleasing o e s) (postReleasing p e t) := by
  cases e with
  | release | timeout =>
      obtain ⟨timer, call, -, rfl⟩ := eq_of_timeless hst
      exact (Matches.finish ha .idle).agree hst _
  | drop | hangup => exact Matches.rest.agree hst _
  | disable | shutdown => exact (Matches.finish ha .offline).agree hst _
  | enable | signal => exact Matches.rest.agree hst _

/-- An event comes to the same in offices with the same devices and turns. -/
theorem agree_post (ha : o.adapter = p.adapter)
    (hn : s.state = .scripting → o.engine.stepsPerTick = p.engine.stepsPerTick) (e : Event)
    (hst : s.timeless = t.timeless) : Agree (post o e s) (post p e t) := by
  have hstate : t.state = s.state := by
    obtain ⟨timer, call, -, rfl⟩ := eq_of_timeless hst
    rfl
  unfold post
  rw [hstate]
  cases hs : s.state with
  | offline => exact agree_postOffline e hst
  | idle => exact agree_postIdle e hst
  | scripting => exact agree_postScripting ha (hn hs) e hst
  | releasing => exact agree_postReleasing ha e hst

/-! ## calls -/

/-- A call is entered alike where the scripts are the same, and its identity is. -/
theorem agree_accept (hs : o.scripts = p.scripts) (he : o.entry = p.entry) {setup : CallSetup}
    {n m : Nat} (hi : setup.cid.getD (o.identities n) = setup.cid.getD (p.identities m))
    (hst : s.timeless = t.timeless) :
    Agree (accept o setup n s) (accept p setup m t) := by
  have hrest := Matches.rest.agree (α := Except Error Nat) hst
  obtain ⟨timer, call, hc, rfl⟩ := eq_of_timeless hst
  have hcalled : (called o setup n s).timeless =
      (called p setup m { s with timer, call }).timeless := by
    unfold called
    rw [he, hi]
    rfl
  have hseeds : Station.seeds s.id (called p setup m { s with timer, call }) =
      Station.seeds s.id (called o setup n s) := by
    unfold called
    rw [he, hi]
    rfl
  unfold accept
  dsimp only
  rw [hseeds, ← hs, ← he]
  split
  · exact hrest _
  · split
    · exact hrest _
    · split
      · refine ⟨?_, rfl⟩
        simp [timeless, Slot.timeless, hc]
      · refine ⟨?_, rfl⟩
        have hcid : (called p setup m { s with timer, call }).timeless.cid =
            (called o setup n s).timeless.cid := congrArg Call.cid hcalled.symm
        change (called p setup m { s with timer, call }).cid = (called o setup n s).cid at hcid
        simp [entered, timeless, Slot.timeless, Entry.timeless, hcalled, hcid]

end Work

end Switchboard
