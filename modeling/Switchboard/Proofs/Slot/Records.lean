import Switchboard.Proofs.Record.Pool
import Switchboard.Proofs.Slot.Lifecycle
import Switchboard.Proofs.Slot.Work

/-!
# Switchboard.Proofs.Slot.Records

The records that a slot hands in.

1. A call has a record of its start and one of its stop, which says the same and
   how long the call took and why it ended (`Call.startRecord`,
   `Call.stopRecord`).  These are what a slot hands in, since it writes them in
   blank records (`Ledger.taken_enterAll`).
2. A turn of the script hands in nothing: the call goes on, or it is over and
   waits for its slot to be free (`Work.Continued`).
3. An event or a call that is asked for tells one of four tales about a slot
   (`Slot.Tale`): there is nothing new, the call is over, it has ended, or one has
   begun.  Slots that are taken out of service are told of once (`Slot.Served`).
-/

namespace Switchboard

/-! ## records of a call -/

namespace Call

/-- The record of the start of a call. -/
def startRecord (id : SlotId) (c : Call) : CallRecord :=
  ⟨.start, id, c.sequence, c.cid, c.started, none, "", c.source, c.target, c.script, c.payload⟩

/-- The record of its stop after `ms` milliseconds: it says the same, and why the
call ended. -/
def stopRecord (id : SlotId) (ms : Nat) (c : Call) : CallRecord :=
  { c.startRecord id with kind := .stop, durationMs := some ms, reason := c.reason }

end Call

/-- A record that was blank tells the call. -/
theorem fill_blank_start (now : Nat) (id : SlotId) (c : Call) :
    Station.fill now id c .start .blank = c.startRecord id := by
  simp [Station.fill, CallRecord.blank, Call.startRecord]

/-- The record of an end, filled in on a blank one. -/
theorem fill_blank_stop (now : Nat) (id : SlotId) (c : Call) :
    Station.fill now id c .stop .blank = c.stopRecord id (now - c.startedMs) := by
  simp [Station.fill, CallRecord.blank, Call.stopRecord, Call.startRecord]

/-! ## records among the entries -/

/-- The record that an entry hands in. -/
def Entry.record? (id : SlotId) : Entry → Option CallRecord
  | .records kind c now => some (Station.fill now id c kind .blank)
  | _ => none

namespace Ledger

open RecordPool (Taken)

/-- A call of the adapter writes no record. -/
theorem records_call (l : Ledger) (w : Worker) : (l.call w).records = l.records := by
  unfold call
  split <;> rfl

/-- A record that is handed over is written. -/
theorem records_submit (l : Ledger) (r : CallRecord) :
    (l.submit r).records = (l.records.submit r).1 := by
  unfold submit
  dsimp only
  split
  · exact records_call _ _
  · rfl

/-- What the pool takes is what an entry hands in. -/
theorem taken_enter {l : Ledger} (h : l.records.Blank) (id : SlotId) (e : Entry) :
    Taken l.records (e.record? id).toList (l.enter id e).records := by
  cases e with
  | records kind c now =>
      unfold enter
      rw [records_submit, h.acquire.1]
      exact h.use _
  | calls w =>
      rw [show (l.enter id (.calls w)).records = l.records from records_call l w]
      exact h.taken
  | relists =>
      have hsame : (l.enter id .relists).records = l.records := by
        unfold enter
        dsimp only
        split <;> rfl
      rw [hsame]
      exact h.taken
  | identifies wanted => cases wanted <;> exact h.taken
  | notes | orders | strikes | lists | unlists | books | breaks => exact h.taken

/-- Entries are taken up by the records, in their order. -/
theorem taken_enterAll {l : Ledger} (h : l.records.Blank) (id : SlotId) (es : List Entry) :
    Taken l.records (es.filterMap (Entry.record? id)) (l.enterAll id es).records := by
  induction es generalizing l with
  | nil => exact h.taken
  | cons e rest ih =>
      have hfirst := taken_enter h id e
      have hrest := hfirst.trans (ih hfirst.blank)
      rw [show (e :: rest).filterMap (Entry.record? id) =
        (e.record? id).toList ++ rest.filterMap (Entry.record? id) from ?_]
      · exact hrest
      · cases he : e.record? id <;> simp [he]

end Ledger

namespace Work

variable {σ : Type} {o : Office σ} {s : Slot σ} {w : Work σ} {f : Slot σ → Work σ}

/-- The records that work hands in. -/
def records (w : Work σ) : List CallRecord := w.entries.filterMap (Entry.record? w.slot.id)

/-- The records of two pieces of work are those of the first, then those of the second. -/
theorem records_and (h : (f w.slot).slot.id = w.slot.id) :
    (w.and f).records = w.records ++ (f w.slot).records := by
  unfold records and
  dsimp only
  rw [h, List.filterMap_append]

/-! ## turns -/

/-- Work that leaves a slot with its call, in its state. -/
structure Same (s : Slot σ) (w : Work σ) : Prop where
  id : w.slot.id = s.id
  sequence : w.slot.sequence = s.sequence
  state : w.slot.state = s.state
  call : w.slot.call = s.call
  records : w.records = []

/-- Work in which a call goes on, or is over for some reason. -/
structure Continued (s : Slot σ) (w : Work σ) : Prop where
  id : w.slot.id = s.id
  sequence : w.slot.sequence = s.sequence
  records : w.records = []
  phase : (w.slot.state = s.state ∧ w.slot.call = s.call) ∨
    (w.slot.state = .releasing ∧
      ∃ reason, w.slot.call = s.call.map fun c => { c with reason })

/-- A call that is the same goes on. -/
theorem Same.continued (h : Same s w) : Continued s w :=
  ⟨h.id, h.sequence, h.records, .inl ⟨h.state, h.call⟩⟩

/-- Work that keeps the call may come before work that goes on with it. -/
theorem Same.and (h : Same s w) (h' : Continued w.slot (f w.slot)) : Continued s (w.and f) := by
  refine ⟨h'.id.trans h.id, h'.sequence.trans h.sequence, ?_, ?_⟩
  · rw [records_and h'.id, h.records, h'.records]
    rfl
  · have hphase := h'.phase
    rw [h.state, h.call] at hphase
    exact hphase

/-- A step keeps the call. -/
theorem Same.step (o : Office σ) (s : Slot σ) : Same s (step o s) := by
  refine ⟨rfl, rfl, rfl, rfl, ?_⟩
  unfold Work.records Work.step
  cases (stepped o s).world.passedOn <;> rfl

/-- So does a timer that is set. -/
theorem Same.arm (o : Office σ) (delay : Nanoseconds) (s : Slot σ) : Same s (arm o delay s) :=
  ⟨rfl, rfl, rfl, rfl, rfl⟩

/-- So does a wait. -/
theorem Same.await (o : Office σ) (wake : Option Nanoseconds) (s : Slot σ) :
    Same s (await o wake s) := by
  cases wake with
  | none => exact ⟨rfl, rfl, rfl, rfl, rfl⟩
  | some delay => exact .arm o delay s

/-- A call whose release begins goes on. -/
theorem Continued.beginRelease (o : Office σ) (reason : String) (s : Slot σ) :
    Continued s (beginRelease o reason s) :=
  ⟨rfl, rfl, rfl, .inr ⟨rfl, reason, rfl⟩⟩

/-- A turn hands in no records. -/
theorem Continued.runFor (o : Office σ) (n : Nat) (s : Slot σ) : Continued s (runFor o n s) := by
  induction n generalizing s with
  | zero => exact (Same.arm o _ s).continued
  | succ n ih =>
      refine (Same.step o s).and ?_
      unfold afterStep
      split
      · exact Same.continued ⟨rfl, rfl, rfl, rfl, rfl⟩
      · split
        · exact Same.and (w := hangUp o (Work.step o s).slot) ⟨rfl, rfl, rfl, rfl, rfl⟩
            (.beginRelease o _ _)
        · split
          · exact Same.and ⟨rfl, rfl, rfl, rfl, rfl⟩ (ih _)
          · split
            · exact ih _
            · exact (Same.await o _ _).continued

/-- So does one whose script runs. -/
theorem Continued.run (o : Office σ) (s : Slot σ) : Continued s (run o s) := .runFor o _ s

/-! ## the end of a call -/

/-- The end of a call hands in the record of its stop. -/
theorem records_finish (o : Office σ) (next : SlotState) (s : Slot σ) :
    (finish o next s).records =
      (s.call.map fun c => c.stopRecord s.id (o.clock.now - c.startedMs)).toList := by
  unfold Work.records
  rw [slot_finish, entries_finish]
  cases s.call <;> by_cases s.armedMask = 0 <;> by_cases next = .idle <;>
    simp [Entry.record?, fill_blank_stop, *]

end Work

/-! ## tales -/

/-- What an event tells about a slot that takes a call from it, or leaves it as it
is: the slot before, the records that it hands in, and the slot afterwards. -/
inductive Slot.Served {σ : Type} (e : Option Event) (s : Slot σ) : List CallRecord → Slot σ → Prop
  /-- There is nothing new about its call, if it carries one. -/
  | quiet {t : Slot σ} : t.call = s.call →
      (s.call.isSome → t.state = s.state ∧ t.sequence = s.sequence) →
      s.sequence ≤ t.sequence → Served e s [] t
  /-- Its call has ended: for the reason for which it was over, or by the event. -/
  | ended {t : Slot σ} (c : Call) (reason : String) (ms : Nat) : s.call = some c →
      t.call = none → s.sequence ≤ t.sequence →
      (s.state = .releasing ∧ reason = c.reason ∨
        s.state = .scripting ∧ e.map Event.name = some reason) →
      Served e s [Call.stopRecord s.id ms { c with reason }] t

/-- What an operation tells about a slot, with the event that it posts, if any. -/
inductive Slot.Tale {σ : Type} (e : Option Event) (s : Slot σ) : List CallRecord → Slot σ → Prop
  | served {rs : List CallRecord} {t : Slot σ} : s.Served e rs t → Tale e s rs t
  /-- Its call is over for some reason. -/
  | closing {t : Slot σ} (reason : String) : s.state = .scripting → t.state = .releasing →
      t.call = s.call.map (fun c => { c with reason }) → t.sequence = s.sequence → Tale e s [] t
  /-- A call has begun. -/
  | begun {t : Slot σ} (c : Call) : s.call = none → t.call = some c →
      c.sequence = t.sequence → s.sequence < t.sequence → Tale e s [c.startRecord s.id] t

namespace Slot

variable {σ : Type} {s t u : Slot σ} {e : Option Event} {rs ss : List CallRecord}

/-- Nothing happens to a slot. -/
theorem Served.refl (e : Option Event) (s : Slot σ) : s.Served e [] s :=
  .quiet rfl (fun _ => ⟨rfl, rfl⟩) (Nat.le_refl _)

/-- There is nothing to tell about a slot without a call that gets none. -/
theorem Served.vacant (hs : s.call = none) (ht : t.call = none) (hn : s.sequence ≤ t.sequence) :
    s.Served e [] t :=
  .quiet (ht.trans hs.symm) (fun hc => by simp [hs] at hc) hn

/-- A slot that is served twice is told of once. -/
theorem Served.trans (h : s.Served e rs t) (h' : t.Served e ss u) (hid : t.id = s.id) :
    s.Served e (rs ++ ss) u := by
  cases h with
  | quiet hcall hsame hle =>
      cases h' with
      | quiet hcall' hsame' hle' =>
          refine .quiet (hcall'.trans hcall) (fun hc => ?_) (Nat.le_trans hle hle')
          have hst := hsame hc
          have htu := hsame' (hcall ▸ hc)
          exact ⟨htu.1.trans hst.1, htu.2.trans hst.2⟩
      | ended c reason ms hc hu hle' hreason =>
          -- The call that ends is the one that was left alone first, in the same state.
          have hst := hsame (by rw [← hcall, hc]; rfl)
          rw [hid]
          rw [hst.1] at hreason
          exact .ended c reason ms (hcall ▸ hc) hu (Nat.le_trans hle hle') hreason
  | ended c reason ms hc ht hle hreason =>
      cases h' with
      | quiet hcall' _ hle' =>
          exact .ended c reason ms hc (hcall'.trans ht) (Nat.le_trans hle hle') hreason
      | ended d _ _ hd _ _ _ => exact nomatch ht.symm.trans hd

/-- A tale is about the call on a slot. -/
theorem Tale.of_eq (h : u.Tale e rs t) (hid : u.id = s.id) (hstate : u.state = s.state)
    (hcall : u.call = s.call) (hn : u.sequence = s.sequence) : s.Tale e rs t := by
  cases h with
  | served h =>
      refine .served ?_
      cases h with
      | quiet hc hsame hle =>
          rw [hcall] at hc hsame
          rw [hstate, hn] at hsame
          exact .quiet hc hsame (hn ▸ hle)
      | ended c reason ms hc ht hle hreason =>
          rw [hid]
          rw [hstate] at hreason
          exact .ended c reason ms (hcall ▸ hc) ht (hn ▸ hle) hreason
  | closing reason hs ht hc hsame =>
      exact .closing reason (hstate ▸ hs) ht (hcall ▸ hc) (hn ▸ hsame)
  | begun c hc ht hsame hlt =>
      rw [hid]
      exact .begun c (hcall ▸ hc) ht hsame (hn ▸ hlt)

/-- The records of a tale are those of its slot. -/
theorem Tale.slot_eq (h : s.Tale e rs t) : ∀ r ∈ rs, r.slot = s.id := by
  intro r hr
  cases h with
  | served h =>
      cases h with
      | quiet => exact nomatch hr
      | ended => exact congrArg CallRecord.slot (List.mem_singleton.mp hr)
  | closing => exact nomatch hr
  | begun => exact congrArg CallRecord.slot (List.mem_singleton.mp hr)

/-- A turn tells that a call goes on, or that it is over. -/
theorem Tale.of_continued {w : Work σ} (hs : s.state = .scripting) (h : w.Continued s) :
    s.Tale e w.records w.slot := by
  rw [h.records]
  rcases h.phase with ⟨hstate, hcall⟩ | ⟨hstate, reason, hcall⟩
  · exact .served
      (.quiet hcall (fun _ => ⟨hstate, h.sequence⟩) (Nat.le_of_eq h.sequence.symm))
  · exact .closing reason hs hstate hcall h.sequence

end Slot

namespace Work

variable {σ : Type} {o : Office σ} {s : Slot σ} {l : Ledger} {c : Call}

/-- An event of a slot out of service is recorded as it should be. -/
theorem served_postOffline (hc : s.call = none) (e : Event) :
    s.Served (some e) (postOffline e s).1.records (postOffline e s).1.slot := by
  cases e with
  | enable => exact .vacant hc hc (Nat.le_refl _)
  | shutdown | disable | timeout | drop | hangup | release | signal => exact .refl _ s

/-- So is one of a free slot. -/
theorem served_postIdle (hc : s.call = none) (e : Event) :
    s.Served (some e) (postIdle e s).1.records (postIdle e s).1.slot := by
  cases e with
  | disable | shutdown => exact .vacant hc hc (Nat.le_refl _)
  | enable | timeout | drop | hangup | release | signal => exact .refl _ s

/-- An event that takes a slot out of service ends the call that its script runs for. -/
theorem served_takeDown (hs : s.state = .scripting) (hc : s.call = some c) (o : Office σ)
    (e : Event) :
    let w := ((hangUp o s).and (setReason e.name)).and (finish o .offline)
    s.Served (some e) w.records w.slot := by
  intro w
  have hslot : w.slot.call = none ∧ w.slot.sequence = s.sequence := by
    rw [show w.slot = (finish o .offline ((hangUp o s).and (setReason e.name)).slot).slot from rfl,
      slot_finish]
    exact ⟨rfl, rfl⟩
  have hrecords : w.records =
      [Call.stopRecord s.id (o.clock.now - c.startedMs) { c with reason := e.name }] := by
    have hfinish := records_finish o .offline ((hangUp o s).and (setReason e.name)).slot
    have hreason : ((hangUp o s).and (setReason e.name)).slot.call =
        some { c with reason := e.name } := by
      simp [Work.and, hangUp, setReason, hc]
    rw [records_and ((Station.Does.finish o .offline).same _), hfinish, hreason]
    rfl
  rw [hrecords]
  exact .ended c e.name _ hc hslot.1 (Nat.le_of_eq hslot.2.symm) (.inr ⟨hs, rfl⟩)

/-- So is one of a slot in release. -/
theorem served_postReleasing (hs : s.state = .releasing) (hc : s.call = some c) (o : Office σ)
    (e : Event) :
    s.Served (some e) (postReleasing o e s).1.records (postReleasing o e s).1.slot := by
  have hfinish : ∀ next, s.Served (some e) (finish o next s).records (finish o next s).slot := by
    intro next
    rw [records_finish, slot_finish, hc]
    exact .ended c c.reason _ hc rfl (Nat.le_refl _) (.inl ⟨hs, rfl⟩)
  cases e with
  | release | timeout | disable | shutdown => exact hfinish _
  | drop | hangup | enable | signal => exact .refl _ s

/-- An event of a slot that runs a script tells its part of the call. -/
theorem tale_postScripting (hs : s.state = .scripting) (hc : s.call = some c) (o : Office σ)
    (e : Event) : s.Tale (some e) (postScripting o e s).1.records (postScripting o e s).1.slot := by
  cases e with
  | timeout => exact .of_continued hs (.run o s)
  | signal name =>
      unfold postScripting
      dsimp only
      split
      · exact (Slot.Tale.of_continued
          (s := { s with interpreter := (s.interpreter.trigger name).1 })
          hs (.run o _)).of_eq rfl rfl rfl rfl
      · exact .served (.refl _ s)
  | drop | hangup =>
      exact .of_continued hs
        (Same.and (w := disconnect o s) ⟨rfl, rfl, rfl, rfl, rfl⟩ (.beginRelease o _ _))
  | disable | shutdown => exact .served (served_takeDown hs hc o _)
  | enable | release => exact .served (.refl _ s)

/-- Every event tells a tale. -/
theorem tale_post (h : Station.Lawful ⟨s, l⟩) (o : Office σ) (e : Event) :
    s.Tale (some e) (post o e s).1.records (post o e s).1.slot := by
  unfold post
  cases hs : s.state with
  | offline => exact .served (served_postOffline (h.law.offline hs).1.call e)
  | idle => exact .served (served_postIdle (h.law.idle hs).1.call e)
  | scripting =>
      obtain ⟨c, hc⟩ := Option.isSome_iff_exists.mp (h.law.scripting hs).1
      exact tale_postScripting hs hc o e
  | releasing =>
      obtain ⟨c, hc⟩ := Option.isSome_iff_exists.mp (h.law.releasing hs).1
      exact .served (served_postReleasing hs hc o e)

/-- A slot that is brought into service or taken out of it is served. -/
theorem served_post (h : Station.Lawful ⟨s, l⟩) (o : Office σ) {e : Event}
    (he : e = .enable ∨ e = .disable ∨ e = .shutdown) :
    s.Served (some e) (post o e s).1.records (post o e s).1.slot := by
  unfold post
  cases hs : s.state with
  | offline => exact served_postOffline (h.law.offline hs).1.call e
  | idle => exact served_postIdle (h.law.idle hs).1.call e
  | scripting =>
      obtain ⟨c, hc⟩ := Option.isSome_iff_exists.mp (h.law.scripting hs).1
      rcases he with rfl | rfl | rfl
      · exact .refl _ s
      · exact served_takeDown hs hc o .disable
      · exact served_takeDown hs hc o .shutdown
  | releasing =>
      obtain ⟨c, hc⟩ := Option.isSome_iff_exists.mp (h.law.releasing hs).1
      exact served_postReleasing hs hc o e

/-- A timer tells a tale when it runs out. -/
theorem tale_expire (h : Station.Lawful ⟨s, l⟩) (o : Office σ) (now : Nat) :
    s.Tale (some .timeout) (expire o now s).1.records (expire o now s).1.slot := by
  unfold expire
  split
  · exact (tale_post h.untimed o .timeout).of_eq rfl rfl rfl rfl
  · exact .served (.refl _ s)

/-- So does a call that is asked for. -/
theorem tale_allocate (h : Station.Lawful ⟨s, l⟩) (o : Office σ) (setup : CallSetup) (n : Nat)
    (e : Option Event) :
    s.Tale e (allocate o setup n s).1.records (allocate o setup n s).1.slot := by
  have hcases := allocated o setup n s
  generalize allocate o setup n s = done at hcases
  cases hcases with
  | refused error => exact .served (.refl e s)
  | unseeded i fault hidle =>
      have hcall : s.call = none := (h.law.idle hidle).1.call
      exact .served (.vacant hcall hcall (Nat.le_succ _))
  | begun i hidle =>
      have hcall : s.call = none := (h.law.idle hidle).1.call
      have hrun := Continued.run o (entered o setup n i s).slot
      have hrecords : ((entered o setup n i s).and (run o)).records =
          [(called o setup n s).startRecord s.id] := by
        rw [records_and hrun.id, hrun.records, List.append_nil]
        exact congrArg (fun r => [r]) (fill_blank_start o.clock.now s.id (called o setup n s))
      rw [hrecords]
      obtain ⟨-, hphase⟩ | ⟨-, reason, hphase⟩ := hrun.phase
      · exact .begun (called o setup n s) hcall hphase hrun.sequence.symm
          (hrun.sequence ▸ Nat.lt_succ_self _)
      · exact .begun { called o setup n s with reason } hcall hphase hrun.sequence.symm
          (hrun.sequence ▸ Nat.lt_succ_self _)

end Work

end Switchboard
