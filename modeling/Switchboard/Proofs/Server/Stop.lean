import Switchboard.Proofs.Exchange.Shutdown
import Switchboard.Proofs.Server.Course

/-!
# Switchboard.Proofs.Server.Stop

The end of a server.

1. A server stops in three stages: it posts the messages that wait, shuts its exchange
   down, and writes the records that wait then.  The first two are a part of its course
   (`Course.stopping`), and the last changes the annex to the books only
   (`finishRecords_spec`).
2. So what one stage leaves is taken up by a later one, and no call and no record is left
   in the end: `stop_ends_all_calls`.
3. Messages are lost only behind one on which the work is broken off (`Exchange.posted`),
   but there they are: `stop_loses_message`.
-/

namespace Switchboard

namespace Exchange

variable {σ : Type} {x : Exchange σ}

theorem OutOfService.beside (h : x.OutOfService) (b : Annex) : (x.beside b).OutOfService :=
  ⟨h.offline, h.calls, h.untimed, h.idle, h.unreserved, h.active, h.counts⟩

/-- Where no slot carries a call, the records of each slot are those of whole calls. -/
theorem Recorded.whole {rs : List CallRecord} (h : Recorded rs x)
    (hcalls : ∀ s ∈ x.slots, s.call = none) {id : SlotId} (hthere : id < x.slotCount) :
    ∃ past : List (Call × Nat),
      rs.filter (·.slot == id) =
        past.flatMap (fun p => [p.1.startRecord id, p.1.stopRecord id p.2]) ∧
      (past.map (·.1.sequence)).Pairwise (· < ·) := by
  have hs := List.getElem?_eq_getElem hthere
  obtain ⟨past, hpaired⟩ := h.paired.1 id _ hs
  have hnumber := h.reach.lawful.numbered id _ hs
  have hnone := hcalls _ (List.mem_of_getElem? hs)
  refine ⟨past, ?_, ?_⟩
  · simpa [hnumber, hnone] using hpaired.records
  · simpa [hnone] using hpaired.rising

end Exchange

namespace Server

variable {σ τ : Type} {s : Server σ τ} {sink : Sink τ} {store : τ} {rs : List CallRecord}

/-! ## the stages -/

/-- A server that has posted its messages and shut its exchange down. -/
def stopping (s : Server σ τ) : Server σ τ :=
  { s with
    exchange := (s.exchange.deliverAll s.queue).1.shutdown.1
    mailbox := s.mailbox.map Mailbox.close
    isRunning := false }

theorem stop_eq (hrunning : s.isRunning = true) : s.stop.1 = s.stopping.finishRecords := by
  obtain ⟨x, sink, store, mailbox, isRunning, tickerFailed⟩ := s
  obtain rfl : isRunning = true := hrunning
  cases mailbox with
  | none => rfl
  | some m =>
      unfold stop stopping dispatch
      dsimp only [queue, Option.map_some, Option.getD_some]
      generalize x.deliverAll m.messages = delivered
      obtain ⟨y, whole⟩ := delivered
      cases whole <;> rfl

/-- What is handed in by the messages that are posted, and then when the exchange is shut
down. -/
def lastRecords (s : Server σ τ) : List CallRecord :=
  s.exchange.handedInBy s.queue ++ (s.exchange.deliverAll s.queue).1.handedIn .shutdown

theorem Course.stopping (h : Course sink store rs s) :
    Kept sink store (rs ++ s.lastRecords) s.stopping := by
  have hposted := (h.deliverAll s.queue).perform .shutdown
  rw [List.append_assoc] at hposted
  exact hposted.kept.elsewhere rfl rfl (.refl _) rfl

/-- What is written in the end is all that waits, and no record waits afterwards. -/
theorem finishRecords_spec (s : Server σ τ) :
    s.finishRecords.store = s.sink.after s.store s.pending ∧ s.finishRecords.pending = [] ∧
      ∃ b, s.finishRecords.exchange = s.exchange.beside b := by
  have hwrote := wrote_postRecords s s.waiting
  rw [show s.pending.take s.waiting = s.pending from List.take_length] at hwrote
  unfold finishRecords
  generalize s.postRecords s.waiting = t at hwrote
  have htwin (b : Annex) : t.exchange.beside b = s.exchange.beside b :=
    Exchange.beside_eq hwrote.exchange b
  dsimp only
  cases t.sink.flush t.store with
  | ok _ => exact ⟨hwrote.store, rfl, _, htwin ⟨_, _, _⟩⟩
  | error e => exact ⟨hwrote.store, rfl, _, htwin ⟨_, _, _⟩⟩

/-! ## what is left -/

/-- A server that runs is stopped, whatever it has done and whatever messages wait.

The messages are posted in order, from the first on: all of them exactly if the work on
none but the last is broken off.  Then the exchange is shut down; slots and books are what
they are then, but for the annex.  So all slots are out of service, and no call, no
reservation, no free slot and no timer is left, and no call is counted in any segment.

Whatever the sink, it was offered every record that was handed in since the exchange was
built or while the server stopped, each once and in order, and none waits.  The records
of each slot are those of whole calls, each with its start and its stop, one call after
the other. -/
theorem stop_ends_all_calls (h : Course sink store rs s) (hrunning : s.isRunning = true) :
    s.exchange.posted s.queue <+: s.queue ∧
      (s.exchange.posted s.queue = s.queue ↔ ∀ pre m rest, s.queue = pre ++ m :: rest →
        rest ≠ [] → (s.exchange.afterAll pre).breaksOn m = false) ∧
      (∃ b, s.stop.1.exchange =
        (s.exchange.afterAll (s.exchange.posted s.queue)).shutdown.1.beside b) ∧
      s.stop.1.exchange.OutOfService ∧
      s.stop.1.store = sink.after store (rs ++ s.lastRecords) ∧ s.stop.1.pending = [] ∧
      (∀ r ∈ rs ++ s.lastRecords, r.slot < s.stop.1.exchange.slotCount) ∧
      ∀ id < s.stop.1.exchange.slotCount, ∃ calls : List (Call × Nat),
        (rs ++ s.lastRecords).filter (·.slot == id) =
          calls.flatMap (fun c => [c.1.startRecord id, c.1.stopRecord id c.2]) ∧
        (calls.map (·.1.sequence)).Pairwise (· < ·) := by
  obtain ⟨⟨x, hrecorded, hbeside⟩, -, -, ⟨offered, hall, hstore⟩, hsame⟩ := h.stopping
  obtain ⟨hwritten, hnone, b, hended⟩ := s.stopping.finishRecords_spec
  rw [← stop_eq hrunning] at hwritten hnone hended
  have htwin : s.stop.1.exchange = x.beside b := hended.trans (Exchange.beside_eq hbeside b)
  have hslots : x.slots = (s.exchange.deliverAll s.queue).1.shutdown.1.slots :=
    (congrArg Exchange.slots hbeside).symm
  have hrest : x.OutOfService := hrecorded.reach.outOfService fun slot hslot =>
    Exchange.offline_shutdown _ slot (hslots ▸ hslot)
  refine ⟨s.exchange.posted_prefix s.queue, s.exchange.posted_eq_iff s.queue, ⟨b, ?_⟩, ?_, ?_,
    hnone, ?_, fun id hid => ?_⟩
  · rw [hended, ← Exchange.deliverAll_eq_afterAll]
    rfl
  · rw [htwin]
    exact hrest.beside b
  · rw [hwritten, hsame, hstore, ← Sink.after_append, ← hall]
  · rw [htwin]
    exact hrecorded.paired.2
  · rw [htwin] at hid
    exact hrecorded.whole hrest.calls hid

/-- A server that was built with a script, with two calls that go on, and messages that were
sent to it. -/
def trialBusy (x : Exchange Unit) (ms : List Message) : Server Unit Outlet :=
  let call (s : Server Unit Outlet) : Server Unit Outlet :=
    { s with exchange := s.exchange.perform (.startCall (some "group") Station.trialCall) }
  ((call (call (Server.new x Outlet.sink (.kept [])).start.1)).rest.sendWaiting ms).1

theorem exists_course_trialBusy {c : Config} {p : Exchange.Plan Unit} {x : Exchange Unit}
    (hbuild : Exchange.build c p = .ok x) (ms : List Message) :
    ∃ rs, Course Outlet.sink (.kept []) rs (trialBusy x ms) := by
  have hcalls := ((Course.new hbuild : Course Outlet.sink (.kept []) [] _).start.perform
    (.startCall (some "group") Station.trialCall)).perform
      (.startCall (some "group") Station.trialCall)
  obtain ⟨ss, hcourse⟩ := ((onward_settle patience _).trans
    (onward_sendAll turnLimit _ ms)).course hcalls
  exact ⟨_, hcourse⟩

/-- Two calls go on, and the end of one of them waits to be posted, behind a message for a
slot that there is not. -/
theorem stop_ends_all_calls_two :
    ∃ (s : Server Unit Outlet) (rs : List CallRecord), Course Outlet.sink (.kept []) rs s ∧
      s.isRunning = true ∧ s.exchange.slots.map (·.state) = [.scripting, .scripting, .idle] ∧
      s.queue = [⟨7, .hangup⟩, ⟨0, .drop⟩] ∧ s.stop.1.exchange.OutOfService ∧
      s.stop.1.store = .kept (rs ++ s.lastRecords) ∧
      (rs ++ s.lastRecords).map (fun r => (r.kind, r.slot, r.reason)) =
        [(.start, 0, ""), (.start, 1, ""), (.stop, 0, "drop"), (.stop, 1, "shutdown")] := by
  let ms : List Message := [⟨7, .hangup⟩, ⟨0, .drop⟩]
  have hrun : (Exchange.build Exchange.trialConfig
      (Exchange.trialPlan "@main\n  sleep 60\n  exit\n")).toOption.map (fun x => decide <|
        (trialBusy x ms).isRunning = true ∧
        (trialBusy x ms).exchange.slots.map (·.state) = [.scripting, .scripting, .idle] ∧
        (trialBusy x ms).queue = ms ∧
        (trialBusy x ms).stop.1.store.records.map (fun r => (r.kind, r.slot, r.reason)) =
          [(.start, 0, ""), (.start, 1, ""), (.stop, 0, "drop"), (.stop, 1, "shutdown")]) =
      some true := by decide +kernel
  obtain ⟨x, hbuild, hobserved⟩ := Exchange.exists_build hrun
  obtain ⟨hrunning, hstates, hqueue, hwritten⟩ := of_decide_eq_true hobserved
  obtain ⟨rs, hcourse⟩ := exists_course_trialBusy hbuild ms
  obtain ⟨-, -, -, hout, hoffered, -⟩ := stop_ends_all_calls hcourse hrunning
  rw [Outlet.after_kept] at hoffered
  refine ⟨trialBusy x ms, rs, hcourse, hrunning, hstates, hqueue, hout, hoffered, ?_⟩
  have hkept := congrArg Outlet.records hoffered
  rw [← hwritten]
  exact (congrArg (List.map fun r => (r.kind, r.slot, r.reason)) hkept).symm

/-- The script on one slot wants to sleep for longer than can be said when it is told of a
key.  The drop of the other call waits behind this message, and is lost: the call goes on
until the exchange is shut down. -/
theorem stop_loses_message :
    ∃ (s : Server Unit Outlet) (rs : List CallRecord), Course Outlet.sink (.kept []) rs s ∧
      s.isRunning = true ∧ s.queue = [⟨0, .signal "key"⟩, ⟨1, .drop⟩] ∧
      s.exchange.posted s.queue = [⟨0, .signal "key"⟩] ∧
      s.stop.1.store.records.map (fun r => (r.kind, r.slot, r.reason)) =
        [(.start, 0, ""), (.start, 1, ""), (.stop, 0, "shutdown"), (.stop, 1, "shutdown")] := by
  let ms : List Message := [⟨0, .signal "key"⟩, ⟨1, .drop⟩]
  let script := "@main\n  sleep 60\n  exit\n^key\n  sleep 1e30\n  exit\n"
  have hrun : (Exchange.build Exchange.trialConfig
      (Exchange.trialPlan script)).toOption.map (fun x => decide <|
        (trialBusy x ms).isRunning = true ∧ (trialBusy x ms).queue = ms ∧
        (trialBusy x ms).exchange.posted (trialBusy x ms).queue = [⟨0, .signal "key"⟩] ∧
        (trialBusy x ms).stop.1.store.records.map (fun r => (r.kind, r.slot, r.reason)) =
          [(.start, 0, ""), (.start, 1, ""), (.stop, 0, "shutdown"), (.stop, 1, "shutdown")]) =
      some true := by decide +kernel
  obtain ⟨x, hbuild, hobserved⟩ := Exchange.exists_build hrun
  obtain ⟨hrunning, hqueue, hposted, hwritten⟩ := of_decide_eq_true hobserved
  obtain ⟨rs, hcourse⟩ := exists_course_trialBusy hbuild ms
  exact ⟨trialBusy x ms, rs, hcourse, hrunning, hqueue, hposted, hwritten⟩

end Server

end Switchboard
