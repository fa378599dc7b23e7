import Switchboard.Proofs.Exchange.Records
import Switchboard.Server

/-!
# Switchboard.Proofs.Server.Course

What becomes of a server, and of the records that are handed in.

1. A sink that was offered records, one after the other, is in the state `Sink.after`.
   Writing records changes the store, and nothing of the exchange but the annex to
   its books (`Wrote`).
2. A `Course` is what happens to a server: it is started, its exchange is used, messages
   are sent, and records are written.  Whatever the workers do is made up of these
   (`onward_pause`, `onward_sendAll`).
3. Nothing that is done depends on the annex (`Lawful.perform_beside`).  So a server
   does what its exchange would do without one, and the records that were handed in
   are those that its sink was offered and, behind them, those that wait (`Course.kept`).
-/

namespace Switchboard

open RecordPool (Taken)

/-! ## sinks -/

/-- The state of a sink that was offered records, one after the other. -/
def Sink.after {τ : Type} (sink : Sink τ) (store : τ) (rs : List CallRecord) : τ :=
  rs.foldl (fun store r => (sink.write r store).2.2) store

/-- A sink takes records one after the other. -/
theorem Sink.after_append {τ : Type} (sink : Sink τ) (store : τ) (rs ss : List CallRecord) :
    sink.after store (rs ++ ss) = sink.after (sink.after store rs) ss := List.foldl_append

/-- A sink that keeps records keeps all that it is offered, in order. -/
theorem Outlet.after_kept (kept rs : List CallRecord) :
    Outlet.sink.after (.kept kept) rs = .kept (kept ++ rs) := by
  induction rs generalizing kept with
  | nil => rw [List.append_nil]; rfl
  | cons r rest ih => exact (ih (kept ++ [r])).trans (by rw [List.append_assoc]; rfl)

/-! ## the exchange of a server -/

namespace Exchange

variable {σ : Type} {x y : Exchange σ}

/-- An operation does the same, and hands in the same records, whatever the annex holds. -/
theorem Lawful.perform_beside (hx : x.Lawful) (hblank : x.ledger.records.Blank) (op : Operation)
    (b : Annex) (hb : b.records.Blank) :
    (x.beside b).handedIn op = x.handedIn op ∧
      ∃ b', (x.beside b).perform op = (x.perform op).beside b' ∧
        Taken b.records (x.handedIn op) b'.records := by
  obtain ⟨rs, hands, -⟩ := reports_perform hx op
  have handed (b : Annex) (hb : b.records.Blank) : (x.beside b).handedIn op = rs := by
    obtain ⟨b', hsame, htaken⟩ :=
      hands { b with records := { b.records with pending := [], isOpen := true } } hb
    have hperformed : (x.beside b).attended.perform op = (x.perform op).beside b' :=
      congrArg Prod.fst hsame
    unfold Exchange.handedIn
    rw [hperformed]
    exact htaken.pending
  have hhere : x.handedIn op = rs := handed x.ledger.annex hblank
  obtain ⟨b', hsame, htaken⟩ := hands b hb
  exact ⟨(handed b hb).trans hhere.symm, b', congrArg Prod.fst hsame, hhere ▸ htaken⟩

/-- Of two annexes, one put in the place of the other, the last counts. -/
theorem beside_eq {a : Annex} (h : y = x.beside a) (b : Annex) : y.beside b = x.beside b := by
  subst h
  rfl

/-- What happens elsewhere beside one annex happens beside another. -/
theorem Elsewhere.beside {b : Annex} (h : Elsewhere (x.beside b) y) :
    Elsewhere x (y.beside x.ledger.annex) :=
  ⟨h.config, h.office, h.slots, congrArg (Ledger.beside · x.ledger.annex) h.ledger,
    fun _ hid => hid, h.commands⟩

/-- The records that messages hand in when they are posted in order, until none is left or
the work on one of them is broken off. -/
def handedInBy (x : Exchange σ) : List Message → List CallRecord
  | [] => []
  | m :: rest =>
    x.handedIn (.post m.slot m.event) ++
      if x.breaksOn m then [] else (x.deliver m).1.handedInBy rest

/-- The exchange after messages, all of them delivered. -/
def afterAll (x : Exchange σ) (ms : List Message) : Exchange σ :=
  ms.foldl (fun x m => (x.deliver m).1) x

/-- The messages that are delivered when messages are posted in order: none behind one on
which the work is broken off. -/
def posted (x : Exchange σ) : List Message → List Message
  | [] => []
  | m :: rest => m :: if x.breaksOn m then [] else (x.deliver m).1.posted rest

/-- To post messages in order is to deliver those. -/
theorem deliverAll_eq_afterAll (x : Exchange σ) (ms : List Message) :
    (x.deliverAll ms).1 = x.afterAll (x.posted ms) := by
  induction ms generalizing x with
  | nil => rfl
  | cons m rest ih =>
      rw [deliverAll, posted]
      split
      · rfl
      · exact ih (x.deliver m).1

/-- What is posted of a queue is its front. -/
theorem posted_prefix (x : Exchange σ) (ms : List Message) : x.posted ms <+: ms := by
  induction ms generalizing x with
  | nil => exact List.prefix_refl []
  | cons m rest ih =>
      rw [posted]
      split
      · exact List.cons_prefix_cons.mpr ⟨rfl, List.nil_prefix⟩
      · exact List.cons_prefix_cons.mpr ⟨rfl, ih (x.deliver m).1⟩

/-- All messages are delivered exactly if the work on none but the last is broken off. -/
theorem posted_eq_iff (x : Exchange σ) (ms : List Message) : x.posted ms = ms ↔
    ∀ pre m rest, ms = pre ++ m :: rest → rest ≠ [] → (x.afterAll pre).breaksOn m = false := by
  induction ms generalizing x with
  | nil => simp [posted]
  | cons m rest ih =>
      rw [posted]
      constructor
      · intro hall pre n later hsplit hlater
        have hrest := (List.cons.inj hall).2
        cases pre with
        | nil =>
            obtain ⟨rfl, rfl⟩ := List.cons.inj hsplit
            refine Bool.eq_false_iff.mpr fun hbreaks => hlater ?_
            rw [show x.breaksOn m = true from hbreaks, if_pos rfl] at hrest
            exact hrest.symm
        | cons first pre =>
            obtain ⟨rfl, rfl⟩ := List.cons.inj hsplit
            split at hrest
            · simp at hrest
            · exact (ih (x.deliver m).1).mp hrest pre n later rfl hlater
      · intro hreturns
        have hlater : (x.deliver m).1.posted rest = rest := (ih (x.deliver m).1).mpr
          fun pre n later hsplit => hreturns (m :: pre) n later (congrArg (m :: ·) hsplit)
        cases rest with
        | nil => cases x.breaksOn m <;> rfl
        | cons n rest =>
            rw [show x.breaksOn m = false from hreturns [] m (n :: rest) rfl (by simp), hlater]
            rfl

/-- To deliver a message is to post its event, and perhaps to say that it was lost. -/
theorem elsewhere_deliver (x : Exchange σ) (m : Message) :
    Elsewhere (x.perform (.post m.slot m.event)) (x.deliver m).1 ∧
      (x.deliver m).1.ledger.records = (x.perform (.post m.slot m.event)).ledger.records := by
  have hperformed : x.perform (.post m.slot m.event) = (x.post m.slot m.event).1 := rfl
  rw [hperformed]
  unfold deliver
  generalize x.post m.slot m.event = posted
  obtain ⟨y, answer⟩ := posted
  cases answer with
  | ok outcome => exact ⟨.refl y, rfl⟩
  | error e => exact ⟨.notes y (by simp), rfl⟩

end Exchange

/-- A mailbox that takes a message has other messages then, and is the same otherwise. -/
theorem Mailbox.eq_of_send {m sent : Mailbox} {message : Message}
    (h : m.send message = .ok sent) : sent = { m with messages := sent.messages } := by
  unfold Mailbox.send at h
  split at h
  · exact nomatch h
  · split at h
    · exact nomatch h
    · obtain rfl := Except.ok.inj h
      rfl

namespace Server

variable {σ τ : Type} {s t u : Server σ τ} {sink : Sink τ} {store : τ} {rs : List CallRecord}

open Exchange (Operation Elsewhere Recorded Plan)

/-! ## writing records -/

/-- The records that were handed in and wait to be written. -/
def pending (s : Server σ τ) : List CallRecord := s.exchange.ledger.records.pending

/-- A sink was offered records, and nothing else has happened to a server, but for the
annex to its books. -/
structure Wrote (s : Server σ τ) (rs : List CallRecord) (t : Server σ τ) : Prop where
  sink : t.sink = s.sink
  store : t.store = s.sink.after s.store rs
  mailbox : t.mailbox = s.mailbox
  isRunning : t.isRunning = s.isRunning
  exchange : t.exchange = s.exchange.beside t.exchange.ledger.annex
  pending : t.pending = s.pending
  isOpen : t.exchange.ledger.records.isOpen = s.exchange.ledger.records.isOpen
  blank : s.exchange.ledger.records.Blank → t.exchange.ledger.records.Blank

namespace Wrote

/-- Nothing has been written. -/
theorem refl (s : Server σ τ) : Wrote s [] s := ⟨rfl, rfl, rfl, rfl, rfl, rfl, rfl, id⟩

/-- What is written twice is written one after the other. -/
theorem trans {ss : List CallRecord} (h : Wrote s rs t) (h' : Wrote t ss u) :
    Wrote s (rs ++ ss) u := by
  refine ⟨h'.sink.trans h.sink, ?_, h'.mailbox.trans h.mailbox, h'.isRunning.trans h.isRunning,
    ?_, h'.pending.trans h.pending, h'.isOpen.trans h.isOpen, fun hb => h'.blank (h.blank hb)⟩
  · rw [Sink.after_append, ← h.store, ← h.sink]
    exact h'.store
  · exact h'.exchange.trans (Exchange.beside_eq h.exchange _)

/-- One record is written. -/
theorem record (s : Server σ τ) (r : CallRecord) : Wrote s [r] (s.writeRecord r) := by
  unfold writeRecord
  generalize hw : s.sink.write r s.store = written
  obtain ⟨result, notices, store⟩ := written
  have hoffered : store = s.sink.after s.store [r] := (congrArg (·.2.2) hw).symm
  have hrecycled (p : RecordPool) : (p.recycle r).pending = p.pending ∧
      (p.recycle r).isOpen = p.isOpen := by rw [RecordPool.recycle_eq]; exact ⟨rfl, rfl⟩
  cases result with
  | ok _ =>
      obtain ⟨hpending, hisOpen⟩ := hrecycled s.exchange.ledger.records
      exact ⟨rfl, hoffered, rfl, rfl, rfl, hpending, hisOpen, fun hb => hb.recycle r⟩
  | error e =>
      obtain ⟨hpending, hisOpen⟩ := hrecycled s.exchange.ledger.records.noteDropped
      exact ⟨rfl, hoffered, rfl, rfl, rfl, hpending, hisOpen,
        fun hb => RecordPool.Blank.recycle (p := s.exchange.ledger.records.noteDropped) hb r⟩

/-- The records of a list are all written. -/
theorem all (s : Server σ τ) (rs : List CallRecord) : Wrote s rs (rs.foldl writeRecord s) := by
  induction rs generalizing s with
  | nil => exact .refl s
  | cons r rest ih => exact (record s r).trans (ih (s.writeRecord r))

end Wrote

/-- A server whose records no longer wait, `count` of them. -/
def taken (s : Server σ τ) (count : Nat) : Server σ τ :=
  s.withLedger fun l => { l with records :=
    { l.records with pending := l.records.pending.drop count } }

/-- A round of the poster writes what it takes. -/
theorem wrote_postRecords (s : Server σ τ) (count : Nat) :
    Wrote (s.taken count) (s.pending.take count) (s.postRecords count) := .all _ _

/-! ## what happens to a server -/

/-- A server, with the records that were handed in since its exchange was built.  The
server may be started, and anybody may use its exchange; time passes, workers are
called and come, and their work may be broken off; any messages may be sent, and some of
them posted; and the poster writes any number of the records that wait. -/
inductive Course (sink : Sink τ) (store : τ) : List CallRecord → Server σ τ → Prop
  | new {c : Config} {p : Plan σ} {x : Exchange σ} : Exchange.build c p = .ok x →
      Course sink store [] (.new x sink store)
  | start {rs : List CallRecord} {s : Server σ τ} : Course sink store rs s →
      Course sink store rs s.start.1
  | perform {rs : List CallRecord} {s : Server σ τ} (op : Operation) : Course sink store rs s →
      Course sink store (rs ++ s.exchange.handedIn op)
        { s with exchange := s.exchange.perform op }
  | elsewhere {rs : List CallRecord} {s : Server σ τ} {x : Exchange σ} :
      Course sink store rs s → Elsewhere s.exchange x →
      x.ledger.records = s.exchange.ledger.records → Course sink store rs { s with exchange := x }
  | workers {rs : List CallRecord} {s : Server σ τ} (f : Mailbox → Mailbox) (tickerFailed : Bool) :
      Course sink store rs s →
      Course sink store rs { s with mailbox := s.mailbox.map f, tickerFailed }
  | write {rs : List CallRecord} {s : Server σ τ} (count : Nat) : Course sink store rs s →
      Course sink store rs (s.postRecords count)

/-- The messages that wait to be posted. -/
def queue (s : Server σ τ) : List Message := (s.mailbox.map (·.messages)).getD []

namespace Course

/-- Messages are posted in order. -/
theorem deliverAll (h : Course sink store rs s) (ms : List Message) :
    Course sink store (rs ++ s.exchange.handedInBy ms)
      { s with exchange := (s.exchange.deliverAll ms).1 } := by
  induction ms generalizing rs s with
  | nil => rwa [Exchange.handedInBy, List.append_nil]
  | cons m rest ih =>
      obtain ⟨hlost, hrecords⟩ := s.exchange.elsewhere_deliver m
      have hposted := (h.perform (.post m.slot m.event)).elsewhere hlost hrecords
      rw [Exchange.handedInBy, Exchange.deliverAll]
      split
      · rw [List.append_nil]
        exact hposted
      · have hothers := ih hposted
        rw [List.append_assoc] at hothers
        exact hothers

/-- The dispatcher posts the messages that wait. -/
theorem dispatch (h : Course sink store rs s) :
    Course sink store (rs ++ s.exchange.handedInBy s.queue) s.dispatch := by
  have hposted := h.deliverAll s.queue
  obtain ⟨x, sink, store, mailbox, isRunning, tickerFailed⟩ := s
  cases mailbox with
  | none =>
      simpa [queue, Server.dispatch, Exchange.deliverAll, Exchange.handedInBy] using hposted
  | some m =>
      unfold Server.dispatch
      dsimp only [queue, Option.map_some, Option.getD_some] at hposted ⊢
      generalize x.deliverAll m.messages = delivered at hposted
      obtain ⟨y, whole⟩ := delivered
      cases whole with
      | true => exact hposted.workers (fun m => { m with messages := [] }) tickerFailed
      | false => exact hposted.workers Mailbox.close tickerFailed

end Course

/-! ## what the workers do -/

/-- From one state of a server another comes about, whatever its past. -/
structure Onward (s t : Server σ τ) : Prop where
  course : ∀ {sink : Sink τ} {store : τ} {rs : List CallRecord}, Course sink store rs s →
    ∃ ss, Course sink store (rs ++ ss) t

namespace Onward

/-- A server follows itself. -/
theorem refl (s : Server σ τ) : Onward s s := ⟨fun h => ⟨[], by rwa [List.append_nil]⟩⟩

/-- What follows a follower follows the first. -/
theorem trans (h : Onward s t) (h' : Onward t u) : Onward s u := by
  refine ⟨fun hs => ?_⟩
  obtain ⟨ss, ht⟩ := h.course hs
  obtain ⟨us, hu⟩ := h'.course ht
  exact ⟨ss ++ us, by rwa [← List.append_assoc]⟩

/-- No records are handed in on the way. -/
theorem of_quiet (h : ∀ {sink : Sink τ} {store : τ} {rs : List CallRecord},
    Course sink store rs s → Course sink store rs t) : Onward s t :=
  ⟨fun hs => ⟨[], by rw [List.append_nil]; exact h hs⟩⟩

end Onward

/-- Workers are called, or come. -/
theorem onward_called (s : Server σ τ) (f : Ledger → List Worker) :
    Onward s (s.withLedger fun l => { l with called := f l }) :=
  .of_quiet fun h => h.elsewhere ⟨rfl, rfl, rfl, rfl, fun _ h => h, rfl⟩ rfl

/-- A call of the adapter leads onward. -/
theorem onward_call (s : Server σ τ) (w : Worker) : Onward s (s.withLedger (·.call w)) := by
  have hcalled : s.exchange.ledger.call w =
      { s.exchange.ledger with called := (s.exchange.ledger.call w).called } := by
    unfold Ledger.call
    split <;> rfl
  have hsame : s.withLedger (·.call w) =
      s.withLedger fun l => { l with called := (s.exchange.ledger.call w).called } :=
    congrArg (fun ledger => { s with exchange := { s.exchange with ledger } }) hcalled
  rw [hsame]
  exact s.onward_called _

/-- So does a tick. -/
theorem onward_tick (s : Server σ τ) : Onward s s.tick := by
  unfold tick
  split
  · exact .refl s
  · refine ⟨fun h => ⟨s.exchange.handedIn (.expireDue s.exchange.office.clock.now), ?_⟩⟩
    have hlook := (h.perform (.expireDue s.exchange.office.clock.now)).workers id
      (s.exchange.breaksDue s.exchange.office.clock.now)
    rw [Option.map_id] at hlook
    exact hlook

/-- So does a round of the dispatcher. -/
theorem onward_dispatch (s : Server σ τ) : Onward s s.dispatch := ⟨fun h => ⟨_, h.dispatch⟩⟩

/-- So does a round of the poster. -/
theorem onward_postRecords (s : Server σ τ) (count : Nat) : Onward s (s.postRecords count) :=
  .of_quiet fun h => h.write count

/-- So do any number of ticks. -/
theorem onward_tickOn (n : Nat) (s : Server σ τ) : Onward s (tickOn n s) := by
  induction n generalizing s with
  | zero => exact .refl s
  | succ n ih =>
      have hlooked := (s.onward_called fun l => l.called.filter (· != .ticker)).trans
        (onward_tick _)
      rw [tickOn]
      split
      · exact hlooked.trans (ih _)
      · exact hlooked

/-- So does a turn of all three. -/
theorem onward_turn (n : Nat) (again : Bool) (s : Server σ τ) : Onward s (turn n again s).1 := by
  induction n generalizing again s with
  | zero => exact .refl s
  | succ n ih =>
      have hanswered (w : Worker) : Onward s (s.answer w) :=
        s.onward_called fun l => l.called.filter (· != w)
      rw [turn]
      split
      · exact .refl s
      · exact (onward_tickOn n s).trans (ih _ _)
      · exact ((hanswered .dispatcher).trans (onward_dispatch _)).trans (ih _ _)
      · dsimp only
        split
        · exact (hanswered .poster).trans (ih _ _)
        · exact ((hanswered .poster).trans (onward_postRecords _ _)).trans (ih _ _)

/-- When the workers that are called take a turn. -/
theorem onward_pause (s : Server σ τ) : Onward s s.pause.1 := by
  unfold pause
  split
  · have hturned := onward_turn patience false s
    generalize turn patience false s = after at hturned
    obtain ⟨t, again⟩ := after
    dsimp only at hturned ⊢
    split
    · exact hturned.trans (onward_call t .poster)
    · exact hturned
  · exact s.onward_called fun _ => []

/-- When the workers take turns until nobody takes another. -/
theorem onward_settle (n : Nat) (s : Server σ τ) : Onward s (settle n s) := by
  induction n generalizing s with
  | zero => exact .refl s
  | succ n ih =>
      have hpaused := onward_pause s
      rw [settle]
      generalize s.pause = after at hpaused
      obtain ⟨t, again⟩ := after
      dsimp only at hpaused ⊢
      split
      · exact hpaused.trans (ih t)
      · exact hpaused

/-- When a message is sent. -/
theorem onward_send (s : Server σ τ) (m : Message) : Onward s (s.send m).1 := by
  unfold send
  split
  · exact .refl s
  · next mailbox hm =>
    split
    · next sent hsent =>
      have hmailed : Onward s { s with mailbox := some sent } := by
        refine .of_quiet fun h => ?_
        have hput := h.workers (fun m => { m with messages := sent.messages }) s.tickerFailed
        rw [hm, Option.map_some, ← Mailbox.eq_of_send hsent] at hput
        exact hput
      exact hmailed.trans (onward_call _ .dispatcher)
    · exact .refl s

/-- When messages are sent, and workers take turns where there is no room. -/
theorem onward_sendAll (left : Nat) (s : Server σ τ) (ms : List Message) :
    Onward s (sendAll left s ms).1 := by
  induction ms generalizing left s with
  | nil => exact .refl s
  | cons m rest ih =>
      have hroom :
          Onward s (if left = 0 || s.isFull then (s.pause.1, turnLimit) else (s, left)).1 := by
        split
        · exact onward_pause s
        · exact .refl s
      rw [sendAll]
      generalize (if left = 0 || s.isFull then (s.pause.1, turnLimit) else (s, left)) = ready
        at hroom
      obtain ⟨t, left⟩ := ready
      exact (hroom.trans (onward_send t m)).trans (ih _ _)

/-! ## the records that were handed in -/

/-- A server does what an exchange `x` without a server does, beside an annex of its own;
the records that were handed in are those that its sink was offered and, behind
them, those that wait. -/
structure Kept (sink : Sink τ) (store : τ) (rs : List CallRecord) (s : Server σ τ) : Prop where
  exchange : ∃ x, Recorded rs x ∧ s.exchange = x.beside s.exchange.ledger.annex
  blank : s.exchange.ledger.records.Blank
  isOpen : s.exchange.ledger.records.isOpen = true
  offered : ∃ offered, rs = offered ++ s.pending ∧ s.store = sink.after store offered
  sink : s.sink = sink

namespace Kept

/-- What happens elsewhere leaves the records as they are. -/
theorem elsewhere (h : Kept sink store rs s) (hsink : t.sink = s.sink) (hstore : t.store = s.store)
    (he : Elsewhere s.exchange t.exchange)
    (hrecords : t.exchange.ledger.records = s.exchange.ledger.records) :
    Kept sink store rs t := by
  obtain ⟨⟨x, hrecorded, hbeside⟩, hblank, hisOpen, hoffered, hsame⟩ := h
  refine ⟨⟨t.exchange.beside x.ledger.annex, ?_, rfl⟩, hrecords ▸ hblank, hrecords ▸ hisOpen, ?_,
    hsink.trans hsame⟩
  · rw [hbeside] at he
    exact hrecorded.elsewhere he.beside .refl
  · rw [pending, hrecords, hstore]
    exact hoffered

/-- The start of a server keeps its records. -/
theorem start (h : Kept sink store rs s) : Kept sink store rs s.start.1 := by
  unfold Server.start
  split
  · exact h
  · split
    · exact h
    · unfold Exchange.takeQueue
      cases s.exchange.queueTaken <;>
        exact h.elsewhere rfl rfl ⟨rfl, rfl, rfl, rfl, fun _ h => h, rfl⟩ rfl

/-- What an operation hands in waits behind the others. -/
theorem perform (h : Kept sink store rs s) (op : Operation) :
    Kept sink store (rs ++ s.exchange.handedIn op)
      { s with exchange := s.exchange.perform op } := by
  obtain ⟨⟨x, hrecorded, hbeside⟩, hblank, hisOpen, ⟨offered, hall, hstore⟩, hsame⟩ := h
  obtain ⟨handed, b, hperformed, htaken⟩ :=
    hrecorded.reach.lawful.perform_beside hrecorded.blank op s.exchange.ledger.annex hblank
  rw [← hbeside] at handed hperformed
  have hwaiting : b.records.pending = s.pending ++ x.handedIn op :=
    htaken.pending.trans (if_pos hisOpen)
  rw [handed]
  refine ⟨⟨x.perform op, hrecorded.perform op, ?_⟩, ?_, ?_, ⟨offered, ?_, hstore⟩, hsame⟩
  · dsimp only
    rw [hperformed]
    rfl
  · dsimp only
    rw [hperformed]
    exact htaken.blank
  · dsimp only
    rw [hperformed]
    exact htaken.isOpen.trans hisOpen
  · unfold pending
    dsimp only
    rw [hperformed, hall, List.append_assoc]
    exact congrArg (offered ++ ·) hwaiting.symm

/-- The records that are written no longer wait. -/
theorem write (h : Kept sink store rs s) (count : Nat) :
    Kept sink store rs (s.postRecords count) := by
  obtain ⟨⟨x, hrecorded, hbeside⟩, hblank, hisOpen, ⟨offered, hall, hstore⟩, hsame⟩ := h
  have hwrote := wrote_postRecords s count
  refine ⟨⟨x, hrecorded, hwrote.exchange.trans (Exchange.beside_eq hbeside _)⟩,
    hwrote.blank hblank, hwrote.isOpen.trans hisOpen, ⟨offered ++ s.pending.take count, ?_, ?_⟩,
    hwrote.sink.trans hsame⟩
  · rw [hwrote.pending, List.append_assoc]
    exact hall.trans (congrArg (offered ++ ·) (List.take_append_drop count s.pending).symm)
  · rw [hwrote.store, Sink.after_append, ← hstore, ← hsame]
    rfl

end Kept

/-- Records are kept along every course. -/
theorem Course.kept (h : Course sink store rs s) : Kept sink store rs s := by
  induction h with
  | new hb =>
      have htaken := Exchange.taken_of_build hb
      exact ⟨⟨_, .of_build hb, rfl⟩, htaken.blank, htaken.isOpen, ⟨[], htaken.pending.symm, rfl⟩,
        rfl⟩
  | start _ ih => exact ih.start
  | perform op _ ih => exact ih.perform op
  | elsewhere _ he hrecords ih => exact ih.elsewhere rfl rfl he hrecords
  | workers f failed _ ih => exact ih.elsewhere rfl rfl (.refl _) rfl
  | write count _ ih => exact ih.write count

end Server

end Switchboard
