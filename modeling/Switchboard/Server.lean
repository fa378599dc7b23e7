import Switchboard.Exchange.Calls
import Switchboard.Exchange.Service
import Switchboard.Mailbox
import Switchboard.Record.Sink

/-!
# Switchboard.Server

An exchange with workers.

1. While a server runs, a ticker looks after the timers, a dispatcher posts
   the messages, and a poster writes the records. Each comes when it is
   called, in the order of calling, and does all there is to do for it; only
   the poster leaves records beyond a limit for its next turn.
2. A sender that waits for room gives the workers a turn when there is none,
   and also when it has sent many messages on end.
3. A worker whose work is broken off does not come again.  What the dispatcher
   has not posted then is lost, and no more messages are taken.
4. A server stops in order: first the queued messages are posted, then all
   calls are ended, then all records are written.
5. A server runs once, since the records that are handed in can be taken over
   only once.
-/

namespace Switchboard

/-- Why a server does not start. -/
inductive StartProblem where
  | alreadyRunning
  | logging (problem : Config.Problem)
  | queueTaken
deriving Repr, DecidableEq

/-- The problem in words. -/
def StartProblem.message : StartProblem → String
  | .alreadyRunning => "IVR server is already running"
  | .logging _ => "Failed to set up logging"
  | .queueTaken => "Call detail queue was already taken from this driver"

/-- A server that writes its records to a sink. -/
structure Server (σ τ : Type) where
  exchange : Exchange σ
  sink : Sink τ
  store : τ
  /-- The mailbox, open while the server runs; none before the first start. -/
  mailbox : Option Mailbox
  isRunning : Bool
  /-- Whether the work of the ticker was broken off. -/
  tickerFailed : Bool

namespace Server

variable {σ τ : Type}

/-- A server that has not been started. -/
def new (exchange : Exchange σ) (sink : Sink τ) (store : τ) : Server σ τ :=
  ⟨exchange, sink, store, none, false, false⟩

/-- Change the books. -/
def withLedger (s : Server σ τ) (f : Ledger → Ledger) : Server σ τ :=
  { s with exchange := { s.exchange with ledger := f s.exchange.ledger } }

/-! ## the poster -/

/-- Write a record and hand it back. -/
def writeRecord (s : Server σ τ) (r : CallRecord) : Server σ τ :=
  let (result, notices, store) := s.sink.write r s.store
  let s := { s with store }.withLedger (·.notes notices)
  let s := match result with
    | .ok _ => s
    | .error error => s.withLedger fun l =>
        { l.note (.recordLost r error) with records := l.records.noteDropped }
  s.withLedger fun l => { l with records := l.records.recycle r }

/-- Write the records that have waited longest, `count` of them at most. -/
def postRecords (s : Server σ τ) (count : Nat) : Server σ τ :=
  let records := s.exchange.ledger.records
  let s := s.withLedger fun l =>
    { l with records := { records with pending := records.pending.drop count } }
  (records.pending.take count).foldl writeRecord s

/-- The number of records that wait. -/
def waiting (s : Server σ τ) : Nat := s.exchange.ledger.records.pending.length

/-! ## the other workers -/

/-- Post all messages that wait. -/
def dispatch (s : Server σ τ) : Server σ τ :=
  match s.mailbox with
  | none => s
  | some m =>
    match s.exchange.deliverAll m.messages with
    | (exchange, true) => { s with exchange, mailbox := some { m with messages := [] } }
    | (exchange, false) => { s with exchange, mailbox := some m.close }

/-- Look at the timers. -/
def tick (s : Server σ τ) : Server σ τ :=
  if s.tickerFailed then s
  else
    let now := s.exchange.office.clock.now
    { s with exchange := (s.exchange.expireDue now).1, tickerFailed := s.exchange.breaksDue now }

/-! ## turns -/

/-- What a worker or a sender does on end before it makes room for others:
records written, or messages sent. -/
def turnLimit : Nat := 128

/-- Rounds of work at most before a server is asked again. -/
def patience : Nat := 20000

/-- A worker has come: it is no longer called. -/
def answer (s : Server σ τ) (w : Worker) : Server σ τ :=
  s.withLedger fun l => { l with called := l.called.filter (· != w) }

/-- Let the ticker look at the timers for as long as its looks set others. -/
def tickOn : Nat → Server σ τ → Server σ τ
  | 0, s => s
  | n + 1, s =>
    let s := (s.answer .ticker).tick
    if s.exchange.ledger.called.contains .ticker then tickOn n s else s

/-- Let the workers that are called do their work, until none is called. Once
the poster has reached its limit, it is not called any more; the answer tells
that it takes another turn. -/
def turn : Nat → Bool → Server σ τ → Server σ τ × Bool
  | 0, again, s => (s, again)
  | n + 1, again, s =>
    match s.exchange.ledger.called with
    | [] => (s, again)
    | .ticker :: _ => turn n again (tickOn n s)
    | .dispatcher :: _ => turn n again (s.answer .dispatcher).dispatch
    | .poster :: _ =>
      let s := s.answer .poster
      if again then turn n again s
      else turn n (turnLimit ≤ s.waiting) (s.postRecords turnLimit)

/-- Let the workers that are called take one turn, if there are any. -/
def pause (s : Server σ τ) : Server σ τ × Bool :=
  if s.isRunning then
    let (s, again) := turn patience false s
    (if again then s.withLedger (·.call .poster) else s, again)
  else (s.withLedger fun l => { l with called := [] }, false)

/-- Let the workers take turns until nobody takes another. -/
def settle : Nat → Server σ τ → Server σ τ
  | 0, s => s
  | n + 1, s =>
    let (s, again) := s.pause
    if again then settle n s else s

/-- Let all work be done that can be done at once. -/
def rest (s : Server σ τ) : Server σ τ := settle patience s

/-! ## starting and stopping -/

/-- Start the workers. -/
def start (s : Server σ τ) : Server σ τ × Except StartProblem Unit :=
  if s.isRunning then (s, .error .alreadyRunning)
  else match s.exchange.config.logging.check with
    | .error problem => (s, .error (.logging problem))
    | .ok _ =>
      match s.exchange.takeQueue with
      | (exchange, false) => ({ s with exchange }, .error .queueTaken)
      | (exchange, true) =>
        let s := { s with
          exchange
          mailbox := some (.new exchange.config.workers.queueCapacity)
          isRunning := true }
        (s.withLedger fun l => { l with called := [.poster, .ticker, .dispatcher] }, .ok ())

/-- Write what is left, and take no more records. -/
def finishRecords (s : Server σ τ) : Server σ τ :=
  let s := s.postRecords s.waiting
  let s := match s.sink.flush s.store with
    | .ok _ => s
    | .error error => s.withLedger (·.note (.flushFailed error))
  s.withLedger fun l => { l with records := l.records.close, called := [] }

/-- Stop the workers and end all calls. The answer is the number of calls there were. -/
def stop (s : Server σ τ) : Server σ τ × Nat :=
  if !s.isRunning then (s, 0)
  else
    let s := s.dispatch
    let s := { s with mailbox := s.mailbox.map Mailbox.close }
    let (exchange, ended) := s.exchange.shutdown
    ({ s with exchange, isRunning := false }.finishRecords, ended)

/-! ## messages -/

/-- Send a message, if the server has been started. -/
def send (s : Server σ τ) (m : Message) : Server σ τ × Option (Except Error Unit) :=
  match s.mailbox with
  | none => (s, none)
  | some mailbox =>
    match mailbox.send m with
    | .ok mailbox =>
      ({ s with mailbox := some mailbox }.withLedger (·.call .dispatcher), some (.ok ()))
    | .error e => (s, some (.error e))

/-- Whether there is no room for a message. -/
def isFull (s : Server σ τ) : Bool := s.mailbox.any Mailbox.isFull

/-- Send messages, and wait for room where there is none. `left` more of them
can be sent on end. -/
def sendAll (left : Nat) (s : Server σ τ) :
    List Message → Server σ τ × List (Option (Except Error Unit))
  | [] => (s, [])
  | m :: ms =>
    let (s, left) := if left = 0 || s.isFull then (s.pause.1, turnLimit) else (s, left)
    let (s, answer) := s.send m
    let (s, answers) := sendAll (left - 1) s ms
    (s, answer :: answers)

/-- Send messages in order, and wait for room where there is none. -/
def sendWaiting (s : Server σ τ) (ms : List Message) :
    Server σ τ × List (Option (Except Error Unit)) := sendAll turnLimit s ms

end Server

end Switchboard
