import Mathlib.Logic.Relation
import Switchboard.Exchange.Calls
import Switchboard.Exchange.Service

/-!
# Switchboard.Proofs.Exchange.Operation

The operations of an exchange.

1. `Reach` says what becomes of an exchange that was built: any operations are
   carried out, and between two of them time passes, sources change, and
   workers do their part (`Elsewhere`).
2. An operation is made up of few kinds of acts: work on one slot, taking a
   slot from the free ones, new scripts (`Act`, `perform_acts`).  So what every
   act keeps holds in every exchange that can be reached (`Reach.of_acts`).
3. What no client asks for is service: events, timers, new scripts and what
   happens elsewhere (`Service`, `perform_services`).
4. A request either is refused, and nothing happens, or a listed slot is taken
   (`Requested`).  Starting a call is a request, and then a call on the slot
   or its return (`CallStarted`).
-/

namespace Switchboard.Exchange

variable {σ : Type} {x y z : Exchange σ}

/-! ## operations -/

/-- What can be asked of an exchange. -/
inductive Operation where
  | request (group : Option String)
  | restore (id : SlotId)
  | startCall (group : Option String) (setup : CallSetup)
  | allocate (id : SlotId) (setup : CallSetup)
  | post (id : SlotId) (e : Event)
  | release (id : SlotId)
  | suspend (kind : SegmentKind) (name : String)
  | resume (kind : SegmentKind) (name : String)
  | reload
  | expire (id : SlotId) (now : Nat)
  | expireDue (now : Nat)
  | newPeriod
  | shutdown

/-- Carry out an operation. -/
def perform (x : Exchange σ) : Operation → Exchange σ
  | .request group => (x.request group).1
  | .restore id => (x.restore id).1
  | .startCall group setup => (x.startCall group setup).1
  | .allocate id setup => (x.allocate id setup).1
  | .post id e => (x.post id e).1
  | .release id => (x.release id).1
  | .suspend kind name => (x.suspend kind name).1
  | .resume kind name => (x.resume kind name).1
  | .reload => x.reload.1
  | .expire id now => (x.expire id now).1
  | .expireDue now => (x.expireDue now).1
  | .newPeriod => x.newPeriod
  | .shutdown => x.shutdown.1

/-- Carry out operations one after the other. -/
def performAll (x : Exchange σ) (ops : List Operation) : Exchange σ := ops.foldl perform x

/-- What happens without an operation: time passes, sources change, workers
come and handle records, and messages are sent, though not that a slot was
listed twice. -/
structure Elsewhere (x y : Exchange σ) : Prop where
  config : y.config = x.config
  office : y.office = { x.office with clock := y.office.clock }
  slots : y.slots = x.slots
  ledger : y.ledger = { x.ledger with
    records := y.ledger.records
    journal := y.ledger.journal
    called := y.ledger.called
    broken := y.ledger.broken }
  notices : ∀ id, Notice.alreadyIdle id ∈ y.ledger.journal →
    Notice.alreadyIdle id ∈ x.ledger.journal
  commands : y.commands = x.commands

/-- An exchange that was built, and what became of it. -/
inductive Reach : Exchange σ → Prop
  | build {c : Config} {p : Plan σ} {x : Exchange σ} : build c p = .ok x → Reach x
  | perform {x : Exchange σ} (op : Operation) : Reach x → Reach (x.perform op)
  | elsewhere {x y : Exchange σ} : Reach x → Elsewhere x y → Reach y

/-- Operations lead from what can be reached to what can be reached. -/
theorem Reach.performAll (h : Reach x) (ops : List Operation) : Reach (x.performAll ops) := by
  induction ops generalizing x with
  | nil => exact h
  | cons op rest ih => exact ih (h.perform op)

/-! ## building -/

/-- An exchange that is built, before its slots are in service. -/
def unstarted (c : Config) (p : Plan σ) (segments : Segments) (scripts : LoadedScripts) :
    Exchange σ where
  config := c
  office := ⟨c.engine, c.scripts.entry, scripts, p.adapter, p.clock, p.identities⟩
  slots := (List.range segments.slotCount).map fun id => .new id c.engine.limits (p.device id)
  ledger := .new segments c.workers.recordCapacity
  commands := allCommands p.commands
  source := p.source.getD (Source.ofConfig c.scripts)
  directory := p.directory
  queueTaken := false

/-- An exchange is built from a configuration that keeps to the rules, by
enabling all its slots. -/
theorem build_ok {c : Config} {p : Plan σ} (h : build c p = .ok x) :
    c.check = .ok () ∧ ∃ segments scripts, Segments.ofConfig c = .ok segments ∧
      x = (unstarted c p segments scripts).postAll .enable
        (unstarted c p segments scripts).slotIds := by
  unfold build at h
  dsimp only at h
  cases hc : c.check with
  | error problem =>
      rw [hc] at h
      exact nomatch h
  | ok checked =>
      rw [hc] at h
      cases hs : Segments.ofConfig c with
      | error problem =>
          rw [hs] at h
          exact nomatch h
      | ok segments =>
          rw [hs] at h
          cases hl : LoadedScripts.load (allCommands p.commands)
              (p.source.getD (Source.ofConfig c.scripts)) p.directory 1 with
          | error error =>
              rw [hl] at h
              exact nomatch h
          | ok scripts =>
              rw [hl] at h
              exact ⟨rfl, segments, scripts, rfl, (Except.ok.inj h).symm⟩

/-! ## acts -/

/-- What operations are made up of. -/
inductive Act : Exchange σ → Exchange σ → Prop
  | post (x : Exchange σ) (id : SlotId) (e : Event) : Act x (x.post id e).1
  | expire (x : Exchange σ) (id : SlotId) (now : Nat) : Act x (x.expire id now).1
  | allocate (x : Exchange σ) (id : SlotId) (setup : CallSetup) : Act x (x.allocate id setup).1
  | restore (x : Exchange σ) (id : SlotId) : Act x (x.restore id).1
  | take {x : Exchange σ} {members : Option (List SlotId)} {idle : IdlePool} {id : SlotId} :
      x.ledger.idle.take members x.config.policy = (idle, some id) →
      Act x { x with ledger := { x.ledger with idle } }
  | reserve {x : Exchange σ} {members : Option (List SlotId)} {idle : IdlePool} {id : SlotId}
      (group : String) :
      x.ledger.idle.take members x.config.policy = (idle, some id) →
      Act x { x with ledger := { x.ledger with
        idle
        reservations := x.ledger.reservations.insert id group } }
  | reload {x : Exchange σ} (scripts : LoadedScripts) :
      Act x { x with office := { x.office with scripts } }
  | newPeriod (x : Exchange σ) : Act x x.newPeriod
  | elsewhere {x y : Exchange σ} : Elsewhere x y → Act x y

/-- Acts that follow one another. -/
abbrev Acts : Exchange σ → Exchange σ → Prop := Relation.ReflTransGen Act

/-! ## service -/

/-- What happens without a client: events and timers, new scripts, and whatever
happens elsewhere. -/
inductive Service : Exchange σ → Exchange σ → Prop
  | post (x : Exchange σ) (id : SlotId) (e : Event) : Service x (x.post id e).1
  | expire (x : Exchange σ) (id : SlotId) (now : Nat) : Service x (x.expire id now).1
  | reload {x : Exchange σ} (scripts : LoadedScripts) :
      Service x { x with office := { x.office with scripts } }
  | elsewhere {x y : Exchange σ} : Elsewhere x y → Service x y

/-- Service that goes on. -/
abbrev Services : Exchange σ → Exchange σ → Prop := Relation.ReflTransGen Service

/-- A service is an act of the switch. -/
theorem Service.act (h : Service x y) : Act x y := by
  cases h with
  | post id e => exact .post x id e
  | expire id now => exact .expire x id now
  | reload scripts => exact .reload scripts
  | elsewhere he => exact .elsewhere he

/-- Services are acts. -/
theorem Services.acts (h : Services x y) : Acts x y :=
  Relation.ReflTransGen.mono (fun _ _ => Service.act) _ _ h

/-- Nothing need happen elsewhere. -/
theorem Elsewhere.refl (x : Exchange σ) : Elsewhere x x := ⟨rfl, rfl, rfl, rfl, fun _ h => h, rfl⟩

/-- Messages are sent elsewhere, unless one says that a slot was listed twice. -/
theorem Elsewhere.notes (x : Exchange σ) {ns : List Notice}
    (h : ∀ id, Notice.alreadyIdle id ∉ ns) :
    Elsewhere x { x with ledger := x.ledger.notes ns } :=
  ⟨rfl, rfl, rfl, rfl, fun id hid => (List.mem_append.mp hid).resolve_right (h id), rfl⟩

/-- An event for many slots is a run of services. -/
theorem services_postAll (e : Event) (ids : List SlotId) (x : Exchange σ) :
    Services x (x.postAll e ids) := by
  induction ids generalizing x with
  | nil => exact .refl
  | cons id rest ih => exact .head (.post x id e) (ih _)

/-- So is one that stops at the first refusal. -/
theorem services_postEach (e : Event) (ids : List SlotId) (x : Exchange σ)
    (refused : Option Error) : Services x (postEach e ids (x, refused)).1 := by
  induction ids generalizing x refused with
  | nil => exact .refl
  | cons id rest ih => exact .head (.post x id e) (ih _ _)

/-- So is an event for a segment. -/
theorem services_postSegment (x : Exchange σ) (kind : SegmentKind) (name : String) (e : Event) :
    Services x (x.postSegment kind name e).1 := by
  unfold postSegment
  split
  · exact .refl
  · next s _ =>
      have h := services_postEach e s.slots x none
      split
      · next hp => simpa [hp] using h
      · next hp =>
          rw [hp] at h
          exact h.tail (.elsewhere (.notes _ (by simp)))

/-- So is the end of the times of many slots. -/
theorem services_expireEach (now : Nat) (ids : List SlotId) (x : Exchange σ) (n : Nat) :
    Services x (expireEach now ids (x, n)).1 := by
  induction ids generalizing x n with
  | nil => exact .refl
  | cons id rest ih =>
      rw [expireEach]
      dsimp only
      split
      · exact .single (.expire x id now)
      · exact .head (.expire x id now) (ih _ _)

/-- So is a pass over the times that are due. -/
theorem services_expireDue (x : Exchange σ) (now : Nat) : Services x (x.expireDue now).1 :=
  services_expireEach now x.slotIds x 0

/-- So is a reload. -/
theorem services_reload (x : Exchange σ) : Services x x.reload.1 := by
  unfold reload
  split
  · exact .single (.reload _)
  · next error _ =>
      refine .single (.elsewhere (.notes x fun id hid => ?_))
      cases error <;> simp [diagnosticNotices] at hid

/-- So is a release. -/
theorem services_release (x : Exchange σ) (id : SlotId) : Services x (x.release id).1 := by
  have hpost := Service.post x id .release
  unfold release
  generalize x.post id .release = posted at hpost
  obtain ⟨y, answer⟩ := posted
  cases answer with
  | error e => exact .single hpost
  | ok outcome => cases outcome <;> exact .single hpost

/-- Whether an operation is service. -/
def Operation.isService : Operation → Bool
  | .request _ | .restore _ | .startCall _ _ | .allocate _ _ | .newPeriod => false
  | .post _ _ | .release _ | .suspend _ _ | .resume _ _ | .reload | .expire _ _ | .expireDue _
  | .shutdown => true

/-- Operations that no client asks for are service. -/
theorem perform_services (x : Exchange σ) {op : Operation} (h : op.isService = true) :
    Services x (x.perform op) := by
  cases op with
  | post id e => exact .single (.post x id e)
  | release id => exact services_release x id
  | suspend kind name => exact services_postSegment x kind name .disable
  | resume kind name => exact services_postSegment x kind name .enable
  | reload => exact services_reload x
  | expire id now => exact .single (.expire x id now)
  | expireDue now => exact services_expireDue x now
  | shutdown => exact services_postAll .shutdown _ x
  | request | restore | startCall | allocate | newPeriod => simp [Operation.isService] at h

/-! ## clients -/

/-- What comes of a request. -/
inductive Requested (x : Exchange σ) (group : Option String) :
    Exchange σ × Except Error SlotId → Prop
  | refused (e : Error) : Requested x group (x, .error e)
  | taken {idle : IdlePool} {id : SlotId} : group = none →
      x.ledger.idle.take none x.config.policy = (idle, some id) →
      Requested x group ({ x with ledger := { x.ledger with idle } }, .ok id)
  | reserved {name : String} {s : Segment} {idle : IdlePool} {id : SlotId} : group = some name →
      x.ledger.segments.group? name = some s → x.limitReached? s = none →
      x.ledger.idle.take (some s.slots) x.config.policy = (idle, some id) →
      Requested x group ({ x with ledger := { x.ledger with
        idle
        reservations := x.ledger.reservations.insert id s.name } }, .ok id)

/-- What a request of a slot does. -/
theorem requested (x : Exchange σ) (group : Option String) :
    Requested x group (x.request group) := by
  unfold request
  split
  · unfold takeIdle
    split
    · exact .refused _
    · next ht => exact .taken rfl ht
  · next name =>
      split
      · exact .refused _
      · next s hs =>
          unfold reserve
          split
          · exact .refused _
          · next hlimit =>
              unfold takeIdle
              cases ht : x.ledger.idle.take (some s.slots) x.config.policy with
              | mk idle found =>
                  cases found with
                  | none => exact .refused _
                  | some id => exact .reserved rfl hs hlimit ht

/-- A request is a run of acts. -/
theorem acts_request (x : Exchange σ) (group : Option String) : Acts x (x.request group).1 := by
  have hcases := requested x group
  generalize x.request group = answered at hcases
  cases hcases with
  | refused e => exact .refl
  | taken _ ht => exact .single (.take ht)
  | reserved _ _ _ ht => exact .single (.reserve _ ht)

/-- Choosing a script does no more than send messages. -/
theorem elsewhere_chooseScript (x : Exchange σ) (group : Option String) (id : SlotId)
    (setup : CallSetup) : Elsewhere x (x.chooseScript group id setup).1 := by
  unfold chooseScript
  split
  · exact .refl x
  · unfold selectScript
    dsimp only
    split
    · exact .refl x
    · split
      · exact .refl x
      · exact .notes x (by simp)

/-- What comes of starting a call: `r` is what came of the request, and `z` the
exchange in which a call is asked for on the slot that was given out. -/
inductive CallStarted (r : Exchange σ × Except Error SlotId) :
    Exchange σ × Except Error SlotId → Prop
  | refused {e : Error} : r.2 = .error e → CallStarted r (r.1, .error e)
  | begun {z : Exchange σ} {id : SlotId} {setup : CallSetup} {n : Nat} : r.2 = .ok id →
      Elsewhere r.1 z → (z.allocate id setup).2 = some (.ok n) →
      CallStarted r ((z.allocate id setup).1, .ok id)
  | returned {z : Exchange σ} {id : SlotId} {setup : CallSetup} {e : Error} : r.2 = .ok id →
      Elsewhere r.1 z → (z.allocate id setup).2 = some (.error e) →
      CallStarted r (((z.allocate id setup).1.restore id).1, .error e)
  | missing {z : Exchange σ} {id : SlotId} {setup : CallSetup} : r.2 = .ok id →
      Elsewhere r.1 z → (z.allocate id setup).2 = none →
      CallStarted r ((z.allocate id setup).1, .error (.unknownSlot id))

/-- What the start of a call does. -/
theorem callStarted (x : Exchange σ) (group : Option String) (setup : CallSetup) :
    CallStarted (x.request group) (x.startCall group setup) := by
  unfold startCall
  generalize x.request group = requested
  obtain ⟨y, answer⟩ := requested
  cases answer with
  | error e => exact .refused rfl
  | ok id =>
      have hchoose := elsewhere_chooseScript y group id setup
      dsimp only
      generalize y.chooseScript group id setup = chosen at hchoose
      obtain ⟨z, setup⟩ := chosen
      dsimp only
      cases ha : z.allocate id setup with
      | mk w result =>
          have hw : w = (z.allocate id setup).1 := by rw [ha]
          have hr : (z.allocate id setup).2 = result := by rw [ha]
          cases result with
          | none => exact hw ▸ .missing rfl hchoose hr
          | some result =>
              cases result with
              | ok n => exact hw ▸ .begun rfl hchoose hr
              | error e => exact hw ▸ .returned rfl hchoose hr

/-- The start of a call is a run of acts. -/
theorem acts_startCall (x : Exchange σ) (group : Option String) (setup : CallSetup) :
    Acts x (x.startCall group setup).1 := by
  have hrequest := acts_request x group
  have hcases := callStarted x group setup
  generalize x.startCall group setup = answered at hcases
  cases hcases with
  | refused _ => exact hrequest
  | begun _ hz _ => exact (hrequest.tail (.elsewhere hz)).tail (.allocate _ _ _)
  | returned _ hz _ =>
      exact ((hrequest.tail (.elsewhere hz)).tail (.allocate _ _ _)).tail (.restore _ _)
  | missing _ hz _ => exact (hrequest.tail (.elsewhere hz)).tail (.allocate _ _ _)

/-- Every operation is made up of acts. -/
theorem perform_acts (x : Exchange σ) (op : Operation) : Acts x (x.perform op) := by
  cases op with
  | request group => exact acts_request x group
  | restore id => exact .single (.restore x id)
  | startCall group setup => exact acts_startCall x group setup
  | allocate id setup => exact .single (.allocate x id setup)
  | newPeriod => exact .single (.newPeriod x)
  | post | release | suspend | resume | reload | expire | expireDue | shutdown =>
      exact (perform_services x rfl).acts

/-- What acts keep holds of every exchange that can be reached. -/
theorem Reach.of_acts {P : Exchange σ → Prop}
    (hnew : ∀ c p segments scripts, c.check = .ok () → Segments.ofConfig c = .ok segments →
      P (unstarted c p segments scripts))
    (hact : ∀ x y, P x → Act x y → P y) (h : Reach x) : P x := by
  have hacts : ∀ {x y : Exchange σ}, P x → Acts x y → P y := by
    intro x y hx hxy
    induction hxy with
    | refl => exact hx
    | tail _ hlast ih => exact hact _ _ ih hlast
  induction h with
  | build hb =>
      obtain ⟨hc, segments, scripts, hs, rfl⟩ := build_ok hb
      exact hacts (hnew _ _ _ _ hc hs) (services_postAll _ _ _).acts
  | perform op _ ih => exact hacts ih (perform_acts _ op)
  | elsewhere _ he ih => exact hact _ _ ih (.elsewhere he)

/-! ## an exchange to look at -/

/-- Three slots in a group that takes two calls. -/
def trialConfig : Config :=
  { Config.default with
    boards := [⟨"board", [⟨"span", 3⟩], [⟨"group", ["span"], [], some 2, none⟩], []⟩] }

/-- An exchange with one script, and with devices that do what they are told at once. -/
def trialPlan (script : String) : Plan Unit where
  source := some (.memory [("main", script)] none)
  directory := .empty
  adapter := ⟨fun _ w => w, id, id, fun _ _ w => (some .proceed, w)⟩
  device := fun _ => ()
  commands := []
  clock := ⟨0, ⟨⟨2000, 1, 1⟩, 0, 0, 0, 0⟩, ⟨⟨2000, 1, 1⟩, 0, 0⟩⟩
  identities := toString

/-- What is seen when an exchange is built is seen of that exchange. -/
theorem exists_build {α : Type} {c : Config} {p : Plan σ} {f : Exchange σ → α} {a : α}
    (h : (build c p).toOption.map f = some a) : ∃ x, build c p = .ok x ∧ f x = a := by
  cases hb : build c p with
  | error failure =>
      rw [hb] at h
      exact nomatch h
  | ok x =>
      rw [hb] at h
      exact ⟨x, rfl, Option.some.inj h⟩

end Switchboard.Exchange
