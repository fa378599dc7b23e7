import Mathlib.Data.List.Nodup
import Switchboard.Proofs.Exchange.Waiting

/-!
# Switchboard.Proofs.Exchange.Desk

Clients that hold slots.

1. Who is handed a slot gets a ticket for it, and uses it once: a call begins on
   the slot, or the slot is given back (`Ticket`, `Move`).  A ticket lapses when
   its slot goes out of service.
2. Clients make their moves in any order, and service goes on between them
   (`Dealings`).
3. As long as nobody gets a slot for which somebody has a lapsed ticket, a slot
   with a ticket that has not lapsed waits for its client, and there is one
   ticket for it (`InOrder`).
-/

namespace Switchboard

/-- A slot that was handed out. -/
structure Ticket where
  slot : SlotId
  /-- The group that was asked for a slot. -/
  group : Option String
  /-- Whether the slot has been out of service since. -/
  lapsed : Bool
deriving Repr, DecidableEq

/-- A slot whose ticket has not lapsed waits for its client, and is reserved if a
group was asked for. -/
def Ticket.Valid {σ : Type} (x : Exchange σ) (t : Ticket) : Prop :=
  t.lapsed = false → x.Waiting t.slot ∧ (t.group.isSome → x.ledger.Reserves t.slot)

theorem Ticket.Valid.stays {σ : Type} {x y : Exchange σ} {t : Ticket} (h : t.Valid x)
    (hs : Exchange.Stays t.slot x y) : t.Valid y :=
  fun hlapsed => ⟨(h hlapsed).1.stays hs, fun hgroup => hs.reserved.mpr ((h hlapsed).2 hgroup)⟩

/-- What a client does.  Tickets are told by their places among all tickets. -/
inductive Move where
  | request (group : Option String)
  | startCall (group : Option String) (setup : CallSetup)
  | allocate (n : Nat) (setup : CallSetup)
  | restore (n : Nat)

/-- The group, or no group, that a client asks for a slot. -/
def Move.asks? : Move → Option (Option String)
  | .request group | .startCall group _ => some group
  | .allocate _ _ | .restore _ => none

/-- The ticket that a client uses. -/
def Move.ticket? : Move → Option Nat
  | .request _ | .startCall _ _ => none
  | .allocate n _ | .restore n => some n

/-- An exchange, and the tickets of its clients. -/
structure Desk (σ : Type) where
  exchange : Exchange σ
  tickets : List Ticket

namespace Desk

variable {σ : Type} {d : Desk σ} {x y : Exchange σ} {m : Option Move} {id : SlotId} {t u : Ticket}
  {ts : List Ticket} {n k : Nat}

open Exchange (Stays Service Acts)

/-! ## moves -/

/-- A client makes a move.  A ticket is kept if the call is refused. -/
def move (d : Desk σ) : Move → Desk σ
  | .request group => match d.exchange.request group with
    | (x, .ok id) => ⟨x, ⟨id, group, false⟩ :: d.tickets⟩
    | (x, .error _) => ⟨x, d.tickets⟩
  | .startCall group setup => ⟨(d.exchange.startCall group setup).1, d.tickets⟩
  | .allocate n setup => match d.tickets[n]? with
    | none => d
    | some t => match d.exchange.allocate t.slot setup with
      | (x, some (.ok _)) => ⟨x, d.tickets.eraseIdx n⟩
      | (x, _) => ⟨x, d.tickets⟩
  | .restore n => match d.tickets[n]? with
    | none => d
    | some t => ⟨(d.exchange.restore t.slot).1, d.tickets.eraseIdx n⟩

/-- Service goes on; tickets lapse whose slots are out of service then. -/
def served (d : Desk σ) (y : Exchange σ) : Desk σ :=
  ⟨y, d.tickets.map fun t => { t with lapsed := t.lapsed || y.state? t.slot == some .offline }⟩

/-- The slot that a client gets. -/
def handsOut? (d : Desk σ) (m : Option Move) : Option SlotId :=
  (m.bind Move.asks?).bind fun group => (d.exchange.request group).2.toOption

/-- What comes of a move. -/
inductive Moved (d : Desk σ) : Move → Desk σ → Prop
  | handed {group : Option String} {id : SlotId} : (d.exchange.request group).2 = .ok id →
      Moved d (.request group) ⟨(d.exchange.request group).1, ⟨id, group, false⟩ :: d.tickets⟩
  | refused {group : Option String} {e : Error} : (d.exchange.request group).2 = .error e →
      Moved d (.request group) ⟨(d.exchange.request group).1, d.tickets⟩
  | started (group : Option String) (setup : CallSetup) :
      Moved d (.startCall group setup) ⟨(d.exchange.startCall group setup).1, d.tickets⟩
  | begun {n k : Nat} {setup : CallSetup} {t : Ticket} : d.tickets[n]? = some t →
      (d.exchange.allocate t.slot setup).2 = some (.ok k) →
      Moved d (.allocate n setup) ⟨(d.exchange.allocate t.slot setup).1, d.tickets.eraseIdx n⟩
  | denied {n : Nat} {setup : CallSetup} {t : Ticket} : d.tickets[n]? = some t →
      (∀ k, (d.exchange.allocate t.slot setup).2 ≠ some (.ok k)) →
      Moved d (.allocate n setup) ⟨(d.exchange.allocate t.slot setup).1, d.tickets⟩
  | returned {n : Nat} {t : Ticket} : d.tickets[n]? = some t →
      Moved d (.restore n) ⟨(d.exchange.restore t.slot).1, d.tickets.eraseIdx n⟩
  | none {m : Move} {n : Nat} : m.ticket? = some n → d.tickets[n]? = none → Moved d m d

theorem moved (d : Desk σ) (m : Move) : Moved d m (d.move m) := by
  cases m with
  | request group =>
      have hhanded : ∀ {id}, (d.exchange.request group).2 = .ok id → _ := Moved.handed (d := d)
      have hrefused : ∀ {e}, (d.exchange.request group).2 = .error e → _ := Moved.refused (d := d)
      simp only [move]
      split
      · next hr =>
          rw [hr] at hhanded
          exact hhanded rfl
      · next hr =>
          rw [hr] at hrefused
          exact hrefused rfl
  | startCall group setup => exact .started group setup
  | allocate n setup =>
      simp only [move]
      split
      · next ht => exact .none rfl ht
      · next t ht =>
          have hbegun : ∀ {k}, (d.exchange.allocate t.slot setup).2 = some (.ok k) → _ :=
            Moved.begun ht
          have hdenied : (∀ k, (d.exchange.allocate t.slot setup).2 ≠ some (.ok k)) → _ :=
            Moved.denied ht
          split
          · next hr =>
              rw [hr] at hbegun
              exact hbegun rfl
          · next x answer hno hr =>
              rw [hr] at hdenied
              exact hdenied fun k hk => hno k hk
  | restore n =>
      simp only [move]
      split
      · next ht => exact .none rfl ht
      · next ht => exact .returned ht

theorem move_acts (d : Desk σ) (m : Move) : Acts d.exchange (d.move m).exchange := by
  have hmoved := d.moved m
  generalize d.move m = after at hmoved
  cases hmoved with
  | handed _ | refused _ => exact Exchange.acts_request d.exchange _
  | started group setup => exact Exchange.acts_startCall d.exchange group setup
  | begun _ _ | denied _ _ => exact .single (.allocate d.exchange _ _)
  | returned _ => exact .single (.restore d.exchange _)
  | none _ _ => exact .refl

/-! ## dealings -/

/-- What clients and operators have done, the latest first, each with the desk as
it was before; between their moves there is service. -/
inductive Dealings : List (Desk σ × Option Move) → Desk σ → Prop
  | build {c : Config} {p : Exchange.Plan σ} {x : Exchange σ} :
      Exchange.build c p = .ok x → Dealings [] ⟨x, []⟩
  | move {past : List (Desk σ × Option Move)} {d : Desk σ} (m : Move) :
      Dealings past d → Dealings ((d, some m) :: past) (d.move m)
  | service {past : List (Desk σ × Option Move)} {d : Desk σ} {y : Exchange σ} :
      Dealings past d → Service d.exchange y → Dealings ((d, none) :: past) (d.served y)

/-- The desk at every moment, the latest first. -/
def desks (past : List (Desk σ × Option Move)) (d : Desk σ) : List (Desk σ) :=
  d :: past.map (·.1)

/-- Moves of clients, and events that are posted to slots, one after the other. -/
def dealt (past : List (Desk σ × Option Move)) (d : Desk σ) :
    List (Move ⊕ (SlotId × Event)) → List (Desk σ × Option Move) × Desk σ
  | [] => (past, d)
  | .inl m :: rest => dealt ((d, some m) :: past) (d.move m) rest
  | .inr (id, e) :: rest => dealt ((d, none) :: past) (d.served (d.exchange.post id e).1) rest

variable {past : List (Desk σ × Option Move)}

theorem Dealings.dealt (h : Dealings past d) (deeds : List (Move ⊕ (SlotId × Event))) :
    Dealings (dealt past d deeds).1 (dealt past d deeds).2 := by
  induction deeds generalizing past d with
  | nil => exact h
  | cons deed rest ih =>
      cases deed with
      | inl m => exact ih (h.move m)
      | inr posted => exact ih (h.service (.post d.exchange posted.1 posted.2))

/-- What is so when an exchange is built, and what moves and service of a kind
keep, is so at every moment of dealings of that kind. -/
theorem Dealings.induct {P : Desk σ → Prop} {S : Desk σ → Option Move → Prop}
    (h : Dealings past d) (hall : ∀ step ∈ past, S step.1 step.2)
    (hbuild : ∀ c p x, Exchange.build c p = .ok x → P ⟨x, []⟩)
    (hmove : ∀ d m, P d → S d (some m) → P (d.move m))
    (hservice : ∀ d y, P d → S d none → Service d.exchange y → P (d.served y)) :
    ∀ e ∈ desks past d, P e := by
  induction h with
  | build hb =>
      intro e he
      rw [List.mem_singleton.mp he]
      exact hbuild _ _ _ hb
  | @move past d m _ ih =>
      obtain ⟨hlast, hbefore⟩ := List.forall_mem_cons.mp hall
      have hpast := ih hbefore
      exact List.forall_mem_cons.mpr ⟨hmove d m (hpast d (List.mem_cons_self ..)) hlast, hpast⟩
  | @service past d y _ hs ih =>
      obtain ⟨hlast, hbefore⟩ := List.forall_mem_cons.mp hall
      have hpast := ih hbefore
      exact List.forall_mem_cons.mpr
        ⟨hservice d y (hpast d (List.mem_cons_self ..)) hlast hs, hpast⟩

/-- A step is made at one of the moments. -/
theorem mem_desks {step : Desk σ × Option Move} (h : step ∈ past) : step.1 ∈ desks past d :=
  List.mem_cons_of_mem _ (List.mem_map_of_mem h)

theorem Dealings.lawful (h : Dealings past d) : ∀ e ∈ desks past d, e.exchange.Lawful :=
  h.induct (S := fun _ _ => True) (fun _ _ => trivial)
    (fun _ _ _ hb => (Exchange.Reach.build hb).lawful)
    (fun d m hl _ => hl.acts (d.move_acts m)) fun _ _ hl _ hs => hl.act hs.act

/-- Operations that no client asks for are service, and part of the dealings. -/
theorem Dealings.perform (h : Dealings past d) {op : Exchange.Operation}
    (hop : op.isService = true) :
    ∃ since e, Dealings (since ++ past) e ∧ e.exchange = d.exchange.perform op := by
  have hall : ∀ {y}, Exchange.Services d.exchange y →
      ∃ since e, Dealings (since ++ past) e ∧ e.exchange = y := by
    intro y hs
    induction hs with
    | refl => exact ⟨[], d, h, rfl⟩
    | tail _ hlast ih =>
        obtain ⟨since, e, he, rfl⟩ := ih
        exact ⟨(e, none) :: since, e.served _, he.service hlast, rfl⟩
  exact hall (Exchange.perform_services d.exchange hop)

/-! ## tickets in order -/

/-- There is one ticket for each slot that clients hold. -/
def Exclusive (d : Desk σ) : Prop := (d.tickets.map (·.slot)).Nodup

/-- All tickets are good, and no two are for one slot. -/
structure InOrder (d : Desk σ) : Prop where
  exclusive : d.Exclusive
  valid : ∀ t ∈ d.tickets, t.Valid d.exchange

/-- Nobody gets a slot for which there is a lapsed ticket. -/
def SparesLapsed (d : Desk σ) (m : Option Move) : Prop :=
  ∀ id ∈ d.handsOut? m, ∀ t ∈ d.tickets, t.slot = id → t.lapsed = false

instance (d : Desk σ) (m : Option Move) : Decidable (d.SparesLapsed m) :=
  inferInstanceAs <| Decidable <|
    ∀ id ∈ d.handsOut? m, ∀ t ∈ d.tickets, t.slot = id → t.lapsed = false

/-- Clients that hold different slots have different slots. -/
theorem Exclusive.slot_ne (h : d.Exclusive) (ht : d.tickets[n]? = some t)
    (hu : d.tickets[k]? = some u) (hne : k ≠ n) : u.slot ≠ t.slot := by
  intro heq
  have hslots : (d.tickets.map (·.slot))[k]? = (d.tickets.map (·.slot))[n]? := by
    rw [List.getElem?_map, List.getElem?_map, ht, hu]
    exact congrArg some heq
  have hlt : k < (d.tickets.map (·.slot)).length := by
    rw [List.length_map]
    exact (List.getElem?_eq_some_iff.mp hu).1
  exact hne ((List.getElem?_inj hlt h).mp hslots)

theorem Exclusive.eraseIdx (h : d.Exclusive) (n : Nat) :
    ((d.tickets.eraseIdx n).map (·.slot)).Nodup :=
  h.sublist ((List.eraseIdx_sublist ..).map _)

theorem SparesLapsed.of_asks (h : d.SparesLapsed m) {group : Option String}
    (hm : m.bind Move.asks? = some group) (hok : (d.exchange.request group).2 = .ok id) :
    ∀ t ∈ d.tickets, t.slot = id → t.lapsed = false :=
  h id (by simp [handsOut?, hm, hok, Except.toOption])

/-- Nobody gets a slot for which there is a ticket. -/
theorem InOrder.not_handed (h : d.InOrder) (hspares : d.SparesLapsed m) {group : Option String}
    (hm : m.bind Move.asks? = some group) (ht : t ∈ d.tickets) :
    (d.exchange.request group).2 ≠ .ok t.slot := by
  intro hok
  have hwaiting := (h.valid t ht (hspares.of_asks hm hok t ht rfl)).1
  exact hwaiting.unlisted (Exchange.lists_of_request hok)

/-- A move keeps the tickets in order, if nobody gets a slot for which there is a
lapsed ticket. -/
theorem InOrder.move (h : d.InOrder) (hl : d.exchange.Lawful) (m : Move)
    (hspares : d.SparesLapsed (some m)) : (d.move m).InOrder := by
  have hmoved := d.moved m
  generalize d.move m = after at hmoved
  cases hmoved with
  | @handed group id hok =>
      have hfree : ∀ t ∈ d.tickets, (d.exchange.request group).2 ≠ .ok t.slot :=
        fun t ht => h.not_handed hspares rfl ht
      refine ⟨List.nodup_cons.mpr ⟨fun hmem => ?_, h.exclusive⟩, fun t ht => ?_⟩
      · obtain ⟨t, ht, rfl⟩ := List.mem_map.mp hmem
        exact hfree t ht hok
      · rcases List.mem_cons.mp ht with rfl | ht
        · exact fun _ => hl.waiting_request hok
        · exact (h.valid t ht).stays (Exchange.stays_request (hfree t ht))
  | refused he =>
      refine ⟨h.exclusive, fun t ht => (h.valid t ht).stays (Exchange.stays_request ?_)⟩
      rw [he]
      exact nofun
  | started group setup =>
      refine ⟨h.exclusive, fun t ht => (h.valid t ht).stays (hl.stays_startCall setup ?_)⟩
      exact h.not_handed hspares rfl ht
  | @begun n k setup t ht _ =>
      refine ⟨h.exclusive.eraseIdx n, fun u hu => ?_⟩
      obtain ⟨i, hne, hi⟩ := List.mem_eraseIdx_iff_getElem?.mp hu
      have hslot := h.exclusive.slot_ne ht hi hne
      exact (h.valid u (List.mem_of_getElem? hi)).stays (hl.stays_allocate hslot setup)
  | denied _ hno =>
      exact ⟨h.exclusive, fun t ht =>
        (h.valid t ht).stays (Exchange.stays_allocate_refused t.slot hno)⟩
  | @returned n t ht =>
      refine ⟨h.exclusive.eraseIdx n, fun u hu => ?_⟩
      obtain ⟨i, hne, hi⟩ := List.mem_eraseIdx_iff_getElem?.mp hu
      have hslot := h.exclusive.slot_ne ht hi hne
      exact (h.valid u (List.mem_of_getElem? hi)).stays (hl.stays_restore hslot)
  | none _ _ => exact h

/-- Service keeps the tickets in order. -/
theorem InOrder.served (h : d.InOrder) (hl : d.exchange.Lawful) (hs : Service d.exchange y) :
    (d.served y).InOrder := by
  refine ⟨?_, fun t ht hlapsed => ?_⟩
  · have hslots : (d.served y).tickets.map (·.slot) = d.tickets.map (·.slot) := by
      simp [Desk.served, Function.comp_def]
    rw [Exclusive, hslots]
    exact h.exclusive
  · obtain ⟨u, hu, rfl⟩ := List.mem_map.mp ht
    obtain ⟨hfresh, hstate⟩ := Bool.or_eq_false_iff.mp hlapsed
    have hwaiting := (h.valid u hu hfresh).1
    rcases hl.waiting_service hwaiting hs with hoffline | hstays
    · simp [hoffline] at hstate
    · exact (h.valid u hu).stays hstays hfresh

theorem Dealings.inOrder (h : Dealings past d) (hall : ∀ step ∈ past, step.1.SparesLapsed step.2) :
    ∀ e ∈ desks past d, e.InOrder ∧ e.exchange.Lawful := by
  refine h.induct hall (fun c p x hb => ?_) (fun d m hd hspares => ?_) fun d y hd _ hs => ?_
  · exact ⟨⟨List.nodup_nil, nofun⟩, (Exchange.Reach.build hb).lawful⟩
  · exact ⟨hd.1.move hd.2 m hspares, hd.2.acts (d.move_acts m)⟩
  · exact ⟨hd.1.served hd.2 hs, hd.2.act hs.act⟩

/-! ## slots are handed out to one client -/

/-- A move is fair to those who hold slots: nobody gets such a slot, and who gives
back a slot of its own leaves the slots of others as they are. -/
structure Fair (d : Desk σ) (m : Option Move) : Prop where
  handed : ∀ id ∈ d.handsOut? m, ∀ t ∈ d.tickets, t.slot ≠ id
  returned : ∀ n, m = some (.restore n) → ∀ k t, k ≠ n → d.tickets[k]? = some t →
    Stays t.slot d.exchange (d.move (.restore n)).exchange

theorem InOrder.fair (h : d.InOrder) (hl : d.exchange.Lawful) (hspares : d.SparesLapsed m) :
    d.Fair m := by
  refine ⟨fun id hid t ht hslot => ?_, fun n _ k u hne hu => ?_⟩
  · obtain ⟨group, hm, hok⟩ := Option.bind_eq_some_iff.mp hid
    refine h.not_handed hspares hm ht ?_
    cases hr : (d.exchange.request group).2 with
    | error e => simp [hr, Except.toOption] at hok
    | ok id =>
        rw [hr] at hok
        exact congrArg Except.ok ((Option.some.inj hok).trans hslot.symm)
  · have hmoved := d.moved (.restore n)
    generalize d.move (.restore n) = after at hmoved
    cases hmoved with
    | returned ht => exact hl.stays_restore (h.exclusive.slot_ne ht hu hne)
    | none _ _ => exact .refl _ _

/-- No slot is held by two clients, nobody gets a slot that a client holds, and
nobody who gives a slot back touches the slot of another, as long as nobody gets
a slot that was out of service since it was handed out to a client that still
holds it, and only as long. -/
theorem slots_exclusive_iff (h : Dealings past d) :
    ((∀ e ∈ desks past d, e.Exclusive) ∧ ∀ step ∈ past, step.1.Fair step.2) ↔
      ∀ step ∈ past, step.1.SparesLapsed step.2 := by
  constructor
  · rintro ⟨-, hfair⟩ step hstep id hid t ht hslot
    exact absurd hslot ((hfair step hstep).handed id hid t ht)
  · intro hspares
    have horder := h.inOrder hspares
    refine ⟨fun e he => (horder e he).1.exclusive, fun step hstep => ?_⟩
    obtain ⟨hd, hl⟩ := horder step.1 (mem_desks hstep)
    exact hd.fair hl (hspares step hstep)

/-- A slot goes out of service and comes back while a client holds it, and is
handed out again when that client has given it back. -/
theorem slots_exclusive_given_back : ∃ (past : List (Desk Unit × Option Move)) (d : Desk Unit),
    Dealings past d ∧ (∀ e ∈ desks past d, e.Exclusive) ∧ (∀ step ∈ past, step.1.Fair step.2) ∧
      d.tickets = [⟨0, none, false⟩, ⟨2, none, false⟩, ⟨1, some "group", false⟩] := by
  let deeds : List (Move ⊕ (SlotId × Event)) :=
    [.inl (.request none), .inl (.request (some "group")), .inr (0, .disable), .inr (0, .enable),
      .inl (.request none), .inl (.restore 2), .inl (.request none)]
  have hrun : (Exchange.build Exchange.trialConfig
      (Exchange.trialPlan "@main\n  sleep 60\n  exit\n")).toOption.map
      (fun x => let run := dealt [] ⟨x, []⟩ deeds
        (decide (∀ step ∈ run.1, step.1.SparesLapsed step.2), run.2.tickets)) =
      some (true, [⟨0, none, false⟩, ⟨2, none, false⟩, ⟨1, some "group", false⟩]) := by
    decide +kernel
  obtain ⟨x, hbuild, hseen⟩ := Exchange.exists_build hrun
  obtain ⟨hspares, htickets⟩ := Prod.mk.inj hseen
  have hpast := (Dealings.build hbuild).dealt deeds
  obtain ⟨hexclusive, hfair⟩ := (slots_exclusive_iff hpast).mpr (of_decide_eq_true hspares)
  exact ⟨_, _, hpast, hexclusive, hfair, htickets⟩

/-- The only slot goes out of service and comes back while a client holds it, and
another client gets it.  Whoever of them gives it back, it is free for a third,
though the other still holds it. -/
theorem slot_held_twice : ∃ (past : List (Desk Unit × Option Move)) (d : Desk Unit),
    Dealings past d ∧ ¬ d.Exclusive ∧ d.tickets = [⟨0, none, false⟩, ⟨0, none, true⟩] ∧
      d.exchange.idleCount = 0 ∧ (d.move (.restore 1)).tickets = [⟨0, none, false⟩] ∧
      (d.move (.restore 1)).exchange.idleCount = 1 := by
  let deeds : List (Move ⊕ (SlotId × Event)) :=
    [.inl (.request none), .inr (0, .disable), .inr (0, .enable), .inl (.request none)]
  let config : Config := { Config.default with boards := [⟨"board", [⟨"span", 1⟩], [], []⟩] }
  have hrun : (Exchange.build config
      (Exchange.trialPlan "@main\n  sleep 60\n  exit\n")).toOption.map
      (fun x => let d := (dealt [] ⟨x, []⟩ deeds).2
        (d.tickets, d.exchange.idleCount, (d.move (.restore 1)).tickets,
          (d.move (.restore 1)).exchange.idleCount)) =
      some ([⟨0, none, false⟩, ⟨0, none, true⟩], 0, [⟨0, none, false⟩], 1) := by decide +kernel
  obtain ⟨x, hbuild, hseen⟩ := Exchange.exists_build hrun
  obtain ⟨htickets, hseen⟩ := Prod.mk.inj hseen
  obtain ⟨hidle, hseen⟩ := Prod.mk.inj hseen
  obtain ⟨hleft, hfreed⟩ := Prod.mk.inj hseen
  refine ⟨_, _, (Dealings.build hbuild).dealt deeds, ?_, htickets, hidle, hleft, hfreed⟩
  unfold Exclusive
  rw [htickets]
  decide

end Desk

end Switchboard
