import Switchboard.Mailbox
import Switchboard.Proofs.Exchange.Records
import Switchboard.Proofs.Slot.Alike

/-!
# Switchboard.Proofs.Exchange.Dispatch

Messages for different slots, and the order in which they are delivered.

1. To deliver a message changes its slot, and makes entries of that slot in the books
   that begin no call.  Which ones depends on nothing but the slot (`Delivery`).
2. Exchanges are alike if their slots agree but for the times and their books are alike
   (`Alike`).  They answer the same message alike and stay alike (`Alike.deliver`), and
   messages for different slots may be delivered in either order (`alike_swap`).
3. A queue is worked off message by message, unless the work on one of them is broken
   off (`drain`).  A message may be delivered before messages for other slots
   (`agrees_front`), so only the order of the messages for each slot matters, as long as
   the queue is worked off at all.
4. What a slot makes of its own messages does not depend on those of others
   (`drain_own`).  So a queue is worked off exactly if the messages of each slot are when
   they are alone, and if it is not, its order shows: `drain_in_any_order`,
   `drain_order_observable`.
-/

namespace Switchboard.Exchange

variable {σ : Type} {x y z : Exchange σ} {m n : Message}

/-! ## queues -/

/-- The exchange at another time. -/
def atTime (x : Exchange σ) (c : Clock) : Exchange σ :=
  { x with office := { x.office with clock := c } }

/-- What has become of a queue of messages: the exchange that is left, the messages that
were answered, each with its answer, and whether the queue was worked off. -/
structure Drained (σ : Type) where
  exchange : Exchange σ
  answers : List (Message × Option Outcome)
  whole : Bool

/-- Deliver messages in order, each at its time.  A message on which the work is broken off
is not answered, and those behind it are lost. -/
def drain (x : Exchange σ) : List (Clock × Message) → Drained σ
  | [] => ⟨x, [], true⟩
  | (c, m) :: rest =>
    let (y, outcome) := (x.atTime c).deliver m
    if (x.atTime c).breaksOn m then ⟨y, [], false⟩
    else { y.drain rest with answers := (m, outcome) :: (y.drain rest).answers }

theorem drain_of_breaks {c : Clock} (h : (x.atTime c).breaksOn m = true)
    (ms : List (Clock × Message)) :
    x.drain ((c, m) :: ms) = ⟨((x.atTime c).deliver m).1, [], false⟩ := by
  rw [drain, h]
  rfl

theorem drain_of_returns {c : Clock} (h : (x.atTime c).breaksOn m = false)
    (ms : List (Clock × Message)) :
    x.drain ((c, m) :: ms) = { ((x.atTime c).deliver m).1.drain ms with
      answers := (m, ((x.atTime c).deliver m).2) ::
        (((x.atTime c).deliver m).1.drain ms).answers } := by
  rw [drain, h]
  rfl

/-- Messages are answered once, in order, from the first on. -/
theorem answers_drain (x : Exchange σ) (ms : List (Clock × Message)) :
    (x.drain ms).answers.map (·.1) <+: ms.map (·.2) := by
  induction ms generalizing x with
  | nil => exact List.prefix_refl _
  | cons p rest ih =>
      obtain ⟨c, m⟩ := p
      cases hbreaks : (x.atTime c).breaksOn m with
      | true =>
          rw [drain_of_breaks hbreaks]
          exact List.nil_prefix
      | false =>
          rw [drain_of_returns hbreaks]
          exact List.cons_prefix_cons.mpr ⟨rfl, ih _⟩

/-- All messages are answered exactly if the queue is worked off. -/
theorem answers_drain_eq_iff (x : Exchange σ) (ms : List (Clock × Message)) :
    (x.drain ms).answers.map (·.1) = ms.map (·.2) ↔ (x.drain ms).whole = true := by
  induction ms generalizing x with
  | nil => exact iff_of_true rfl rfl
  | cons p rest ih =>
      obtain ⟨c, m⟩ := p
      cases hbreaks : (x.atTime c).breaksOn m with
      | true =>
          rw [drain_of_breaks hbreaks]
          simp
      | false =>
          rw [drain_of_returns hbreaks]
          simpa using ih ((x.atTime c).deliver m).1

/-! ## one message -/

/-- What comes of a message: all slots, the entries that its slot makes, and the answer. -/
structure Delivery (σ : Type) where
  slots : List (Slot σ)
  entries : List Entry
  outcome : Option Outcome

/-- What comes of a message for one of these slots. -/
def delivery (o : Office σ) (slots : List (Slot σ)) (m : Message) : Delivery σ :=
  match slots[m.slot]? with
  | none => ⟨slots, [.notes [.eventLost m.event (.unknownSlot m.slot)]], none⟩
  | some s =>
    ⟨slots.set m.slot (Work.post o m.event s).1.slot, (Work.post o m.event s).1.entries,
      some (Work.post o m.event s).2⟩

theorem delivery_of_none {o : Office σ} {slots : List (Slot σ)} (h : slots[m.slot]? = none) :
    delivery o slots m = ⟨slots, [.notes [.eventLost m.event (.unknownSlot m.slot)]], none⟩ := by
  unfold delivery
  rw [h]

theorem delivery_of_getElem? {o : Office σ} {slots : List (Slot σ)} {s : Slot σ}
    (h : slots[m.slot]? = some s) : delivery o slots m =
      ⟨slots.set m.slot (Work.post o m.event s).1.slot, (Work.post o m.event s).1.entries,
        some (Work.post o m.event s).2⟩ := by
  unfold delivery
  rw [h]

/-- No message begins a call. -/
theorem isService_delivery (o : Office σ) (slots : List (Slot σ)) (m : Message) :
    ∀ e ∈ (delivery o slots m).entries, e.isService = true := by
  cases h : slots[m.slot]? with
  | none =>
      rw [delivery_of_none h]
      exact fun e he => List.mem_singleton.mp he ▸ rfl
  | some s =>
      rw [delivery_of_getElem? h]
      exact Work.serves_post o m.event s

/-- The slots have their numbers, and the records kept for use are blank. -/
structure Tidy (x : Exchange σ) : Prop where
  numbered : ∀ (i : SlotId) (s : Slot σ), x.slots[i]? = some s → s.id = i
  blank : x.ledger.records.Blank

theorem Recorded.tidy {rs : List CallRecord} (h : Recorded rs x) : x.Tidy :=
  ⟨h.reach.lawful.numbered, h.blank⟩

/-- To deliver a message does what comes of it, and no more. -/
theorem Tidy.deliver_eq (hx : x.Tidy) (c : Clock) (m : Message) :
    (x.atTime c).deliver m = ({ x.atTime c with
      slots := (delivery (x.atTime c).office x.slots m).slots
      ledger := x.ledger.enterAll m.slot (delivery (x.atTime c).office x.slots m).entries },
      (delivery (x.atTime c).office x.slots m).outcome) := by
  unfold deliver post
  cases hslot : x.slots[m.slot]? with
  | none =>
      have hthere : (x.atTime c).slots[m.slot]? = none := hslot
      rw [delivery_of_none hslot, atSlot_of_none hthere]
      rfl
  | some s =>
      have hthere : (x.atTime c).slots[m.slot]? = some s := hslot
      have hpost := Station.Answers.post (x.atTime c).office m.event
      have hid : (Work.post (x.atTime c).office m.event s).1.slot.id = m.slot :=
        (hpost.same s).trans (hx.numbered m.slot s hslot)
      rw [delivery_of_getElem? hslot, atSlot_of_getElem? hthere, hpost.eq]
      unfold Work.on
      dsimp only
      rw [hid]
      rfl

/-- The work on a message is broken off if one of its entries says so. -/
theorem breaksOn_iff (x : Exchange σ) (m : Message) :
    x.breaksOn m = true ↔ Entry.breaks ∈ (delivery x.office x.slots m).entries := by
  unfold breaksOn
  rw [breaksOff_iff (Station.Answers.post x.office m.event)]
  cases hslot : x.slots[m.slot]? with
  | none => simp [delivery_of_none hslot]
  | some s => simp [delivery_of_getElem? hslot]

theorem Tidy.deliver (hx : x.Tidy) (c : Clock) (m : Message) :
    ((x.atTime c).deliver m).1.Tidy := by
  rw [hx.deliver_eq]
  refine ⟨fun i t ht => ?_, (Ledger.taken_enterAll hx.blank m.slot _).blank⟩
  dsimp only at ht
  cases hslot : x.slots[m.slot]? with
  | none =>
      rw [delivery_of_none hslot] at ht
      exact hx.numbered i t ht
  | some s =>
      rw [delivery_of_getElem? hslot] at ht
      by_cases hi : i = m.slot
      · subst hi
        rw [List.getElem?_set_self (List.getElem?_eq_some_iff.mp hslot).1] at ht
        obtain rfl := Option.some.inj ht
        exact ((Station.Answers.post _ m.event).same s).trans (hx.numbered m.slot s hslot)
      · rw [List.getElem?_set_ne (Ne.symm hi)] at ht
        exact hx.numbered i t ht

/-! ## messages for different slots -/

/-- A message changes no other slot. -/
theorem getElem?_delivery {i : SlotId} (o : Office σ) (slots : List (Slot σ))
    (h : i ≠ m.slot) : (delivery o slots m).slots[i]? = slots[i]? := by
  cases hslot : slots[m.slot]? with
  | none => rw [delivery_of_none hslot]
  | some s =>
      rw [delivery_of_getElem? hslot]
      exact List.getElem?_set_ne (Ne.symm h)

/-- A message leaves its slot as what the slot makes of it. -/
theorem getElem?_delivery_congr (o : Office σ) {slots others : List (Slot σ)}
    (h : others[m.slot]? = slots[m.slot]?) :
    (delivery o others m).slots[m.slot]? = (delivery o slots m).slots[m.slot]? := by
  cases hslot : slots[m.slot]? with
  | none => rw [delivery_of_none hslot, delivery_of_none (h.trans hslot), h]
  | some s =>
      rw [delivery_of_getElem? hslot, delivery_of_getElem? (h.trans hslot)]
      dsimp only
      rw [List.getElem?_set_self (List.getElem?_eq_some_iff.mp hslot).1,
        List.getElem?_set_self (List.getElem?_eq_some_iff.mp (h.trans hslot)).1]

/-- What comes of a message depends on its slot. -/
theorem delivery_congr {o : Office σ} {slots others : List (Slot σ)}
    (h : others[m.slot]? = slots[m.slot]?) :
    (delivery o others m).entries = (delivery o slots m).entries ∧
      (delivery o others m).outcome = (delivery o slots m).outcome := by
  unfold delivery
  rw [h]
  split <;> exact ⟨rfl, rfl⟩

/-- Messages for different slots leave the same slots in either order. -/
theorem slots_delivery_swap (o p : Office σ) (slots : List (Slot σ)) (h : m.slot ≠ n.slot) :
    (delivery p (delivery o slots m).slots n).slots =
      (delivery o (delivery p slots n).slots m).slots := by
  have hm := getElem?_delivery (m := n) p slots h
  have hn := getElem?_delivery (m := m) o slots h.symm
  cases hs : slots[m.slot]? with
  | none =>
      rw [hs] at hm
      rw [delivery_of_none hs, delivery_of_none hm]
  | some s =>
      rw [hs] at hm
      cases ht : slots[n.slot]? with
      | none =>
          rw [ht] at hn
          rw [delivery_of_none hn, delivery_of_none ht]
      | some t =>
          rw [ht] at hn
          rw [delivery_of_getElem? hn, delivery_of_getElem? hm, delivery_of_getElem? hs,
            delivery_of_getElem? ht]
          exact List.set_comm _ _ h

/-! ## exchanges that are alike -/

/-- The exchanges differ in their slots and books at most, the slots agree but for the
times, and the books are alike. -/
structure Alike (x y : Exchange σ) : Prop where
  rest : y = { x with
    office := { x.office with clock := y.office.clock }
    slots := y.slots
    ledger := y.ledger }
  slots : y.slots.map Slot.timeless = x.slots.map Slot.timeless
  ledger : x.ledger.Alike y.ledger

namespace Alike

theorem refl (x : Exchange σ) : x.Alike x := ⟨rfl, rfl, .refl _⟩

theorem trans (h : x.Alike y) (h' : y.Alike z) : x.Alike z := by
  refine ⟨?_, h'.slots.trans h.slots, h.ledger.trans h'.ledger⟩
  have hrest := h'.rest
  rw [h.rest] at hrest
  exact hrest

/-- Slots in the same place agree but for the times. -/
theorem timeless (h : x.Alike y) (i : SlotId) :
    (y.slots[i]?).map Slot.timeless = (x.slots[i]?).map Slot.timeless := by
  rw [← List.getElem?_map, ← List.getElem?_map, h.slots]

/-- The same comes of a message in exchanges that are alike, but for the times. -/
theorem delivery (h : x.Alike y) (c d : Clock) (m : Message) :
    (delivery (y.atTime d).office y.slots m).slots.map Slot.timeless =
        (delivery (x.atTime c).office x.slots m).slots.map Slot.timeless ∧
      (delivery (x.atTime c).office x.slots m).entries.filterMap Entry.timeless =
        (delivery (y.atTime d).office y.slots m).entries.filterMap Entry.timeless ∧
      (delivery (y.atTime d).office y.slots m).outcome =
        (delivery (x.atTime c).office x.slots m).outcome := by
  have hadapter : (y.atTime d).office.adapter = (x.atTime c).office.adapter :=
    congrArg (·.office.adapter) h.rest
  have hengine : (y.atTime d).office.engine = (x.atTime c).office.engine :=
    congrArg (·.office.engine) h.rest
  have hslot := h.timeless m.slot
  cases hs : x.slots[m.slot]? with
  | none =>
      rw [hs] at hslot
      rw [delivery_of_none hs, delivery_of_none (by simpa using hslot)]
      exact ⟨h.slots, rfl, rfl⟩
  | some s =>
      rw [hs] at hslot
      obtain ⟨t, ht, hst⟩ := Option.map_eq_some_iff.mp hslot
      obtain ⟨hwork, hanswer⟩ := Work.agree_post (o := (x.atTime c).office)
        (p := (y.atTime d).office) hadapter.symm (fun _ => by rw [hengine]) m.event hst.symm
      have hleft : (Work.post (x.atTime c).office m.event s).1.slot.timeless =
        (Work.post (y.atTime d).office m.event t).1.slot.timeless := congrArg Work.slot hwork
      rw [delivery_of_getElem? hs, delivery_of_getElem? ht]
      refine ⟨?_, congrArg Work.entries hwork, congrArg some hanswer.symm⟩
      rw [List.map_set, List.map_set, h.slots, hleft]

/-- Exchanges that are alike answer a message alike, and stay alike. -/
theorem deliver (h : x.Alike y) (hx : x.Tidy) (hy : y.Tidy) (c d : Clock) (m : Message) :
    ((y.atTime d).deliver m).2 = ((x.atTime c).deliver m).2 ∧
      ((x.atTime c).deliver m).1.Alike ((y.atTime d).deliver m).1 := by
  have hrest : y.atTime d = { x with
      office := { x.office with clock := d }, slots := y.slots, ledger := y.ledger } := by
    have hy := congrArg (Exchange.atTime · d) h.rest
    exact hy
  obtain ⟨hslots, hentries, houtcome⟩ := h.delivery c d m
  rw [hx.deliver_eq, hy.deliver_eq]
  refine ⟨houtcome, ?_, hslots, ?_⟩
  · dsimp only
    rw [hrest]
    rfl
  · exact h.ledger.enterAll_timeless hx.blank (isService_delivery _ _ _) hentries m.slot

/-- If the work on a message is broken off in one, it is in the other. -/
theorem breaksOn (h : x.Alike y) (c d : Clock) (m : Message) :
    (y.atTime d).breaksOn m = (x.atTime c).breaksOn m := by
  obtain ⟨-, hentries, -⟩ := h.delivery c d m
  rw [Bool.eq_iff_iff, breaksOn_iff, breaksOn_iff]
  change Entry.breaks ∈ (Exchange.delivery (y.atTime d).office y.slots m).entries ↔
    Entry.breaks ∈ (Exchange.delivery (x.atTime c).office x.slots m).entries
  rw [← Entry.breaks_mem_timeless, ← hentries, Entry.breaks_mem_timeless]

end Alike

/-- Whether the work on a message is broken off depends on its slot only. -/
theorem Tidy.breaksOn_deliver (hx : x.Tidy) (h : m.slot ≠ n.slot) (c d : Clock) :
    (((x.atTime c).deliver m).1.atTime d).breaksOn n = (x.atTime d).breaksOn n := by
  have hslot := getElem?_delivery (m := m) (x.atTime c).office x.slots h.symm
  rw [Bool.eq_iff_iff, breaksOn_iff, breaksOn_iff, hx.deliver_eq]
  change Entry.breaks ∈ (delivery (x.atTime d).office
    (delivery (x.atTime c).office x.slots m).slots n).entries ↔ _
  rw [(delivery_congr hslot).1]
  rfl

/-- Messages for different slots may be delivered in either order: each gets the answer
that it would get first. -/
theorem alike_swap (hx : x.Tidy) (h : m.slot ≠ n.slot) (c d : Clock) :
    ((((x.atTime c).deliver m).1.atTime d).deliver n).2 = ((x.atTime d).deliver n).2 ∧
      ((((x.atTime d).deliver n).1.atTime c).deliver m).2 = ((x.atTime c).deliver m).2 ∧
      ((((x.atTime c).deliver m).1.atTime d).deliver n).1.Alike
        ((((x.atTime d).deliver n).1.atTime c).deliver m).1 := by
  have hm := delivery_congr (o := (x.atTime c).office)
    (getElem?_delivery (m := n) (x.atTime d).office x.slots h)
  have hn := delivery_congr (o := (x.atTime d).office)
    (getElem?_delivery (m := m) (x.atTime c).office x.slots h.symm)
  have hslots := slots_delivery_swap (x.atTime c).office (x.atTime d).office x.slots h
  rw [(hx.deliver c m).deliver_eq, (hx.deliver d n).deliver_eq, hx.deliver_eq, hx.deliver_eq]
  refine ⟨hn.2, hm.2, rfl, congrArg _ hslots.symm, ?_⟩
  change Ledger.Alike
    ((x.ledger.enterAll m.slot (delivery (x.atTime c).office x.slots m).entries).enterAll n.slot
      (delivery (x.atTime d).office (delivery (x.atTime c).office x.slots m).slots n).entries)
    ((x.ledger.enterAll n.slot (delivery (x.atTime d).office x.slots n).entries).enterAll m.slot
      (delivery (x.atTime c).office (delivery (x.atTime d).office x.slots n).slots m).entries)
  rw [hm.1, hn.1]
  exact Ledger.alike_swap hx.blank h (isService_delivery _ _ _) (isService_delivery _ _ _)

/-! ## queues that agree -/

/-- Two queues are worked off or neither is; if they are, exchanges are left that are alike,
and the messages for each slot had the same answers, in the same order. -/
structure Agrees (p q : Drained σ) : Prop where
  whole : q.whole = p.whole
  alike : p.whole = true → p.exchange.Alike q.exchange
  answers : p.whole = true → ∀ id : SlotId,
    q.answers.filter (·.1.slot == id) = p.answers.filter (·.1.slot == id)

namespace Agrees

variable {p q r : Drained σ}

theorem refl (p : Drained σ) : Agrees p p := ⟨rfl, fun _ => .refl _, fun _ _ => rfl⟩

theorem trans (h : Agrees p q) (h' : Agrees q r) : Agrees p r :=
  ⟨h'.whole.trans h.whole, fun hp => (h.alike hp).trans (h'.alike (h.whole.trans hp)),
    fun hp id => (h'.answers (h.whole.trans hp) id).trans (h.answers hp id)⟩

/-- Neither queue is worked off. -/
theorem of_lost (hp : p.whole = false) (hq : q.whole = false) : Agrees p q :=
  ⟨hq.trans hp.symm, fun h => absurd (hp.symm.trans h) Bool.false_ne_true,
    fun h => absurd (hp.symm.trans h) Bool.false_ne_true⟩

/-- The same message with the same answer comes first. -/
theorem cons (h : Agrees p q) (a : Message × Option Outcome) :
    Agrees { p with answers := a :: p.answers } { q with answers := a :: q.answers } := by
  refine ⟨h.whole, h.alike, fun hp id => ?_⟩
  dsimp only
  rw [List.filter_cons, List.filter_cons, h.answers hp id]

/-- Messages for different slots come first. -/
theorem swap (h : Agrees p q) {a b : Message × Option Outcome} (hab : a.1.slot ≠ b.1.slot) :
    Agrees { p with answers := a :: b :: p.answers }
      { q with answers := b :: a :: q.answers } := by
  refine ⟨h.whole, h.alike, fun hp id => ?_⟩
  by_cases ha : a.1.slot = id
  · have hb : b.1.slot ≠ id := fun hb => hab (ha.trans hb.symm)
    simp [ha, hb, h.answers hp id]
  · simp [List.filter_cons, ha, h.answers hp id]

end Agrees

/-- The same queue, at whatever times, leaves exchanges alike that are alike. -/
theorem Alike.drain (h : x.Alike y) (hx : x.Tidy) (hy : y.Tidy) {ms ns : List (Clock × Message)}
    (hsame : ns.map (·.2) = ms.map (·.2)) : Agrees (x.drain ms) (y.drain ns) := by
  induction ms generalizing x y ns with
  | nil =>
      obtain rfl := List.map_eq_nil_iff.mp hsame
      exact ⟨rfl, fun _ => h, fun _ _ => rfl⟩
  | cons p ms ih =>
      obtain ⟨c, m⟩ := p
      obtain ⟨⟨d, n⟩, ns, rfl, hn, hrest⟩ := List.map_eq_cons_iff.mp hsame
      obtain rfl : n = m := hn
      have hthere := h.breaksOn c d n
      cases hbreaks : (x.atTime c).breaksOn n with
      | true =>
          rw [drain_of_breaks hbreaks, drain_of_breaks (hthere.trans hbreaks)]
          exact .of_lost rfl rfl
      | false =>
          obtain ⟨hanswer, halike⟩ := h.deliver hx hy c d n
          rw [drain_of_returns hbreaks, drain_of_returns (hthere.trans hbreaks), hanswer]
          exact (ih halike (hx.deliver c n) (hy.deliver d n) hrest).cons _

/-- A message may be delivered before messages for other slots. -/
theorem agrees_front (hx : x.Tidy) (c : Clock) (m : Message) {pre : List (Clock × Message)}
    (hpre : ∀ p ∈ pre, p.2.slot ≠ m.slot) (post : List (Clock × Message)) :
    Agrees (x.drain ((c, m) :: (pre ++ post))) (x.drain (pre ++ (c, m) :: post)) := by
  induction pre generalizing x with
  | nil => exact .refl _
  | cons p pre ih =>
      obtain ⟨d, n⟩ := p
      have hmn : m.slot ≠ n.slot := (hpre (d, n) List.mem_cons_self).symm
      have hm := hx.breaksOn_deliver hmn.symm d c
      have hn := hx.breaksOn_deliver hmn c d
      have hlater := ih (hx.deliver d n) fun q hq => hpre q (List.mem_cons_of_mem _ hq)
      rw [List.cons_append, List.cons_append]
      -- If the work on one of the two is broken off, neither queue is worked off; otherwise
      -- the two change places, and the first of the other queue is passed by.
      cases hfirst : (x.atTime d).breaksOn n with
      | true =>
          rw [drain_of_breaks hfirst]
          refine .of_lost ?_ rfl
          cases hown : (x.atTime c).breaksOn m with
          | true => rw [drain_of_breaks hown]
          | false => rw [drain_of_returns hown, drain_of_breaks (hn.trans hfirst)]
      | false =>
          rw [drain_of_returns hfirst]
          cases hown : (x.atTime c).breaksOn m with
          | true =>
              have hlost := hlater.whole
              rw [drain_of_breaks (hm.trans hown)] at hlost
              rw [drain_of_breaks hown]
              exact .of_lost rfl hlost
          | false =>
              obtain ⟨hafter, hbefore, halike⟩ := alike_swap hx hmn c d
              have hrest : Agrees
                  (((((x.atTime c).deliver m).1.atTime d).deliver n).1.drain (pre ++ post))
                  (((((x.atTime d).deliver n).1.atTime c).deliver m).1.drain (pre ++ post)) :=
                halike.drain ((hx.deliver c m).deliver d n) ((hx.deliver d n).deliver c m) rfl
              have hswap := hrest.swap (a := (m, ((x.atTime c).deliver m).2))
                (b := (n, ((x.atTime d).deliver n).2)) hmn
              refine Agrees.trans ?_ (hlater.cons (n, ((x.atTime d).deliver n).2))
              rw [drain_of_returns hown, drain_of_returns (hn.trans hfirst),
                drain_of_returns (hm.trans hown), hafter, hbefore]
              exact hswap

/-! ## the order of messages -/

/-- Queues that have the same messages for each slot, in the same order. -/
def SameBySlot (ms ns : List Message) : Prop :=
  ∀ id : SlotId, ns.filter (·.slot == id) = ms.filter (·.slot == id)

/-- The first message of one queue is in the other, behind messages for other slots. -/
theorem SameBySlot.exists_front {ms ns : List Message} (h : SameBySlot (m :: ms) ns) :
    ∃ pre post, ns = pre ++ m :: post ∧ (∀ n ∈ pre, n.slot ≠ m.slot) ∧
      SameBySlot ms (pre ++ post) := by
  have hown := h m.slot
  rw [List.filter_cons_of_pos (by simp)] at hown
  obtain ⟨pre, post, rfl, hpre, -, hpost⟩ := List.filter_eq_cons_iff.mp hown
  have hothers : ∀ n ∈ pre, n.slot ≠ m.slot := fun n hn => by simpa using hpre n hn
  refine ⟨pre, post, rfl, hothers, fun id => ?_⟩
  by_cases hid : m.slot = id
  · subst hid
    rw [List.filter_append, hpost, List.filter_eq_nil_iff.mpr hpre, List.nil_append]
  · have hrest := h id
    rw [List.filter_append, List.filter_cons_of_neg (by simpa using hid),
      List.filter_cons_of_neg (by simpa using hid)] at hrest
    rw [List.filter_append, hrest]

/-- Queues with the same messages for each slot agree. -/
theorem Tidy.agrees (hx : x.Tidy) {ms ns : List (Clock × Message)}
    (h : SameBySlot (ms.map (·.2)) (ns.map (·.2))) : Agrees (x.drain ms) (x.drain ns) := by
  induction ms generalizing x ns with
  | nil =>
      have hempty : ns = [] := by
        cases ns with
        | nil => rfl
        | cons p ns =>
            have hslot := h p.2.slot
            simp at hslot
      rw [hempty]
      exact .refl _
  | cons p ms ih =>
      obtain ⟨c, m⟩ := p
      -- The first message of the one queue stands in the other behind messages for other
      -- slots only, so it may be brought to the front there (`agrees_front`), at its own time.
      obtain ⟨pre, post, hns, hpre, hrest⟩ := h.exists_front
      obtain ⟨early, late, rfl, rfl, hlate⟩ := List.map_eq_append_iff.mp hns
      obtain ⟨⟨d, n⟩, late, rfl, hn, rfl⟩ := List.map_eq_cons_iff.mp hlate
      obtain rfl : n = m := hn
      have hothers : ∀ q ∈ early, q.2.slot ≠ n.slot := fun q hq =>
        hpre q.2 (List.mem_map_of_mem hq)
      refine Agrees.trans ?_ (agrees_front hx d n hothers late)
      have hthere := (Alike.refl x).breaksOn c d n
      cases hbreaks : (x.atTime c).breaksOn n with
      | true =>
          rw [drain_of_breaks hbreaks, drain_of_breaks (hthere.trans hbreaks)]
          exact .of_lost rfl rfl
      | false =>
          obtain ⟨hanswer, halike⟩ := (Alike.refl x).deliver hx hx c d n
          have hfirst : Agrees (((x.atTime c).deliver n).1.drain ms)
              (((x.atTime c).deliver n).1.drain (early ++ late)) :=
            ih (hx.deliver c n) (by rwa [List.map_append])
          have htimes : Agrees (((x.atTime c).deliver n).1.drain (early ++ late))
              (((x.atTime d).deliver n).1.drain (early ++ late)) :=
            halike.drain (hx.deliver c n) (hx.deliver d n) rfl
          rw [drain_of_returns hbreaks, drain_of_returns (hthere.trans hbreaks), hanswer]
          exact (hfirst.trans htimes).cons _

/-! ## the messages of one slot -/

/-- What a slot makes of its own messages depends on nothing else. -/
theorem Tidy.drain_own (hx : x.Tidy) (hy : y.Tidy) {ms : List (Clock × Message)} {id : SlotId}
    (hown : ∀ p ∈ ms, p.2.slot = id)
    (hoffice : ∀ c, (y.atTime c).office = (x.atTime c).office)
    (hslot : y.slots[id]? = x.slots[id]?) :
    (y.drain ms).answers = (x.drain ms).answers ∧ (y.drain ms).whole = (x.drain ms).whole := by
  induction ms generalizing x y with
  | nil => exact ⟨rfl, rfl⟩
  | cons p rest ih =>
      obtain ⟨c, m⟩ := p
      obtain rfl : m.slot = id := hown (c, m) List.mem_cons_self
      have hsame := delivery_congr (o := (x.atTime c).office) hslot
      have hbreaks : (y.atTime c).breaksOn m = (x.atTime c).breaksOn m := by
        rw [Bool.eq_iff_iff, breaksOn_iff, breaksOn_iff, hoffice]
        change Entry.breaks ∈ (delivery (x.atTime c).office y.slots m).entries ↔ _
        rw [hsame.1]
        rfl
      cases hhere : (x.atTime c).breaksOn m with
      | true =>
          rw [drain_of_breaks hhere, drain_of_breaks (hbreaks.trans hhere)]
          exact ⟨rfl, rfl⟩
      | false =>
          have hnext : ((y.atTime c).deliver m).1.slots[m.slot]? =
              ((x.atTime c).deliver m).1.slots[m.slot]? := by
            rw [hx.deliver_eq, hy.deliver_eq, hoffice]
            exact getElem?_delivery_congr (x.atTime c).office hslot
          have hanswer : ((y.atTime c).deliver m).2 = ((x.atTime c).deliver m).2 := by
            rw [hx.deliver_eq, hy.deliver_eq, hoffice]
            exact hsame.2
          have hclock : ∀ d, (((y.atTime c).deliver m).1.atTime d).office =
              (((x.atTime c).deliver m).1.atTime d).office := fun d => by
            rw [hx.deliver_eq, hy.deliver_eq]
            exact hoffice d
          obtain ⟨hanswers, hwhole⟩ := ih (hx.deliver c m) (hy.deliver c m)
            (fun q hq => hown q (List.mem_cons_of_mem _ hq)) hclock hnext
          rw [drain_of_returns hhere, drain_of_returns (hbreaks.trans hhere), hanswer, hanswers]
          exact ⟨rfl, hwhole⟩

/-- The messages of a queue that are for a slot. -/
def forSlot (id : SlotId) (ms : List (Clock × Message)) : List (Clock × Message) :=
  ms.filter (·.2.slot == id)

theorem forSlot_cons_self (c : Clock) (m : Message) (ms : List (Clock × Message)) :
    forSlot m.slot ((c, m) :: ms) = (c, m) :: forSlot m.slot ms :=
  List.filter_cons_of_pos (by simp)

theorem forSlot_cons_ne {id : SlotId} (h : m.slot ≠ id) (c : Clock)
    (ms : List (Clock × Message)) : forSlot id ((c, m) :: ms) = forSlot id ms :=
  List.filter_cons_of_neg (by simpa using h)

/-- A message for one slot changes nothing for the messages of another. -/
theorem Tidy.drain_forSlot_deliver (hx : x.Tidy) {id : SlotId} (h : m.slot ≠ id) (c : Clock)
    (ms : List (Clock × Message)) :
    (((x.atTime c).deliver m).1.drain (forSlot id ms)).answers =
        (x.drain (forSlot id ms)).answers ∧
      (((x.atTime c).deliver m).1.drain (forSlot id ms)).whole =
        (x.drain (forSlot id ms)).whole := by
  have hother : ((x.atTime c).deliver m).1.slots[id]? = x.slots[id]? := by
    rw [hx.deliver_eq]
    exact getElem?_delivery (x.atTime c).office x.slots h.symm
  refine hx.drain_own (hx.deliver c m) (fun p hp => ?_) (fun d => ?_) hother
  · simpa using (List.mem_filter.mp hp).2
  · rw [hx.deliver_eq]
    rfl

/-- The messages for a slot that are answered get the answers that they would get alone. -/
theorem Tidy.answers_forSlot (hx : x.Tidy) (ms : List (Clock × Message)) (id : SlotId) :
    (x.drain ms).answers.filter (·.1.slot == id) <+: (x.drain (forSlot id ms)).answers := by
  induction ms generalizing x with
  | nil => exact List.prefix_refl _
  | cons p rest ih =>
      obtain ⟨c, m⟩ := p
      cases hbreaks : (x.atTime c).breaksOn m with
      | true =>
          rw [drain_of_breaks hbreaks]
          exact List.nil_prefix
      | false =>
          have hrest := ih (hx.deliver c m)
          rw [drain_of_returns hbreaks]
          by_cases hid : m.slot = id
          · subst hid
            rw [forSlot_cons_self, drain_of_returns hbreaks]
            dsimp only
            rw [List.filter_cons_of_pos (by simp)]
            exact List.cons_prefix_cons.mpr ⟨rfl, hrest⟩
          · rw [forSlot_cons_ne hid, ← (hx.drain_forSlot_deliver hid c rest).1]
            dsimp only
            rw [List.filter_cons_of_neg (by simpa using hid)]
            exact hrest

/-- A queue is worked off exactly if the messages for each slot are when they are alone. -/
theorem Tidy.whole_iff (hx : x.Tidy) (ms : List (Clock × Message)) :
    (x.drain ms).whole = true ↔ ∀ id, (x.drain (forSlot id ms)).whole = true := by
  induction ms generalizing x with
  | nil => exact iff_of_true rfl fun _ => rfl
  | cons p rest ih =>
      obtain ⟨c, m⟩ := p
      cases hbreaks : (x.atTime c).breaksOn m with
      | true =>
          refine iff_of_false (by simp [drain_of_breaks hbreaks]) fun hall => ?_
          have hown := hall m.slot
          rw [forSlot_cons_self, drain_of_breaks hbreaks] at hown
          exact nomatch hown
      | false =>
          rw [drain_of_returns hbreaks]
          refine (ih (hx.deliver c m)).trans (forall_congr' fun id => ?_)
          by_cases hid : m.slot = id
          · subst hid
            rw [forSlot_cons_self, drain_of_returns hbreaks]
          · rw [forSlot_cons_ne hid, (hx.drain_forSlot_deliver hid c rest).2]

/-! ## delivery on end -/

/-- Messages that are delivered on end are delivered at the time of the first. -/
theorem Tidy.deliverAll_eq_drain (hx : x.Tidy) (ms : List Message) :
    x.deliverAll ms = ((x.drain (ms.map (x.office.clock, ·))).exchange,
      (x.drain (ms.map (x.office.clock, ·))).whole) := by
  induction ms generalizing x with
  | nil => rfl
  | cons m rest ih =>
      rw [List.map_cons, deliverAll]
      cases hbreaks : x.breaksOn m with
      | true =>
          rw [drain_of_breaks (x := x) (c := x.office.clock) hbreaks]
          rfl
      | false =>
          have hclock : (x.deliver m).1.office.clock = x.office.clock :=
            congrArg (fun p : Exchange σ × Option Outcome => p.1.office.clock)
              (hx.deliver_eq x.office.clock m)
          have hrest := ih (hx.deliver x.office.clock m)
          change (x.deliver m).1.deliverAll rest =
            (((x.deliver m).1.drain (rest.map ((x.deliver m).1.office.clock, ·))).exchange,
              ((x.deliver m).1.drain (rest.map ((x.deliver m).1.office.clock, ·))).whole) at hrest
          rw [if_neg Bool.false_ne_true, hrest, hclock,
            drain_of_returns (x := x) (c := x.office.clock) hbreaks]
          rfl

/-- Two queues with the same messages for each slot in the same order.

A queue is worked off unless the work on one of its messages is broken off: the messages
are answered in order, all of them exactly if it is worked off.  It is worked off exactly
if the messages of each slot are when they are alone; in any case those that are
answered get the answers that they would get alone.

So of two such queues both are worked off, or neither is.  If they are, each message of
either is delivered once, at whatever time, and each slot's messages get the same
answers.  In the end the slots are the same but for the times, with their states, calls,
scripts and devices, and so are the books, but for the order of what different slots have
entered: the free slots, the reservations, the calls, the counts of the segments, the
orders to each device, and the records of each slot.  So it is if they are delivered on
end.  A message for a slot that does not exist changes nothing, and is noted. -/
theorem drain_in_any_order {rs : List CallRecord} (h : Recorded rs x) :
    (∀ ms : List (Clock × Message),
        (x.drain ms).answers.map (·.1) <+: ms.map (·.2) ∧
        ((x.drain ms).answers.map (·.1) = ms.map (·.2) ↔ (x.drain ms).whole = true) ∧
        ((x.drain ms).whole = true ↔ ∀ id, (x.drain (forSlot id ms)).whole = true) ∧
        ∀ id, (x.drain ms).answers.filter (·.1.slot == id) <+:
          (x.drain (forSlot id ms)).answers) ∧
      (∀ ms ns : List (Clock × Message), SameBySlot (ms.map (·.2)) (ns.map (·.2)) →
        (x.drain ns).whole = (x.drain ms).whole ∧
        ((x.drain ms).whole = true →
          (x.drain ms).answers.map (·.1) = ms.map (·.2) ∧
          (x.drain ns).answers.map (·.1) = ns.map (·.2) ∧
          (∀ id : SlotId, (x.drain ns).answers.filter (·.1.slot == id) =
            (x.drain ms).answers.filter (·.1.slot == id)) ∧
          (x.drain ms).exchange.Alike (x.drain ns).exchange)) ∧
      (∀ ms ns : List Message, SameBySlot ms ns →
        (x.deliverAll ns).2 = (x.deliverAll ms).2 ∧
        ((x.deliverAll ms).2 = true → (x.deliverAll ms).1.Alike (x.deliverAll ns).1)) ∧
      ∀ m : Message, x.slotCount ≤ m.slot → x.deliver m =
        ({ x with ledger := x.ledger.note (.eventLost m.event (.unknownSlot m.slot)) }, none) := by
  have hx := h.tidy
  refine ⟨fun ms => ⟨x.answers_drain ms, x.answers_drain_eq_iff ms, hx.whole_iff ms,
    hx.answers_forSlot ms⟩, fun ms ns hsame => ?_, fun ms ns hsame => ?_, fun m hm => ?_⟩
  · have hagree := hx.agrees hsame
    refine ⟨hagree.whole, fun hwhole => ⟨?_, ?_, hagree.answers hwhole, hagree.alike hwhole⟩⟩
    · exact (x.answers_drain_eq_iff ms).mpr hwhole
    · exact (x.answers_drain_eq_iff ns).mpr (hagree.whole.trans hwhole)
  · have hmessages : ∀ qs : List Message, (qs.map (x.office.clock, ·)).map (·.2) = qs :=
      fun qs => (List.map_map ..).trans (List.map_id qs)
    have hagree : Agrees (x.drain (ms.map (x.office.clock, ·)))
        (x.drain (ns.map (x.office.clock, ·))) := hx.agrees (by rwa [hmessages, hmessages])
    rw [hx.deliverAll_eq_drain, hx.deliverAll_eq_drain]
    exact ⟨hagree.whole, hagree.alike⟩
  · have hnone : x.slots[m.slot]? = none := List.getElem?_eq_none hm
    have hdeliver := hx.deliver_eq x.office.clock m
    rw [delivery_of_none hnone] at hdeliver
    exact hdeliver

/-- Two calls end, one of them has its slot freed, and one message is lost, in either
order. -/
theorem drain_in_any_order_two_calls : ∃ (x : Exchange Unit) (rs : List CallRecord)
    (ms ns : List Message), Recorded rs x ∧ SameBySlot ms ns ∧ ms ≠ ns ∧
      (x.deliverAll ms).1.slots.map (·.state) = [.idle, .releasing, .idle] ∧
      (x.deliverAll ms).1.ledger.records.pending ≠ [] ∧
      (x.deliverAll ms).1.Alike (x.deliverAll ns).1 := by
  let ops : List Operation := [.allocate 0 Station.trialCall,
    .allocate 1 { Station.trialCall with cid := some "d" }]
  let ms : List Message := [⟨0, .drop⟩, ⟨1, .hangup⟩, ⟨9, .timeout⟩, ⟨0, .release⟩]
  let ns : List Message := [⟨1, .hangup⟩, ⟨0, .drop⟩, ⟨0, .release⟩, ⟨9, .timeout⟩]
  have hrun : (build trialConfig (trialPlan "@main\n  sleep 60\n  exit\n")).toOption.map
      (fun x => (((x.performAll ops).deliverAll ms).1.slots.map (·.state),
        ((x.performAll ops).deliverAll ms).1.ledger.records.pending.isEmpty,
        ((x.performAll ops).deliverAll ms).2)) =
      some ([.idle, .releasing, .idle], false, true) := by decide +kernel
  obtain ⟨x, hbuild, hobserved⟩ := exists_build hrun
  simp only [Prod.mk.injEq] at hobserved
  obtain ⟨hstates, hpending, hwhole⟩ := hobserved
  have hrecorded := (Recorded.of_build hbuild).performAll ops
  have hsame : SameBySlot ms ns := by
    intro id
    simp only [ms, ns, List.filter_cons, List.filter_nil]
    by_cases h₀ : 0 = id
    · simp [← h₀]
    · by_cases h₁ : 1 = id
      · simp [← h₁]
      · simp [h₀, h₁]
  exact ⟨_, _, ms, ns, hrecorded, hsame, by decide, hstates, by simpa using hpending,
    ((drain_in_any_order hrecorded).2.2.1 ms ns hsame).2 hwhole⟩

/-- The script on one slot wants to sleep for longer than can be said when it is told of a
key.  If the call on another slot is dropped first, it is over; if it is told of the key
first, the other call goes on, and nobody answers. -/
theorem drain_order_observable : ∃ (x : Exchange Unit) (rs : List CallRecord)
    (ms ns : List Message), Recorded rs x ∧ SameBySlot ms ns ∧
      (x.deliverAll ms).1.slots.map (·.state) = [.scripting, .scripting, .idle] ∧
      (x.deliverAll ns).1.slots.map (·.state) = [.scripting, .releasing, .idle] ∧
      (x.drain (ms.map (x.office.clock, ·))).answers = [] ∧
      ¬ (x.deliverAll ms).1.Alike (x.deliverAll ns).1 := by
  let ops : List Operation := [.allocate 0 Station.trialCall,
    .allocate 1 { Station.trialCall with cid := some "d" }]
  let ms : List Message := [⟨0, .signal "key"⟩, ⟨1, .drop⟩]
  let ns : List Message := [⟨1, .drop⟩, ⟨0, .signal "key"⟩]
  let script := "@main\n  sleep 60\n  exit\n^key\n  sleep 1e30\n  exit\n"
  have hrun : (build trialConfig (trialPlan script)).toOption.map
      (fun x => (((x.performAll ops).deliverAll ms).1.slots.map (·.state),
        ((x.performAll ops).deliverAll ns).1.slots.map (·.state),
        ((x.performAll ops).drain (ms.map ((x.performAll ops).office.clock, ·))).answers)) =
      some ([.scripting, .scripting, .idle], [.scripting, .releasing, .idle], []) := by
    decide +kernel
  obtain ⟨x, hbuild, hobserved⟩ := exists_build hrun
  simp only [Prod.mk.injEq] at hobserved
  obtain ⟨hkey, hdrop, hnone⟩ := hobserved
  have hsame : SameBySlot ms ns := by
    intro id
    simp only [ms, ns, List.filter_cons, List.filter_nil]
    by_cases h₀ : 0 = id
    · simp [← h₀]
    · simp [h₀]
  refine ⟨_, _, ms, ns, (Recorded.of_build hbuild).performAll ops, hsame, hkey, hdrop, hnone,
    fun halike => ?_⟩
  have hstates := congrArg (List.map Slot.state) halike.slots
  rw [List.map_map, List.map_map] at hstates
  exact absurd (hdrop.symm.trans (hstates.trans hkey)) (by decide)

end Switchboard.Exchange
