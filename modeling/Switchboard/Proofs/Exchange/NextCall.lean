import Switchboard.Proofs.Exchange.Protocol
import Switchboard.Proofs.Slot.Renewal

/-!
# Switchboard.Proofs.Exchange.NextCall

The next call on a slot.

1. In every exchange that can be reached, the interpreters of free slots are as new
   ones (`Reach.fresh`).
2. In the course of a call its slot gets events, and whatever else happens leaves
   the slot alone (`Told`, `During.exists_told`).
3. Two slots that did the same so far do the same when they get the same event
   (`Alongside.gets`); so they do the same in the course of a call (`Told.alongside`).
4. So nothing of a call is left for the next one: `calls_do_not_leak`.
-/

namespace Switchboard.Exchange

variable {σ : Type} {x y z : Exchange σ} {id other : SlotId}

/-! ## what stays -/

/-- Acts change no settings; only scripts and the time. -/
theorem office_of_act (h : Act x y) : y.config = x.config ∧
    y.office = { x.office with scripts := y.office.scripts, clock := y.office.clock } := by
  have hworked {α : Type} (id : SlotId) (f : Station σ → Station σ × α) :
      (x.atSlot id f).1.config = x.config ∧ (x.atSlot id f).1.office =
        { x.office with
          scripts := (x.atSlot id f).1.office.scripts
          clock := (x.atSlot id f).1.office.clock } :=
    atSlot_cases (R := fun y => y.config = x.config ∧
      y.office = { x.office with scripts := y.office.scripts, clock := y.office.clock }) id f
      ⟨rfl, rfl⟩ fun _ _ => ⟨rfl, rfl⟩
  cases h with
  | post id e => exact post_eq_atSlot x id e ▸ hworked id _
  | expire id now => exact hworked id (Station.expire x.office now)
  | allocate id setup => exact hworked id _
  | restore id => exact hworked id _
  | take _ | reserve _ _ | newPeriod | reload _ => exact ⟨rfl, rfl⟩
  | elsewhere he => exact ⟨he.config, by rw [he.office]⟩

/-- The office is that of the configuration, and the interpreters of its slots come of
new ones. -/
structure Fresh (x : Exchange σ) : Prop where
  engine : x.office.engine = x.config.engine
  entry : x.office.entry = x.config.scripts.entry
  slots : ∀ s ∈ x.slots, s.Renewed x.config.engine.limits

namespace Fresh

/-- All slots are fresh before the start. -/
theorem unstarted (c : Config) (p : Plan σ) (segments : Segments) (scripts : LoadedScripts) :
    Fresh (unstarted c p segments scripts) := by
  refine ⟨rfl, rfl, fun s hs => ?_⟩
  obtain ⟨id, -, rfl⟩ := List.mem_map.1 hs
  exact .new id _ _

/-- What renews one slot keeps all slots fresh. -/
theorem atSlot {α : Type} (h : x.Fresh) (id : SlotId) {f : Station σ → Station σ × α}
    (hf : ∀ (s : Slot σ) (l : Ledger), s.Renewed x.config.engine.limits →
      (f ⟨s, l⟩).1.slot.Renewed x.config.engine.limits) : (x.atSlot id f).1.Fresh := by
  refine atSlot_cases (R := Fresh) id f h fun slot hslot => ⟨h.engine, h.entry, fun s hs => ?_⟩
  rcases List.mem_or_eq_of_mem_set hs with hs | rfl
  · exact h.slots s hs
  · exact hf slot x.ledger (h.slots slot (List.mem_of_getElem? hslot))

/-- The same slots, with the same settings. -/
theorem spared (h : x.Fresh) (hact : Act x y) (hslots : y.slots = x.slots) : y.Fresh := by
  obtain ⟨hconfig, hoffice⟩ := office_of_act hact
  refine ⟨?_, ?_, ?_⟩
  · rw [hoffice, hconfig]
    exact h.engine
  · rw [hoffice, hconfig]
    exact h.entry
  · rw [hslots, hconfig]
    exact h.slots

/-- An act of the switch keeps all slots fresh. -/
theorem act (h : x.Fresh) (hact : Act x y) : y.Fresh := by
  cases hact with
  | post id e =>
      rw [post_eq_atSlot]
      refine h.atSlot id fun s l hs => ?_
      rw [(Station.Answers.post x.office e).eq]
      exact hs.post x.office e
  | expire id now =>
      refine h.atSlot (f := Station.expire x.office now) id fun s l hs => ?_
      rw [(Station.Answers.expire x.office now).eq]
      exact hs.expire x.office now
  | allocate id setup =>
      refine h.atSlot id fun s l hs => ?_
      rw [Station.allocate_eq]
      exact hs.allocate x.office setup _
  | restore id =>
      refine h.atSlot id fun s l hs => ?_
      split <;> exact hs
  | take ht => exact h.spared (.take ht) rfl
  | reserve group ht => exact h.spared (.reserve group ht) rfl
  | reload scripts => exact h.spared (.reload scripts) rfl
  | newPeriod => exact h.spared (.newPeriod x) rfl
  | elsewhere he => exact h.spared (.elsewhere he) he.slots

end Fresh

/-- Every slot that can be reached is fresh. -/
theorem Reach.fresh (h : Reach x) : x.Fresh :=
  h.of_acts (fun c p segments scripts _ _ => .unstarted c p segments scripts)
    fun _ _ hx hact => hx.act hact

/-! ## the course of a call -/

/-- A slot gets an event, or its timer runs out. -/
inductive Gets (id : SlotId) (x : Exchange σ) : Event → Exchange σ → Prop
  | post (e : Event) : Gets id x e (x.post id e).1
  | expire {s : Slot σ} (now : Nat) : x.slots[id]? = some s → s.timer.expiry ≤ now →
      Gets id x .timeout (x.expire id now).1

/-- Something happens that leaves a slot alone, and tells its device nothing. -/
structure Beside (id : SlotId) (x y : Exchange σ) : Prop where
  act : Act x y
  slot : y.slots[id]? = x.slots[id]?
  orders : y.ledger.ordersOf id = x.ledger.ordersOf id

/-- What has become of an exchange since then, and the events that a slot got, the last
one first. -/
inductive Told (id : SlotId) (x : Exchange σ) : List Event → Exchange σ → Prop
  | start : Told id x [] x
  | gets {es : List Event} {e : Event} {y z : Exchange σ} : Told id x es y → Gets id y e z →
      Told id x (e :: es) z
  | beside {es : List Event} {y z : Exchange σ} : Told id x es y → Beside id y z → Told id x es z

/-- What a slot gets is an act of the switch. -/
theorem Gets.act {e : Event} (h : Gets id x e y) : Act x y := by
  cases h with
  | post => exact .post x id e
  | expire now _ _ => exact .expire x id now

/-- What a slot has been told is a run of acts. -/
theorem Told.acts {es : List Event} (h : Told id x es y) : Acts x y := by
  induction h with
  | start => exact .refl
  | gets _ hg ih => exact ih.tail hg.act
  | beside _ hb ih => exact ih.tail hb.act

namespace Beside

/-- The slots, and the orders to their devices, are as they were. -/
theorem spared (hact : Act x y) (hslots : y.slots = x.slots)
    (horders : y.ledger.orders = x.ledger.orders) : Beside id x y := by
  refine ⟨hact, by rw [hslots], ?_⟩
  unfold Ledger.ordersOf
  rw [horders]

/-- Work on another slot, or work that does nothing. -/
theorem atSlot {α : Type} {f : Station σ → Station σ × α} (hact : Act x (x.atSlot other f).1)
    (hx : x.Lawful) (hf : ∀ s, x.slots[other]? = some s → ∃ w : Work σ,
      (f ⟨s, x.ledger⟩).1 = w.on x.ledger ∧ w.slot.id = s.id ∧
      (other = id → w.slot = s ∧ w.orders = [])) : Beside id x (x.atSlot other f).1 := by
  suffices h : (x.atSlot other f).1.slots[id]? = x.slots[id]? ∧
      (x.atSlot other f).1.ledger.ordersOf id = x.ledger.ordersOf id from ⟨hact, h.1, h.2⟩
  refine atSlot_cases (R := fun y => y.slots[id]? = x.slots[id]? ∧
    y.ledger.ordersOf id = x.ledger.ordersOf id) other f ⟨rfl, rfl⟩ fun slot hslot => ?_
  obtain ⟨w, hw, hid, hnothing⟩ := hf slot hslot
  have hnumber : w.slot.id = other := hid.trans (hx.numbered other slot hslot)
  dsimp only
  rw [hw, w.ordersOf_on, hnumber]
  by_cases hother : other = id
  · subst hother
    obtain ⟨hsame, horders⟩ := hnothing rfl
    rw [if_pos rfl, horders, List.append_nil, List.getElem?_set_self', hslot]
    exact ⟨congrArg some hsame, rfl⟩
  · rw [if_neg (Ne.symm hother), List.append_nil, List.getElem?_set_ne hother]
    exact ⟨rfl, rfl⟩

end Beside

namespace Told

/-! Whatever is done while a slot is in use belongs to the course of its call. -/

/-- An event for any slot is told, or told of another slot. -/
theorem post (h : ∃ es, Told id x es y) (hy : y.Lawful) (other : SlotId) (e : Event) :
    ∃ es, Told id x es (y.post other e).1 := by
  obtain ⟨es, h⟩ := h
  by_cases hother : other = id
  · subst hother
    exact ⟨_, h.gets (.post e)⟩
  · have hpost := Station.Answers.post y.office e
    have hact := Act.post y other e
    rw [post_eq_atSlot] at hact ⊢
    exact ⟨es, h.beside <| .atSlot hact hy fun s _ =>
      ⟨_, congrArg Prod.fst (hpost.eq ⟨s, y.ledger⟩), hpost.same s, fun he => absurd he hother⟩⟩

/-- So is the end of a time. -/
theorem expire (h : ∃ es, Told id x es y) (hy : y.Lawful) (other : SlotId) (now : Nat) :
    ∃ es, Told id x es (y.expire other now).1 := by
  obtain ⟨es, h⟩ := h
  by_cases hdue : other = id ∧ ∃ s, y.slots[id]? = some s ∧ s.timer.expiry ≤ now
  · obtain ⟨rfl, s, hs, hd⟩ := hdue
    exact ⟨_, h.gets (.expire now hs hd)⟩
  · have hexpire := Station.Answers.expire y.office now
    refine ⟨es, h.beside <| .atSlot (f := Station.expire y.office now) (.expire y other now) hy
      fun s hs => ⟨_, congrArg Prod.fst (hexpire.eq ⟨s, y.ledger⟩), hexpire.same s, fun he => ?_⟩⟩
    subst he
    have hnot : ¬ s.timer.expiry ≤ now := fun hd => hdue ⟨rfl, s, hs, hd⟩
    unfold Work.expire
    rw [if_neg hnot]
    exact ⟨rfl, rfl⟩

/-- So is the service of segments. -/
theorem services (h : ∃ es, Told id x es y) (hy : y.Lawful) (hs : Services y z) :
    ∃ es, Told id x es z := by
  induction hs with
  | refl => exact h
  | tail hs hlast ih =>
      have hlawful := hy.acts (Services.acts hs)
      cases hlast with
      | post other e => exact post ih hlawful other e
      | expire other now => exact expire ih hlawful other now
      | reload scripts => exact ih.imp fun _ h => h.beside (.spared (.reload scripts) rfl rfl)
      | elsewhere he =>
          exact ih.imp fun _ h => h.beside (.spared (.elsewhere he) he.slots (by rw [he.ledger]))

/-- So is the request of a slot. -/
theorem request (h : ∃ es, Told id x es y) (group : Option String) :
    ∃ es, Told id x es (y.request group).1 := by
  have hcases := requested y group
  generalize y.request group = answered at hcases
  cases hcases with
  | refused e => exact h
  | taken _ ht => exact h.imp fun _ h => h.beside (.spared (.take ht) rfl rfl)
  | reserved _ _ _ ht => exact h.imp fun _ h => h.beside (.spared (.reserve _ ht) rfl rfl)

/-- So is a slot given back. -/
theorem restore (h : ∃ es, Told id x es y) (other : SlotId) :
    ∃ es, Told id x es (y.restore other).1 := by
  refine h.imp fun es h => h.beside ?_
  suffices hrest : (y.restore other).1.slots = y.slots ∧
      (y.restore other).1.ledger.orders = y.ledger.orders from
    .spared (.restore y other) hrest.1 hrest.2
  unfold Exchange.restore
  refine atSlot_cases (R := fun z => z.slots = y.slots ∧ z.ledger.orders = y.ledger.orders)
    other _ ⟨rfl, rfl⟩ fun slot hslot => ?_
  have hset : y.slots.set other slot = y.slots := set_of_getElem? hslot
  dsimp only
  split <;> exact ⟨hset, rfl⟩

/-- A call that is asked for on a slot that is in use is refused. -/
theorem allocate (h : ∃ es, Told id x es y) (hy : y.Lawful) {s : Slot σ}
    (hs : y.slots[id]? = some s) (hbusy : s.state ≠ .idle) (other : SlotId) (setup : CallSetup) :
    ∃ es, Told id x es (y.allocate other setup).1 := by
  refine h.imp fun es h => h.beside ?_
  refine .atSlot (f := Station.allocate y.office setup) (.allocate y other setup) hy
    fun t ht => ⟨_, congrArg Prod.fst (Station.allocate_eq y.office setup ⟨t, y.ledger⟩),
      Station.id_allocate y.office setup _ t, ?_⟩
  rintro rfl
  obtain rfl : s = t := Option.some.inj (hs.symm.trans ht)
  have hcases := Work.allocated y.office setup y.ledger.identities s
  dsimp only
  generalize Work.allocate y.office setup y.ledger.identities s = done at hcases
  cases hcases with
  | refused e => exact ⟨rfl, rfl⟩
  | unseeded _ _ hidle | begun _ hidle => exact absurd hidle hbusy

/-- So is a call that starts while the slot is busy. -/
theorem startCall (h : ∃ es, Told id x es y) (hy : y.Lawful) {s : Slot σ}
    (hs : y.slots[id]? = some s) (hbusy : s.state ≠ .idle) (group : Option String)
    (setup : CallSetup) : ∃ es, Told id x es (y.startCall group setup).1 := by
  have hrequest := request h group
  have hlawful := hy.acts (acts_request y group)
  have hcalled : ∀ {z : Exchange σ} (other : SlotId) (setup : CallSetup),
      Elsewhere (y.request group).1 z → ∃ es, Told id x es (z.allocate other setup).1 := by
    intro z other setup hz
    have hthere := hrequest.imp fun _ h =>
      h.beside (.spared (.elsewhere hz) hz.slots (by rw [hz.ledger]))
    refine allocate hthere (hlawful.act (.elsewhere hz)) ?_ hbusy other setup
    rw [hz.slots, (untouched_request y group).1]
    exact hs
  have hcases := callStarted y group setup
  generalize y.startCall group setup = answered at hcases
  cases hcases with
  | refused _ => exact hrequest
  | begun _ hz _ => exact hcalled _ _ hz
  | returned _ hz _ => exact restore (hcalled _ _ hz) _
  | missing _ hz _ => exact hcalled _ _ hz

/-- So is every operation while the slot is busy. -/
theorem perform (h : ∃ es, Told id x es y) (hy : y.Lawful) {s : Slot σ}
    (hs : y.slots[id]? = some s) (hbusy : s.isBusy = true) (op : Operation) :
    ∃ es, Told id x es (y.perform op) := by
  have hstate : s.state ≠ .idle := fun hidle => by simp [Slot.isBusy, hidle] at hbusy
  cases op with
  | request group => exact request h group
  | restore other => exact restore h other
  | startCall group setup => exact startCall h hy hs hstate group setup
  | allocate other setup => exact allocate h hy hs hstate other setup
  | newPeriod => exact h.imp fun _ h => h.beside (.spared (.newPeriod y) rfl rfl)
  | post | release | suspend | resume | reload | expire | expireDue | shutdown =>
      exact services h hy (perform_services y rfl)

end Told

/-- In the course of a call its slot gets events, and is left alone otherwise. -/
theorem During.exists_told (h : During id x y) (hx : x.Lawful) : ∃ es, Told id x es y := by
  induction h with
  | here => exact ⟨_, .start⟩
  | perform op _ hs hbusy ih =>
      obtain ⟨es, htold⟩ := ih
      exact Told.perform ⟨es, htold⟩ (hx.acts htold.acts) hs hbusy op
  | elsewhere _ he ih =>
      exact ih.imp fun _ h => h.beside (.spared (.elsewhere he) he.slots (by rw [he.ledger]))

/-! ## two calls -/

/-- Times left out, work gives the same orders. -/
theorem orders_timeless (w : Work σ) : w.timeless.orders = w.orders := by
  unfold Work.orders Work.timeless
  dsimp only
  rw [List.filterMap_filterMap]
  refine congrArg (List.filterMap · w.entries) (funext fun e => ?_)
  cases e <;> rfl

/-- A piece of work is done on a slot, and its device gets the orders of it. -/
structure Worked (id : SlotId) (x : Exchange σ) (w : Work σ) (y : Exchange σ) : Prop where
  act : Act x y
  slot : y.slots[id]? = some w.slot
  orders : y.ledger.ordersOf id = x.ledger.ordersOf id ++ w.orders

/-- Work at the slot is the only thing that changes there. -/
theorem Worked.atSlot {α : Type} {f : Station σ → Station σ × α}
    (hact : Act x (x.atSlot id f).1) (hx : x.Lawful) {s : Slot σ} (hs : x.slots[id]? = some s)
    {w : Work σ} (hw : (f ⟨s, x.ledger⟩).1 = w.on x.ledger) (hid : w.slot.id = s.id) :
    Worked id x w (x.atSlot id f).1 := by
  have hnumber : w.slot.id = id := hid.trans (hx.numbered id s hs)
  refine ⟨hact, ?_, ?_⟩
  · rw [atSlot_of_getElem? hs, hw]
    exact List.getElem?_set_self (List.getElem?_eq_some_iff.1 hs).1
  · rw [atSlot_of_getElem? hs, hw]
    dsimp only
    rw [w.ordersOf_on, if_pos hnumber.symm]

/-- What an event comes to: the work for it, on the slot as it was but for the timer. -/
theorem Gets.worked {e : Event} (h : Gets id x e y) (hx : x.Lawful) {s : Slot σ}
    (hs : x.slots[id]? = some s) :
    ∃ t : Slot σ, t.timeless = s.timeless ∧ Worked id x (Work.post x.office e t).1 y := by
  cases h with
  | post e =>
      have hpost := Station.Answers.post x.office e
      have hact := Act.post x id e
      rw [post_eq_atSlot] at hact ⊢
      exact ⟨s, rfl, .atSlot hact hx hs (congrArg Prod.fst (hpost.eq ⟨s, x.ledger⟩)) (hpost.same s)⟩
  | expire now hs' hdue =>
      obtain rfl := Option.some.inj (hs.symm.trans hs')
      have hexpire := Station.Answers.expire x.office now
      have hwork : (Work.expire x.office now s).1 =
          (Work.post x.office .timeout { s with timer := .unset }).1 := by
        unfold Work.expire
        rw [if_pos hdue]
      refine ⟨{ s with timer := .unset }, rfl, hwork ▸ ?_⟩
      exact .atSlot (f := Station.expire x.office now) (.expire x id now) hx hs
        (congrArg Prod.fst (hexpire.eq ⟨s, x.ledger⟩)) (hexpire.same s)

/-- A call that is allocated is such work. -/
theorem worked_allocate (hx : x.Lawful) {s : Slot σ} (hs : x.slots[id]? = some s)
    (setup : CallSetup) :
    Worked id x (Work.allocate x.office setup x.ledger.identities s).1 (x.allocate id setup).1 :=
  .atSlot (f := Station.allocate x.office setup) (.allocate x id setup) hx hs
    (congrArg Prod.fst (Station.allocate_eq x.office setup ⟨s, x.ledger⟩))
    (Station.id_allocate x.office setup _ s)

/-- Slots that agree but for the times, in exchanges that treat them alike, and that
have told their devices the same since they were given the orders `before` and
`before'`. -/
structure Alongside (id : SlotId) (before before' : List Order) (x y : Exchange σ) : Prop where
  lawful : x.Lawful ∧ y.Lawful
  adapter : x.office.adapter = y.office.adapter
  turns : x.office.engine.stepsPerTick = y.office.engine.stepsPerTick
  slots : ∃ s t os, x.slots[id]? = some s ∧ y.slots[id]? = some t ∧ s.timeless = t.timeless ∧
    x.ledger.ordersOf id = before ++ os ∧ y.ledger.ordersOf id = before' ++ os

namespace Alongside

variable {before before' : List Order} {x' y' : Exchange σ}

/-- Two switches run alongside each other in either order. -/
theorem symm (h : Alongside id before before' x y) : Alongside id before' before y x := by
  obtain ⟨s, t, os, hs, ht, hst, hos, hos'⟩ := h.slots
  exact ⟨h.lawful.symm, h.adapter.symm, h.turns.symm, t, s, os, ht, hs, hst.symm, hos', hos⟩

/-- What goes on beside the slot changes nothing that is compared. -/
theorem beside (h : Alongside id before before' x y) (hb : Beside id x x') :
    Alongside id before before' x' y := by
  obtain ⟨s, t, os, hs, ht, hst, hos, hos'⟩ := h.slots
  obtain ⟨-, hoffice⟩ := office_of_act hb.act
  refine ⟨⟨h.lawful.1.act hb.act, h.lawful.2⟩, ?_, ?_, s, t, os, hb.slot.trans hs, ht, hst,
    hb.orders.trans hos, hos'⟩
  · rw [hoffice]
    exact h.adapter
  · rw [hoffice]
    exact h.turns

/-- Work is done on both that comes to the same but for the times. -/
theorem worked (h : Alongside id before before' x y) {w v : Work σ} (hw : Worked id x w x')
    (hv : Worked id y v y') (hwv : w.timeless = v.timeless) :
    Alongside id before before' x' y' := by
  obtain ⟨-, -, os, -, -, -, hos, hos'⟩ := h.slots
  obtain ⟨-, hoffice⟩ := office_of_act hw.act
  obtain ⟨-, hoffice'⟩ := office_of_act hv.act
  have horders : w.orders = v.orders := by
    rw [← orders_timeless, hwv, orders_timeless]
  refine ⟨⟨h.lawful.1.act hw.act, h.lawful.2.act hv.act⟩, ?_, ?_, w.slot, v.slot,
    os ++ w.orders, hw.slot, hv.slot, congrArg Work.slot hwv, ?_, ?_⟩
  · rw [hoffice, hoffice']
    exact h.adapter
  · rw [hoffice, hoffice']
    exact h.turns
  · rw [hw.orders, hos, List.append_assoc]
  · rw [hv.orders, hos', List.append_assoc, horders]

/-- Slots that did the same so far do the same when they get the same event. -/
theorem gets (h : Alongside id before before' x y) {e : Event} (hx : Gets id x e x')
    (hy : Gets id y e y') : Alongside id before before' x' y' := by
  obtain ⟨s, t, -, hs, ht, hst, -, -⟩ := h.slots
  obtain ⟨s', hs', hw⟩ := hx.worked h.lawful.1 hs
  obtain ⟨t', ht', hv⟩ := hy.worked h.lawful.2 ht
  obtain ⟨hagree, -⟩ := Work.agree_post h.adapter (fun _ => h.turns) e
    ((hs'.trans hst).trans ht'.symm)
  exact h.worked hw hv hagree

end Alongside

/-- Slots that did the same so far do the same as long as they get the same events. -/
theorem Told.alongside {before before' : List Order} {x' y' : Exchange σ} {es : List Event}
    (h : Alongside id before before' x y) (hx : Told id x es x') (hy : Told id y es y') :
    Alongside id before before' x' y' := by
  induction hx generalizing y' with
  | beside _ hb ih => exact (ih hy).beside hb
  | start =>
      generalize hes : [] = es at hy
      induction hy with
      | start => exact h
      | gets _ _ _ => exact nomatch hes
      | beside _ hb ih => exact ((ih hes).symm.beside hb).symm
  | @gets es e _ _ _ hg ih =>
      generalize hes : e :: es = es' at hy
      induction hy with
      | start => exact nomatch hes
      | gets hy hg' _ =>
          obtain ⟨rfl, rfl⟩ := List.cons.inj hes
          exact (ih hy).gets hg hg'
      | beside _ hb ih' => exact ((ih' hes).symm.beside hb).symm

/-! ## the next call -/

/-- All that a call on a slot is to depend on is the same: the slot is free, its device
and the number of its calls are the same, and so are settings, scripts and devices.  An
identity that is made up for the call counts as a part of what is asked for. -/
structure SameStart (id : SlotId) (setup : CallSetup) (x y : Exchange σ) : Prop where
  engine : x.config.engine = y.config.engine
  entry : x.config.scripts.entry = y.config.scripts.entry
  adapter : x.office.adapter = y.office.adapter
  image : x.office.scripts.image = y.office.scripts.image
  slots : ∃ s t, x.slots[id]? = some s ∧ y.slots[id]? = some t ∧ s.state = .idle ∧
    t.state = .idle ∧ s.device = t.device ∧ s.sequence = t.sequence
  identity : setup.cid = none →
    x.office.identities x.ledger.identities = y.office.identities y.ledger.identities

/-- Whatever calls it has carried, a free slot is as a new one that has just come into
service, but for its device and the number of its calls. -/
theorem Reach.slot_eq (hx : Reach x) {s : Slot σ} (hs : x.slots[id]? = some s)
    (hidle : s.state = .idle) : s =
      { Slot.new id x.config.engine.limits s.device with
        state := .idle, sequence := s.sequence } := by
  obtain rfl := hx.lawful.numbered id s hs
  exact (hx.fresh.slots s (List.mem_of_getElem? hs)).eq_of_idle
    ((hx.lawful.station hs).law.idle hidle).1 hidle

/-- Slots from which two calls begin alike. -/
theorem SameStart.alongside {setup : CallSetup} (h : SameStart id setup x y) (hx : Reach x)
    (hy : Reach y) : Alongside id (x.ledger.ordersOf id) (y.ledger.ordersOf id) x y := by
  obtain ⟨s, t, hs, ht, hidle, hidle', hdevice, hsequence⟩ := h.slots
  have hst : s = t := by
    rw [hx.slot_eq hs hidle, hy.slot_eq ht hidle', h.engine, hdevice, hsequence]
  refine ⟨⟨hx.lawful, hy.lawful⟩, h.adapter, ?_, s, t, [], hs, ht, congrArg Slot.timeless hst,
    (List.append_nil _).symm, (List.append_nil _).symm⟩
  rw [hx.fresh.engine, hy.fresh.engine, h.engine]

/-- Two calls that begin alike are answered alike, and go on side by side. -/
theorem SameStart.allocate {setup : CallSetup} (h : SameStart id setup x y) (hx : Reach x)
    (hy : Reach y) : (x.allocate id setup).2 = (y.allocate id setup).2 ∧
      Alongside id (x.ledger.ordersOf id) (y.ledger.ordersOf id) (x.allocate id setup).1
        (y.allocate id setup).1 := by
  have hbefore := h.alongside hx hy
  obtain ⟨s, t, -, hs, ht, hst, -, -⟩ := hbefore.slots
  have hentry : x.office.entry = y.office.entry := by
    rw [hx.fresh.entry, hy.fresh.entry, h.entry]
  obtain ⟨hagree, hanswer⟩ :=
    Work.agree_allocate h.adapter h.image hentry hbefore.turns h.identity hst
  refine ⟨?_, hbefore.worked (worked_allocate hx.lawful hs setup)
    (worked_allocate hy.lawful ht setup) hagree⟩
  unfold Exchange.allocate
  rw [atSlot_of_getElem? hs, atSlot_of_getElem? ht, Station.allocate_eq, Station.allocate_eq]
  exact congrArg some hanswer

/-- Calls do not leak into each other.

1. Whatever operations an interpreter has seen, after it is detached it answers further
   ones as a new one with its limits.  Its symbols may be kept in an arena, which
   answers as a new one after a reset, whatever is left in its storage.
2. Whatever calls a slot has carried and however they ended, when it is free it is as
   a new one, but for its device and the number of its calls.
3. So what a call is answered when it is asked for, what its device is told, and what
   becomes of its slot, with the interpreter and its symbols and the reason why the call
   ends, depend on nothing else but the settings, the image, the devices, what is asked
   for, and the events that the slot gets; and so do the records that are handed in,
   but for the times. -/
theorem calls_do_not_leak :
    (∀ s : Interpreter, s.Reachable →
      (∃ past, ((Arena.new s.limits.maxSymbols s.limits.symbolSize).performAll past).Holds
          s.symbols ∧
        ∀ ops, ((Arena.new s.limits.maxSymbols s.limits.symbolSize).performAll past).reset.answers
          ops = (Arena.new s.limits.maxSymbols s.limits.symbolSize).answers ops) ∧
      ∀ {τ : Type} (world : τ) (ops : List (Interpreter.Operation τ)),
        s.detach.answers world ops = (Interpreter.new s.limits).answers world ops) ∧
    (∀ {σ : Type} {x : Exchange σ} {id : SlotId} {s : Slot σ}, Reach x →
      x.slots[id]? = some s → s.state = .idle →
        s = { Slot.new id x.config.engine.limits s.device with
          state := .idle, sequence := s.sequence }) ∧
    ∀ {σ : Type} {x y : Exchange σ} {id : SlotId} {setup : CallSetup}, Reach x → Reach y →
      SameStart id setup x y →
        (x.allocate id setup).2 = (y.allocate id setup).2 ∧
        (∀ x', During id (x.allocate id setup).1 x' →
          ∃ es, Told id (x.allocate id setup).1 es x') ∧
        ∀ es x' y', Told id (x.allocate id setup).1 es x' → Told id (y.allocate id setup).1 es y' →
          ∃ s t os, x'.slots[id]? = some s ∧ y'.slots[id]? = some t ∧
            x'.ledger.ordersOf id = x.ledger.ordersOf id ++ os ∧
            y'.ledger.ordersOf id = y.ledger.ordersOf id ++ os ∧
            s.timeless = t.timeless ∧
            ∀ e, Work.Agree (Work.post x'.office e s) (Work.post y'.office e t) := by
  refine ⟨fun s hs => ⟨?_, fun world ops => by rw [hs.detach_eq_new]⟩,
    fun hx hs hidle => hx.slot_eq hs hidle, fun {σ x y id setup} hx hy h => ?_⟩
  · obtain ⟨past, holds⟩ := hs.exists_arena
    exact ⟨past, holds, Arena.answers_reset _ _ past⟩
  · obtain ⟨hanswer, hbegun⟩ := h.allocate hx hy
    refine ⟨hanswer, fun x' hd => hd.exists_told hbegun.lawful.1, fun es x' y' hx' hy' => ?_⟩
    have halongside := Told.alongside hbegun hx' hy'
    obtain ⟨s, t, os, hs, ht, hst, hos, hos'⟩ := halongside.slots
    exact ⟨s, t, os, hs, ht, hos, hos', hst, fun e =>
      Work.agree_post halongside.adapter (fun _ => halongside.turns) e hst⟩

/-- One script that knows a secret and fails, and one that asks for the secret. -/
def secretPlan : Plan Unit :=
  { trialPlan ("@main\n  play %cid\n  sleep 60\n  play %secret\n" ++
      "@broken\n  set secret 42\n  play a\n  error oops\n") with
    commands := [("play", 1)] }

/-- A call with an identity. -/
def secretCall (cid : String) (script : Option String) : CallSetup :=
  ⟨some cid, "1", "2", script, none, none⟩

/-- Operations are runs of acts. -/
theorem acts_performAll (x : Exchange σ) (ops : List Operation) : Acts x (x.performAll ops) := by
  induction ops generalizing x with
  | nil => exact .refl
  | cons op rest ih => exact (perform_acts x op).trans (ih _)

/-- Acts leave the settings alone. -/
theorem settings_of_acts (h : Acts x y) :
    y.config = x.config ∧ y.office.adapter = x.office.adapter := by
  induction h with
  | refl => exact ⟨rfl, rfl⟩
  | tail _ hlast ih =>
      obtain ⟨hconfig, hoffice⟩ := office_of_act hlast
      rw [hconfig, hoffice]
      exact ih

/-- Whether the call before knew a secret and failed, or did not know it and was
dropped: the next one does not know it. -/
theorem calls_do_not_leak_secret :
    (∃ s : Interpreter, (Interpreter.new .default).setSymbol "secret" "42" = .ok s ∧
      ∀ ops : List (Interpreter.Operation Unit),
        s.detach.answers () ops = (Interpreter.new s.limits).answers () ops) ∧
    ∃ x y : Exchange Unit, Reach x ∧ Reach y ∧ SameStart 0 (secretCall "c" none) x y ∧
      x.ledger.ordersOf 0 = [.arm 1, .execute "play" ["a"], .hangup, .arm 0] ∧
      y.ledger.ordersOf 0 = [.execute "play" ["b"], .arm 1, .disconnect, .arm 0] ∧
      ∃ s t, ((x.allocate 0 (secretCall "c" none)).1.post 0 .timeout).1.slots[0]? = some s ∧
        ((y.allocate 0 (secretCall "c" none)).1.post 0 .timeout).1.slots[0]? = some t ∧
        s.timeless = t.timeless ∧
        s.call.map (·.reason) = some "error: symbol not found: secret" := by
  refine ⟨?_, ?_⟩
  · obtain ⟨s, hs⟩ : ∃ s, (Interpreter.new .default).setSymbol "secret" "42" = .ok s :=
      ⟨_, rfl⟩
    exact ⟨s, hs, ((calls_do_not_leak.1 s (.setSymbol (.new .default) hs)).2 ())⟩
  · let failed : List Operation := [.allocate 0 (secretCall "a" (some "broken")), .release 0]
    let dropped : List Operation :=
      [.allocate 0 (secretCall "b" none), .post 0 .drop, .release 0]
    let seen (x : Exchange Unit) := (x.slots[0]?).map fun s => (s.state, s.sequence)
    let after (x : Exchange Unit) := ((x.allocate 0 (secretCall "c" none)).1.post 0 .timeout).1
    have hrun : (build trialConfig secretPlan).toOption.map (fun x => decide <|
        (x.performAll failed).office.scripts.image = (x.performAll dropped).office.scripts.image ∧
        seen (x.performAll failed) = some (.idle, 1) ∧
        seen (x.performAll dropped) = some (.idle, 1) ∧
        (x.performAll failed).ledger.ordersOf 0 =
          [.arm 1, .execute "play" ["a"], .hangup, .arm 0] ∧
        (x.performAll dropped).ledger.ordersOf 0 =
          [.execute "play" ["b"], .arm 1, .disconnect, .arm 0] ∧
        ((after (x.performAll failed)).slots[0]?).map (fun s => s.call.map (·.reason)) =
          some (some "error: symbol not found: secret")) = some true := by decide +kernel
    obtain ⟨x, hbuild, hobserved⟩ := exists_build hrun
    obtain ⟨himage, hx, hy, horders, horders', hreason⟩ := of_decide_eq_true hobserved
    have hreach := fun ops => (Reach.build hbuild).performAll ops
    obtain ⟨s, hs, hidle, hsequence⟩ : ∃ s, (x.performAll failed).slots[0]? = some s ∧
        s.state = .idle ∧ s.sequence = 1 := by
      obtain ⟨s, hs, he⟩ := Option.map_eq_some_iff.1 hx
      exact ⟨s, hs, congrArg Prod.fst he, congrArg Prod.snd he⟩
    obtain ⟨t, ht, hidle', hsequence'⟩ : ∃ t, (x.performAll dropped).slots[0]? = some t ∧
        t.state = .idle ∧ t.sequence = 1 := by
      obtain ⟨t, ht, he⟩ := Option.map_eq_some_iff.1 hy
      exact ⟨t, ht, congrArg Prod.fst he, congrArg Prod.snd he⟩
    obtain ⟨hconfig, hadapter⟩ := settings_of_acts (acts_performAll x failed)
    obtain ⟨hconfig', hadapter'⟩ := settings_of_acts (acts_performAll x dropped)
    have hsame : SameStart 0 (secretCall "c" none) (x.performAll failed) (x.performAll dropped) :=
      ⟨by rw [hconfig, hconfig'], by rw [hconfig, hconfig'], hadapter.trans hadapter'.symm,
        himage,
        ⟨s, t, hs, ht, hidle, hidle', rfl, hsequence.trans hsequence'.symm⟩,
        fun hnone => nomatch hnone⟩
    obtain ⟨-, -, hcourse⟩ := calls_do_not_leak.2.2 (hreach failed) (hreach dropped) hsame
    obtain ⟨s', t', -, hs', ht', -, -, hst, -⟩ := hcourse [.timeout] _ _
      (.gets .start (.post .timeout)) (.gets .start (.post .timeout))
    refine ⟨_, _, hreach failed, hreach dropped, hsame, horders, horders', s', t', hs', ht', hst,
      ?_⟩
    obtain ⟨s'', hs'', he⟩ := Option.map_eq_some_iff.1 hreason
    obtain rfl := Option.some.inj (hs'.symm.trans hs'')
    exact he

end Switchboard.Exchange
