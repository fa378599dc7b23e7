import Switchboard.Proofs.Exchange.Chronicle
import Switchboard.Proofs.Slot.Protocol

/-!
# Switchboard.Proofs.Exchange.Protocol

What a device is told in the course of a call, whatever is done to the exchange.

1. A call lasts from the operation that begins it until its slot is free again or
   out of service (`During`).
2. Nothing that is done in between makes the slot say anything to its device that is
   not in the protocol (`Speaks.perform`): service goes on with what was said, and
   what clients ask for leaves a slot alone that is in use.
3. So every call keeps to the protocol: `device_protocol`.
-/

namespace Switchboard.Exchange

variable {σ : Type} {x y z : Exchange σ} {id other : SlotId} {a : Adapter σ} {d : σ}
  {past : List Order}

/-- To ask for a slot touches none, and tells no device anything. -/
theorem untouched_request (x : Exchange σ) (group : Option String) :
    (x.request group).1.slots = x.slots ∧
      (x.request group).1.ledger.orders = x.ledger.orders ∧
      (x.request group).1.office = x.office := by
  have hcases := requested x group
  generalize x.request group = answered at hcases
  cases hcases <;> exact ⟨rfl, rfl, rfl⟩

/-! ## the time of a call -/

/-- What has become of an exchange, as long as a slot was in use whenever something was
asked for. -/
inductive During (id : SlotId) (x : Exchange σ) : Exchange σ → Prop
  | here : During id x x
  | perform {y : Exchange σ} {s : Slot σ} (op : Operation) : During id x y →
      y.slots[id]? = some s → s.isBusy = true → During id x (y.perform op)
  | elsewhere {y z : Exchange σ} : During id x y → Elsewhere y z → During id x z

theorem During.reach (h : During id x y) (hx : Reach x) : Reach y := by
  induction h with
  | here => exact hx
  | perform op _ _ _ ih => exact ih.perform op
  | elsewhere _ he ih => exact ih.elsewhere he

/-- Since it was given the orders `past`, the device of a slot has been told what the
protocol has it told. -/
structure Speaks (a : Adapter σ) (d : σ) (past : List Order) (id : SlotId) (x : Exchange σ) :
    Prop where
  adapter : x.office.adapter = a
  slot : ∃ s os, x.slots[id]? = some s ∧ x.ledger.ordersOf id = past ++ os ∧ s.Spoken a d os

namespace Speaks

/-! ## slots that are left alone -/

/-- The slot, its orders and the devices are as they were. -/
theorem spared (h : Speaks a d past id x) (hslots : y.slots = x.slots)
    (horders : y.ledger.orders = x.ledger.orders) (ha : y.office.adapter = x.office.adapter) :
    Speaks a d past id y := by
  obtain ⟨s, os, hs, hos, hspoken⟩ := h.slot
  refine ⟨ha.trans h.adapter, s, os, hslots ▸ hs, ?_, hspoken⟩
  unfold Ledger.ordersOf
  rw [horders]
  exact hos

theorem elsewhere (h : Speaks a d past id x) (he : Elsewhere x y) : Speaks a d past id y :=
  h.spared he.slots (by rw [he.ledger]) (by rw [he.office])

/-- Work on a slot goes on with what was said, if it is that slot. -/
theorem atSlot {α : Type} (h : Speaks a d past id x) (hx : x.Lawful)
    {f : Station σ → Station σ × α}
    (hf : ∀ s, x.slots[other]? = some s → ∃ w : Work σ, (f ⟨s, x.ledger⟩).1 = w.on x.ledger ∧
      w.slot.id = s.id ∧
      (other = id → ∀ os, s.Spoken a d os → w.slot.Spoken a d (os ++ w.orders))) :
    Speaks a d past id (x.atSlot other f).1 := by
  refine atSlot_cases (R := Speaks a d past id) other f h fun slot hslot => ⟨h.adapter, ?_⟩
  obtain ⟨s, os, hs, hos, hspoken⟩ := h.slot
  obtain ⟨w, hw, hid, hgoes⟩ := hf slot hslot
  have hnumber : w.slot.id = other := hid.trans (hx.numbered other slot hslot)
  dsimp only
  rw [hw, w.ordersOf_on, hnumber]
  by_cases hother : other = id
  · subst hother
    obtain rfl : s = slot := Option.some.inj (hs.symm.trans hslot)
    refine ⟨w.slot, os ++ w.orders, ?_, ?_, hgoes rfl os hspoken⟩
    · rw [List.getElem?_set_self (List.getElem?_eq_some_iff.mp hslot).1]
      rfl
    · rw [if_pos rfl, hos, List.append_assoc]
  · refine ⟨s, os, ?_, ?_, hspoken⟩
    · rw [List.getElem?_set_ne hother]
      exact hs
    · rw [if_neg (Ne.symm hother), List.append_nil]
      exact hos

/-! ## service -/

theorem post (h : Speaks a d past id x) (hx : x.Lawful) (other : SlotId) (e : Event) :
    Speaks a d past id (x.post other e).1 := by
  obtain rfl := h.adapter
  rw [post_eq_atSlot]
  have hpost := Station.Answers.post x.office e
  exact h.atSlot hx fun s _ => ⟨_, congrArg Prod.fst (hpost.eq ⟨s, x.ledger⟩), hpost.same s,
    fun _ os hs => hs.post e⟩

/-- Service goes on with what was said. -/
theorem service (h : Speaks a d past id x) (hx : x.Lawful) (hs : Service x y) :
    Speaks a d past id y := by
  cases hs with
  | post other e => exact h.post hx other e
  | expire other now =>
      obtain rfl := h.adapter
      have hexpire := Station.Answers.expire x.office now
      exact h.atSlot (f := Station.expire x.office now) hx fun s _ =>
        ⟨_, congrArg Prod.fst (hexpire.eq ⟨s, x.ledger⟩), hexpire.same s,
          fun _ os hs => hs.expire now⟩
  | reload scripts => exact h.spared rfl rfl rfl
  | elsewhere he => exact h.elsewhere he

theorem services (h : Speaks a d past id x) (hx : x.Lawful) (hs : Services x y) :
    Speaks a d past id y := by
  induction hs with
  | refl => exact h
  | tail hs hlast ih => exact ih.service (hx.acts (Services.acts hs)) hlast

/-! ## clients -/

theorem request (h : Speaks a d past id x) (group : Option String) :
    Speaks a d past id (x.request group).1 := by
  obtain ⟨hslots, horders, hoffice⟩ := untouched_request x group
  exact h.spared hslots horders (by rw [hoffice])

theorem restore (h : Speaks a d past id x) (other : SlotId) :
    Speaks a d past id (x.restore other).1 := by
  unfold Exchange.restore
  refine atSlot_cases (R := Speaks a d past id) other _ h fun slot hslot => ?_
  have hset : x.slots.set other slot = x.slots := set_of_getElem? hslot
  dsimp only
  split <;> exact h.spared hset rfl rfl

/-- A call that is asked for on a slot that is not free is refused. -/
theorem allocate (h : Speaks a d past id x) (hx : x.Lawful) {s : Slot σ}
    (hs : x.slots[id]? = some s) (hbusy : s.state ≠ .idle) (other : SlotId) (setup : CallSetup) :
    Speaks a d past id (x.allocate other setup).1 := by
  obtain rfl := h.adapter
  refine h.atSlot (f := Station.allocate x.office setup) hx fun t ht => ?_
  refine ⟨_, congrArg Prod.fst (Station.allocate_eq x.office setup ⟨t, x.ledger⟩),
    Station.id_allocate x.office setup _ t, ?_⟩
  rintro rfl os hspoken
  obtain rfl : s = t := Option.some.inj (hs.symm.trans ht)
  have hcases := Work.allocated x.office setup x.ledger.identities s
  dsimp only
  generalize Work.allocate x.office setup x.ledger.identities s = done at hcases
  cases hcases with
  | refused e => exact hspoken.rest
  -- Any other answer needs a slot that is free.
  | unseeded _ _ hidle | begun _ hidle => exact absurd hidle hbusy

theorem startCall (h : Speaks a d past id x) (hx : x.Lawful) {s : Slot σ}
    (hs : x.slots[id]? = some s) (hbusy : s.state ≠ .idle) (group : Option String)
    (setup : CallSetup) : Speaks a d past id (x.startCall group setup).1 := by
  have hrequest := h.request group
  have hlawful := hx.acts (acts_request x group)
  have hcalled : ∀ {z : Exchange σ} (other : SlotId) (setup : CallSetup),
      Elsewhere (x.request group).1 z → Speaks a d past id (z.allocate other setup).1 := by
    intro z other setup hz
    refine (hrequest.elsewhere hz).allocate (hlawful.act (.elsewhere hz)) ?_ hbusy other setup
    rw [hz.slots, (untouched_request x group).1]
    exact hs
  have hcases := callStarted x group setup
  generalize x.startCall group setup = answered at hcases
  cases hcases with
  | refused _ => exact hrequest
  | begun _ hz _ => exact hcalled _ _ hz
  | returned _ hz _ => exact (hcalled _ _ hz).restore _
  | missing _ hz _ => exact hcalled _ _ hz

/-! ## operations -/

/-- Every operation goes on with what was said on a slot that is in use. -/
theorem perform (h : Speaks a d past id x) (hx : x.Lawful) {s : Slot σ}
    (hs : x.slots[id]? = some s) (hbusy : s.isBusy = true) (op : Operation) :
    Speaks a d past id (x.perform op) := by
  have hstate : s.state ≠ .idle := fun hidle => by simp [Slot.isBusy, hidle] at hbusy
  cases op with
  | request group => exact h.request group
  | restore other => exact h.restore other
  | startCall group setup => exact h.startCall hx hs hstate group setup
  | allocate other setup => exact h.allocate hx hs hstate other setup
  | newPeriod => exact h.spared rfl rfl rfl
  | post | release | suspend | resume | reload | expire | expireDue | shutdown =>
      exact h.services hx (perform_services x rfl)

end Speaks

/-! ## calls that begin -/

/-- A call that begins on a slot finds its device armed with nothing. -/
theorem Lawful.speaks_allocate (hx : x.Lawful) {setup : CallSetup} {n : Nat}
    (hn : (x.allocate id setup).2 = some (.ok n)) :
    ∃ s, x.slots[id]? = some s ∧ lastArm (x.ledger.ordersOf id) = 0 ∧
      Speaks x.office.adapter s.device (x.ledger.ordersOf id) id (x.allocate id setup).1 := by
  unfold allocate at hn ⊢
  cases hslot : x.slots[id]? with
  | none => simp [atSlot_of_none hslot] at hn
  | some s =>
      obtain rfl := hx.numbered id s hslot
      rw [atSlot_of_getElem? hslot] at hn ⊢
      rw [Station.allocate_eq] at hn ⊢
      have hcases := Work.allocated x.office setup x.ledger.identities s
      dsimp only at hn ⊢
      generalize Work.allocate x.office setup x.ledger.identities s = done at hcases hn
      cases hcases with
      | refused e => exact nomatch hn
      | unseeded i fault _ => exact nomatch hn
      | begun i hidle =>
          have hvacant := ((hx.station hslot).law.idle hidle).1
          have hid : ((Work.entered x.office setup x.ledger.identities i s).and
              (Work.run x.office)).slot.id = s.id := (Station.Does.run x.office).same _
          refine ⟨s, rfl, (hx.station hslot).booked.trans hvacant.unarmed, rfl, _, _, ?_, ?_,
            Slot.Spoken.begun x.office setup x.ledger.identities i hvacant.unarmed⟩
          · exact List.getElem?_set_self (List.getElem?_eq_some_iff.mp hslot).1
          · rw [Work.ordersOf_on, hid, if_pos rfl]

/-- So does a call that is begun by an operation. -/
theorem Lawful.speaks_started (hx : x.Lawful) {op : Operation} (hop : x.started? op = some id) :
    ∃ s, x.slots[id]? = some s ∧ lastArm (x.ledger.ordersOf id) = 0 ∧
      Speaks x.office.adapter s.device (x.ledger.ordersOf id) id (x.perform op) := by
  cases op with
  | allocate other setup =>
      simp only [started?] at hop
      split at hop
      · next n hn =>
          obtain rfl := Option.some.inj hop
          exact hx.speaks_allocate hn
      · simp at hop
  | startCall group setup =>
      have hlawful := hx.acts (acts_request x group)
      obtain ⟨hslots, horders, hoffice⟩ := untouched_request x group
      simp only [started?] at hop
      rw [show x.perform (.startCall group setup) = (x.startCall group setup).1 from rfl]
      have hcases := callStarted x group setup
      generalize x.startCall group setup = answered at hcases hop
      cases hcases with
      | refused _ | returned _ _ _ | missing _ _ _ => simp [Except.toOption] at hop
      | @begun z started setup n _ hz hn =>
          obtain rfl := Option.some.inj hop
          obtain ⟨s, hs, hmask, hspeaks⟩ := (hlawful.act (.elsewhere hz)).speaks_allocate hn
          have hpast : z.ledger.ordersOf started = x.ledger.ordersOf started := by
            unfold Ledger.ordersOf
            rw [hz.ledger, ← horders]
          have ha : z.office.adapter = x.office.adapter := by rw [hz.office, hoffice]
          rw [hz.slots, hslots] at hs
          rw [hpast] at hmask hspeaks
          rw [ha] at hspeaks
          exact ⟨s, hs, hmask, hspeaks⟩
  | request | restore | newPeriod | post | release | suspend | resume | reload | expire
  | expireDue | shutdown => simp [started?] at hop

/-! ## every call -/

/-- From the operation that begins a call on, and until the slot is free again or out of
service, the orders to the device of the slot are those of the protocol: as long as the
script runs, to be armed and to execute commands; then one, to hang up or to
disconnect; and when the slot is free or out of service, perhaps one more, to be armed
with nothing.  They are all that the device is told.  Each order that arms it arms it
with something else than before, and before the call and after it, it is armed with
nothing. -/
theorem device_protocol (hx : Reach x) {op : Operation} (hop : x.started? op = some id)
    (hy : During id (x.perform op) y) :
    ∃ s t os, x.slots[id]? = some s ∧ y.slots[id]? = some t ∧
      y.ledger.ordersOf id = x.ledger.ordersOf id ++ os ∧ t.Spoken x.office.adapter s.device os ∧
      lastArm (x.ledger.ordersOf id) = 0 ∧
      (t.isBusy = false → lastArm (y.ledger.ordersOf id) = 0) := by
  obtain ⟨s, hs, hmask, hbegun⟩ := hx.lawful.speaks_started hop
  have hspeaks : Speaks x.office.adapter s.device (x.ledger.ordersOf id) id y := by
    induction hy with
    | here => exact hbegun
    | perform op hduring ht hbusy ih =>
        exact ih.perform (hduring.reach (hx.perform _)).lawful ht hbusy op
    | elsewhere _ he ih => exact ih.elsewhere he
  obtain ⟨t, os, ht, hos, hspoken⟩ := hspeaks.slot
  refine ⟨s, t, os, hs, ht, hos, hspoken, hmask, fun hfree => ?_⟩
  have hstate : t.state = .idle ∨ t.state = .offline := by
    cases hst : t.state <;> simp [Slot.isBusy, hst] at hfree ⊢
  have hlast := hspoken.unarmed hstate
  unfold lastArm at hmask hlast ⊢
  rw [hos, List.foldl_append, hmask, hlast]

/-- A device is armed for a call that is dropped, and the slot is free again. -/
theorem device_protocol_of_drop : ∃ (x y : Exchange Unit) (setup : CallSetup),
    Reach x ∧ x.started? (.allocate 0 setup) = some 0 ∧
      During 0 (x.perform (.allocate 0 setup)) y ∧
      y.ledger.ordersOf 0 = [.arm 1, .execute "play" ["a"], .disconnect, .arm 0] ∧
      ∃ s t os, x.slots[0]? = some s ∧ y.slots[0]? = some t ∧ t.state = .idle ∧
        y.ledger.ordersOf 0 = x.ledger.ordersOf 0 ++ os ∧
        t.Spoken x.office.adapter s.device os := by
  let plan : Plan Unit :=
    { trialPlan "@main\n  log begin\n  play a\n  sleep 60\n  exit\n" with
      commands := [("play", 1)] }
  let op : Operation := .allocate 0 Station.trialCall
  let state (x : Exchange Unit) := (x.slots[0]?).map (·.state)
  have hrun : (build trialConfig plan).toOption.map (fun x =>
      (x.started? op, state (x.perform op), state (x.performAll [op, .post 0 .drop]),
        state (x.performAll [op, .post 0 .drop, .release 0]),
        (x.performAll [op, .post 0 .drop, .release 0]).ledger.ordersOf 0)) =
      some (some 0, some .scripting, some .releasing, some .idle,
        [.arm 1, .execute "play" ["a"], .disconnect, .arm 0]) := by decide +kernel
  obtain ⟨x, hbuild, hobserved⟩ := exists_build hrun
  simp only [Prod.mk.injEq] at hobserved
  obtain ⟨hstarted, hscripting, hreleasing, hidle, horders⟩ := hobserved
  have hbusy : ∀ {z : Exchange Unit} {st : SlotState}, state z = some st →
      ∃ s, z.slots[0]? = some s ∧ s.state = st := fun h => Option.map_eq_some_iff.mp h
  obtain ⟨s₁, hs₁, hst₁⟩ := hbusy hscripting
  obtain ⟨s₂, hs₂, hst₂⟩ := hbusy hreleasing
  have hduring : During 0 (x.perform op) (x.performAll [op, .post 0 .drop, .release 0]) :=
    ((During.here.perform (.post 0 .drop) hs₁ (by simp [Slot.isBusy, hst₁])).perform
      (.release 0) hs₂ (by simp [Slot.isBusy, hst₂]))
  obtain ⟨s, t, os, hs, ht, hos, hspoken, -⟩ :=
    device_protocol (Reach.build hbuild) hstarted hduring
  obtain ⟨t', ht', hstate⟩ := hbusy hidle
  obtain rfl := Option.some.inj (ht.symm.trans ht')
  exact ⟨x, _, _, .build hbuild, hstarted, hduring, horders, s, t, os, hs, ht, hstate, hos,
    hspoken⟩

end Switchboard.Exchange
