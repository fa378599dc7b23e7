import Switchboard.Proofs.Exchange.Records

/-!
# Switchboard.Proofs.Exchange.Rejection

Which events are rejected, and that a rejection changes nothing.

1. A script takes the events that a frame outside loops handles, however deep that
   frame lies (`Interpreter.Handles`).  An event that it does not take leaves it as
   it was.
2. A slot takes an event by its state, and a signal by its script (`Slot.Takes`).
   It rejects all others, and then neither the slot nor the books change
   (`Station.post_of_not_takes`); the books also list the orders to devices.
3. Once a slot has been freed of a call, it only ever carries later ones
   (`Slot.Behind`), whatever happens.  So no call is freed twice.
-/

namespace Switchboard

/-! ## signals -/

namespace Interpreter

/-- A script that runs handles an event: a frame outside loops does, by its header. -/
def Handles (s : Interpreter) (event : String) : Prop :=
  s.isRunning = true ∧ ∃ image, s.image = some image ∧
    ∃ f ∈ s.frames, f.isLoop = false ∧ ∃ header line,
      image.headerAt? f.header = some header ∧ header.event? event = some line

/-- No frame is found exactly if none outside loops has a handler. -/
theorem dispatched?_eq_none {image : Image} {event : String} {frames : List Frame} :
    dispatched? image event frames = none ↔
      ∀ f ∈ frames, f.isLoop = false → handlerOf? image event f = none := by
  induction frames with
  | nil => simp [dispatched?]
  | cons f below ih =>
      unfold dispatched?
      cases hl : f.isLoop with
      | true => simp [hl, ih]
      | false => cases hh : handlerOf? image event f <;> simp [hl, hh, ih]

/-- A header has a handler for an event, and the frame goes there. -/
theorem handlerOf?_eq_some {image : Image} {event : String} {f : Frame} {line : Nat} :
    handlerOf? image event f = some line ↔
      ∃ header, image.headerAt? f.header = some header ∧ header.event? event = some line :=
  Option.bind_eq_some_iff

/-- An event is refused exactly if the script does not handle it. -/
theorem trigger_refused {s : Interpreter} {event : String} :
    (s.trigger event).2 = false ↔ ¬ s.Handles event := by
  unfold trigger Handles
  cases hrun : s.isRunning with
  | false => simp
  | true =>
      cases himage : s.image with
      | none => simp
      | some image =>
          simp only [Option.bind_some, if_true, true_and, Option.some.injEq, exists_eq_left']
          cases hd : dispatched? image event s.frames with
          | none =>
              have hnone := dispatched?_eq_none.mp hd
              refine iff_of_true rfl ?_
              rintro ⟨f, hf, hl, header, line, hh, he⟩
              have hline := handlerOf?_eq_some.mpr ⟨header, hh, he⟩
              exact nomatch (hnone f hf hl).symm.trans hline
          | some frames =>
              refine iff_of_false Bool.true_eq_false.mp fun hno => ?_
              obtain ⟨f, below, line, hsuffix, hl, hh, -⟩ := dispatched?_spec hd
              obtain ⟨header, hheader, hevent⟩ := handlerOf?_eq_some.mp hh
              have hf : f ∈ s.frames := hsuffix.subset List.mem_cons_self
              exact hno ⟨f, hf, hl, header, line, hheader, hevent⟩

/-- The search for a handler that does not find one leaves the script as it was. -/
theorem trigger_of_refused {s : Interpreter} {event : String}
    (h : (s.trigger event).2 = false) : (s.trigger event).1 = s := by
  unfold trigger at h ⊢
  split
  · next hrun =>
      rw [if_pos hrun] at h
      split
      · next hd => simp [hd] at h
      · rfl
  · rfl

end Interpreter

/-! ## events -/

/-- A slot takes an event. -/
def Slot.Takes {σ : Type} (s : Slot σ) : Event → Prop
  | .enable => s.state = .offline
  | .disable => s.state ≠ .offline
  | .timeout | .drop | .hangup => s.isBusy = true
  | .release => s.state = .releasing
  | .shutdown => True
  | .signal name => s.state = .scripting ∧ s.interpreter.Handles name

namespace Station

variable {σ : Type} {x : Station σ} {o : Office σ} {e : Event}

/-- An event that a slot takes is not rejected. -/
theorem post_of_takes (h : x.slot.Takes e) : (x.post o e).2 ≠ .rejected := by
  unfold post
  cases hs : x.slot.state with
  | offline => cases e <;> simp_all [Slot.Takes, Slot.isBusy, postOffline]
  | idle => cases e <;> simp_all [Slot.Takes, Slot.isBusy, postIdle]
  | releasing => cases e <;> simp_all [Slot.Takes, Slot.isBusy, postReleasing]
  | scripting =>
      cases e with
      | signal name =>
          have htaken : (x.slot.interpreter.trigger name).2 = true := by
            simpa using mt Interpreter.trigger_refused.mp (not_not_intro h.2)
          simp [postScripting, htaken]
      | timeout | drop | hangup | disable | shutdown => simp [postScripting]
      | enable | release => simp [Slot.Takes, hs] at h

/-- An event that it does not take is rejected, and changes neither the slot nor the
books. -/
theorem post_of_not_takes (h : ¬ x.slot.Takes e) : x.post o e = (x, .rejected) := by
  unfold post
  cases hs : x.slot.state with
  | offline => cases e <;> simp_all [Slot.Takes, Slot.isBusy, postOffline]
  | idle => cases e <;> simp_all [Slot.Takes, Slot.isBusy, postIdle]
  | releasing => cases e <;> simp_all [Slot.Takes, Slot.isBusy, postReleasing]
  | scripting =>
      cases e with
      | signal name =>
          have hrefused : (x.slot.interpreter.trigger name).2 = false :=
            Interpreter.trigger_refused.mpr fun hhandles => h ⟨hs, hhandles⟩
          simp [postScripting, hrefused]
      | timeout | drop | hangup | disable | shutdown => simp [Slot.Takes, Slot.isBusy, hs] at h
      | enable | release => rfl

/-- A free slot gives other reasons for not taking a call. -/
theorem allocate_of_idle (hidle : x.slot.state = .idle) (o : Office σ) (setup : CallSetup)
    {id : SlotId} {event : String} {state : SlotState} :
    (x.allocate o setup).2 ≠ .error (.rejected id event state) := by
  intro h
  simp only [allocate, accept, hidle, bne_self_eq_false, Bool.false_eq_true, if_false] at h
  cases hfound : (x.slot.interpreter.attach o.scripts.image
      (some (setup.script.getD o.entry))).2 with
  | false => simp [hfound] at h
  | true =>
      simp only [hfound, Bool.not_true, Bool.false_eq_true, if_false] at h
      split at h
      · next hanswer => split at hanswer <;> simp_all
      · next hanswer => split at hanswer <;> simp_all

/-- A slot that is not free rejects a call, and nothing changes. -/
theorem allocate_of_not_idle (hbusy : x.slot.state ≠ .idle) (o : Office σ) (setup : CallSetup) :
    x.allocate o setup = (x, .error (.rejected x.slot.id "allocate" x.slot.state)) := by
  simp [allocate, accept, hbusy]

/-- An event that frees a slot ends its call, and no other call has begun. -/
theorem slot_of_released {r : Release} (hs : x.slot.state = .releasing)
    (h : (x.post o e).2 = .released r) :
    (x.post o e).1.slot.call = none ∧ (x.post o e).1.slot.sequence = x.slot.sequence := by
  unfold post at h ⊢
  simp only [hs] at h ⊢
  cases e with
  | release | timeout => simp [postReleasing, slot_finish]
  | enable | disable | drop | hangup | shutdown | signal => simp [postReleasing] at h

end Station

/-! ## calls that are over -/

/-- A slot does not carry its call of number `n` any more, and never will: what it
carries is a later call. -/
structure Slot.Behind {σ : Type} (n : Nat) (s : Slot σ) : Prop where
  counted : n ≤ s.sequence
  later : ∀ c, s.call = some c → c.sequence = s.sequence ∧ n < c.sequence

/-- Whatever is told of a slot, it does not go back. -/
theorem Slot.Tale.behind {σ : Type} {s t : Slot σ} {e : Option Event} {rs : List CallRecord}
    {n : Nat} (h : s.Tale e rs t) (hs : s.Behind n) : t.Behind n := by
  obtain ⟨hcounted, hlater⟩ := hs
  cases h with
  | served h =>
      cases h with
      | quiet hcall hsame hle =>
          refine ⟨Nat.le_trans hcounted hle, fun c hc => ?_⟩
          have hbefore : s.call = some c := hcall ▸ hc
          have hsequence := (hsame (by rw [hbefore]; rfl)).2
          rw [hsequence]
          exact hlater c hbefore
      | ended c reason ms _ hnone hle _ =>
          exact ⟨Nat.le_trans hcounted hle, fun d hd => nomatch hnone.symm.trans hd⟩
  | closing reason _ _ hcall hsequence =>
      refine ⟨hsequence ▸ hcounted, fun d hd => ?_⟩
      obtain ⟨c, hc, rfl⟩ := Option.map_eq_some_iff.mp (hcall.symm.trans hd)
      rw [hsequence]
      exact hlater c hc
  | begun c _ hcall hnumber hlt =>
      refine ⟨by omega, fun d hd => ?_⟩
      obtain rfl := Option.some.inj (hcall.symm.trans hd)
      exact ⟨hnumber, by omega⟩

namespace Exchange

variable {σ α : Type} {x y z : Exchange σ} {id : SlotId} {s : Slot σ}

theorem Reports.tale {f : Exchange σ → Exchange σ × α} {e : Option Event}
    (h : Reports (fun _ s => s.Tale e) f x) (hs : x.slots[id]? = some s) :
    ∃ t e rs, (f x).1.slots[id]? = some t ∧ s.Tale e rs t := by
  obtain ⟨rs, -, htells⟩ := h
  obtain ⟨t, ht, htale⟩ := htells.slot id s hs
  exact ⟨t, e, _, ht, htale⟩

/-- Every act tells a tale of each slot. -/
theorem Lawful.tale (h : x.Lawful) (hact : Act x y) (hs : x.slots[id]? = some s) :
    ∃ t e rs, y.slots[id]? = some t ∧ s.Tale e rs t := by
  have hquiet : ∀ s : Slot σ, s.Tale none [] s := fun s => .served (.refl _ s)
  have hstill : y.slots = x.slots → ∃ t e rs, y.slots[id]? = some t ∧ s.Tale e rs t :=
    fun hslots => ⟨s, none, [], hslots ▸ hs, hquiet s⟩
  cases hact with
  | post other e => exact (reports_post_tale h other e).tale hs
  | expire other now =>
      exact ((reports_expire h other now).everywhere fun s => .served (.refl _ s)).tale hs
  | allocate other setup => exact (reports_allocate h other setup none).tale hs
  | restore other => exact ((reports_restore x other).unchanged hquiet).tale hs
  | take | reserve | reload | newPeriod => exact hstill rfl
  | elsewhere he => exact hstill he.slots

/-- A slot does not go back, whatever is done. -/
theorem Lawful.behind {n : Nat} (h : x.Lawful) (hs : x.slots[id]? = some s) (hb : s.Behind n)
    (hacts : Acts x y) : ∃ t, y.slots[id]? = some t ∧ t.Behind n := by
  refine h.of_acts (P := fun y => ∃ t, y.slots[id]? = some t ∧ t.Behind n) ⟨s, hs, hb⟩
    (fun y z hy hbehind hact => ?_) hacts
  obtain ⟨t, ht, hb⟩ := hbehind
  obtain ⟨u, e, rs, hu, htale⟩ := hy.tale hact ht
  exact ⟨u, hu, htale.behind hb⟩

/-! ## rejections -/

/-- Work that leaves its slot and the books as they are changes nothing. -/
theorem atSlot_eq_self {f : Station σ → Station σ × α} {a : α} (hs : x.slots[id]? = some s)
    (hf : f ⟨s, x.ledger⟩ = (⟨s, x.ledger⟩, a)) : x.atSlot id f = (x, some a) := by
  rw [atSlot_of_getElem? hs, hf]
  dsimp only
  rw [set_of_getElem? hs]

theorem post_of_not_takes {e : Event} (hs : x.slots[id]? = some s) (h : ¬ s.Takes e) :
    x.post id e = (x, .ok .rejected) := by
  unfold post
  rw [atSlot_eq_self hs (Station.post_of_not_takes (x := ⟨s, x.ledger⟩) h)]

/-- An event is rejected exactly by a slot that does not take it. -/
theorem post_rejected {e : Event} :
    (x.post id e).2 = .ok .rejected ↔ ∃ s, x.slots[id]? = some s ∧ ¬ s.Takes e := by
  constructor
  · intro h
    unfold post at h
    cases hs : x.slots[id]? with
    | none => simp [atSlot_of_none hs] at h
    | some s =>
        rw [atSlot_of_getElem? hs] at h
        have hrejected : (Station.post x.office e ⟨s, x.ledger⟩).2 = .rejected := Except.ok.inj h
        exact ⟨s, rfl, fun htakes => Station.post_of_takes htakes hrejected⟩
  · rintro ⟨s, hs, h⟩
    rw [post_of_not_takes hs h]

theorem allocate_of_not_idle (hs : x.slots[id]? = some s) (hid : s.id = id)
    (hbusy : s.state ≠ .idle) (setup : CallSetup) :
    x.allocate id setup = (x, some (.error (.rejected id "allocate" s.state))) := by
  have hwork := Station.allocate_of_not_idle (x := ⟨s, x.ledger⟩) hbusy x.office setup
  rw [show (Station.slot ⟨s, x.ledger⟩).id = id from hid] at hwork
  exact atSlot_eq_self hs hwork

/-- A call is rejected exactly by a slot that is not free. -/
theorem Lawful.allocate_rejected (h : x.Lawful) {setup : CallSetup} {other : SlotId}
    {event : String} {state : SlotState} :
    (x.allocate id setup).2 = some (.error (.rejected other event state)) ↔
      ∃ s, x.slots[id]? = some s ∧ s.state ≠ .idle ∧
        other = id ∧ event = "allocate" ∧ state = s.state := by
  constructor
  · intro hr
    cases hs : x.slots[id]? with
    | none => simp [allocate, atSlot_of_none hs] at hr
    | some s =>
        by_cases hidle : s.state = .idle
        · rw [allocate, atSlot_of_getElem? hs] at hr
          exact absurd (Option.some.inj hr)
            (Station.allocate_of_idle (x := ⟨s, x.ledger⟩) hidle x.office setup)
        · rw [allocate_of_not_idle hs (h.numbered id s hs) hidle] at hr
          simp only [Option.some.injEq, Except.error.injEq, Error.rejected.injEq] at hr
          obtain ⟨rfl, rfl, rfl⟩ := hr
          exact ⟨s, rfl, hidle, rfl, rfl, rfl⟩
  · rintro ⟨s, hs, hbusy, rfl, rfl, rfl⟩
    rw [allocate_of_not_idle hs (h.numbered _ s hs) hbusy]

theorem release_of_not_releasing (hs : x.slots[id]? = some s) (h : s.state ≠ .releasing) :
    x.release id = (x, .error (.rejected id Event.release.text s.state)) := by
  rw [release_eq, post_of_not_takes (e := .release) hs h]
  simp [releaseAnswer, hs]

theorem release_of_releasing (hs : x.slots[id]? = some s) (h : s.state = .releasing) :
    (x.release id).2 = .ok ⟨s.id, s.sequence⟩ := by
  have hpost : (x.post id .release).2 = .ok (.released ⟨s.id, s.sequence⟩) := by
    unfold post
    rw [atSlot_of_getElem? hs]
    simp [Station.post, Station.postReleasing, h]
  rw [release_eq, hpost]
  rfl

/-- A slot refuses to be freed exactly if no call is over on it. -/
theorem release_rejected {other : SlotId} {event : String} {state : SlotState} :
    (x.release id).2 = .error (.rejected other event state) ↔
      ∃ s, x.slots[id]? = some s ∧ s.state ≠ .releasing ∧
        other = id ∧ event = Event.release.text ∧ state = s.state := by
  constructor
  · intro hr
    cases hs : x.slots[id]? with
    | none => simp [release_eq, post, atSlot_of_none hs, releaseAnswer] at hr
    | some s =>
        by_cases hover : s.state = .releasing
        · exact nomatch (release_of_releasing hs hover).symm.trans hr
        · rw [release_of_not_releasing hs hover] at hr
          simp only [Except.error.injEq, Error.rejected.injEq] at hr
          obtain ⟨rfl, rfl, rfl⟩ := hr
          exact ⟨s, rfl, hover, rfl, rfl, rfl⟩
  · rintro ⟨s, hs, hover, rfl, rfl, rfl⟩
    rw [release_of_not_releasing hs hover]

/-! ## calls are freed once -/

/-- A slot that is freed carries nothing, and has the number of the call. -/
theorem behind_of_released {e : Event} {r : Release}
    (h : x.post id e = (y, .ok (.released r))) :
    ∃ t, y.slots[id]? = some t ∧ t.call = none ∧ t.Behind r.sequence := by
  obtain ⟨s, hs, hstate, rfl⟩ := of_released (congrArg Prod.snd h)
  have hlt := (List.getElem?_eq_some_iff.mp hs).1
  unfold post at h
  rw [atSlot_of_getElem? hs] at h
  obtain ⟨rfl, hanswer⟩ := Prod.mk.inj h
  have hfreed := Station.slot_of_released (x := ⟨s, x.ledger⟩) hstate (Except.ok.inj hanswer)
  refine ⟨_, List.getElem?_set_self hlt, hfreed.1, ?_, fun c hc => nomatch hfreed.1.symm.trans hc⟩
  exact Nat.le_of_eq hfreed.2.symm

/-- A slot refuses to be freed, and nothing changes. -/
def RefusesRelease (x : Exchange σ) (id : SlotId) : Prop :=
  ∃ state, x.release id = (x, .error (.rejected id Event.release.text state))

/-- A slot that is past a call does not free it: it refuses, or frees a later call. -/
theorem Lawful.release_of_behind {n : Nat} (h : x.Lawful) (hs : x.slots[id]? = some s)
    (hb : s.Behind n) : x.RefusesRelease id ∨ ∃ s c, x.slots[id]? = some s ∧ s.call = some c ∧
      n < c.sequence ∧ (x.release id).2 = .ok ⟨id, c.sequence⟩ := by
  by_cases hstate : s.state = .releasing
  · obtain ⟨c, hc⟩ := Option.isSome_iff_exists.mp ((h.station hs).law.releasing hstate).1
    obtain ⟨hnumber, hlt⟩ := hb.later c hc
    refine .inr ⟨s, c, hs, hc, hlt, ?_⟩
    rw [release_of_releasing hs hstate, h.numbered id s hs, hnumber]
  · exact .inl ⟨s.state, release_of_not_releasing hs hstate⟩

/-- Rejections, in every exchange that can be reached.  A slot rejects the events that
it does not take, and no others, and then the whole exchange is as it was: all slots
with their scripts, devices and timers, the books, and the orders to devices with
them.  The search for a handler of a signal, however deep the frames are, leaves a
script as it was that has none.  A slot rejects a call exactly if it is not free, and
refuses to be freed exactly if no call is over on it, and nothing changes then either.

Once a slot has been freed of a call, by a release or by its timer, it refuses to be
freed again, and it always will, unless it carries a later call and is freed of that. -/
theorem rejection_changes_nothing (h : Reach x) (id : SlotId) :
    (∀ e, ((x.post id e).2 = .ok .rejected ↔ ∃ s, x.slots[id]? = some s ∧ ¬ s.Takes e) ∧
        ((x.post id e).2 = .ok .rejected → (x.post id e).1 = x)) ∧
      (∀ s ∈ x.slots, ∀ name, (s.interpreter.trigger name).2 = false →
        (s.interpreter.trigger name).1 = s.interpreter) ∧
      (∀ setup other event state,
        ((x.allocate id setup).2 = some (.error (.rejected other event state)) ↔
          ∃ s, x.slots[id]? = some s ∧ s.state ≠ .idle ∧
            other = id ∧ event = "allocate" ∧ state = s.state) ∧
        ((x.allocate id setup).2 = some (.error (.rejected other event state)) →
          (x.allocate id setup).1 = x)) ∧
      (∀ other event state,
        ((x.release id).2 = .error (.rejected other event state) ↔
          ∃ s, x.slots[id]? = some s ∧ s.state ≠ .releasing ∧
            other = id ∧ event = Event.release.text ∧ state = s.state) ∧
        ((x.release id).2 = .error (.rejected other event state) → (x.release id).1 = x)) ∧
      ∀ r y, (x.release id = (y, .ok r) ∨ ∃ e, x.post id e = (y, .ok (.released r))) →
        y.RefusesRelease id ∧
        ∀ z, Acts y z → z.RefusesRelease id ∨ ∃ s c, z.slots[id]? = some s ∧
          s.call = some c ∧ r.sequence < c.sequence ∧
          (z.release id).2 = .ok ⟨id, c.sequence⟩ := by
  have hx := h.lawful
  refine ⟨fun e => ⟨post_rejected, fun hr => ?_⟩, fun s _ name => Interpreter.trigger_of_refused,
    fun setup other event state => ⟨hx.allocate_rejected, fun hr => ?_⟩,
    fun other event state => ⟨release_rejected, fun hr => ?_⟩, fun r y hfreed => ?_⟩
  · obtain ⟨s, hs, hnot⟩ := post_rejected.mp hr
    rw [post_of_not_takes hs hnot]
  · obtain ⟨s, hs, hbusy, -⟩ := hx.allocate_rejected.mp hr
    rw [allocate_of_not_idle hs (hx.numbered id s hs) hbusy]
  · obtain ⟨s, hs, hover, -⟩ := release_rejected.mp hr
    rw [release_of_not_releasing hs hover]
  · have hposted : ∃ e, x.post id e = (y, .ok (.released r)) := by
      refine hfreed.elim (fun hr => ⟨.release, ?_⟩) fun hp => hp
      have hanswer := post_of_release (congrArg Prod.snd hr)
      rw [release_eq, hanswer] at hr
      have hleft : (x.post id .release).1 = y := congrArg Prod.fst hr
      exact Prod.ext hleft hanswer
    obtain ⟨e, hp⟩ := hposted
    obtain ⟨t, ht, hnone, hbehind⟩ := behind_of_released hp
    have hy : y.Lawful := by
      rw [← show (x.post id e).1 = y from congrArg Prod.fst hp]
      exact hx.post id e
    refine ⟨⟨t.state, release_of_not_releasing ht fun hover => ?_⟩, fun z hacts => ?_⟩
    · have hcall := ((hy.station ht).law.releasing hover).1
      rw [show (Station.slot ⟨t, y.ledger⟩).call = none from hnone] at hcall
      exact nomatch hcall
    · obtain ⟨u, hu, hu'⟩ := hy.behind ht hbehind hacts
      exact (hy.acts hacts).release_of_behind hu hu'

/-- In a header that another one has invoked, a script takes the signal that the outer
header handles, and no other.  Its call is dropped and freed; the next one on the slot is
freed under a number of its own. -/
theorem rejection_in_nested_headers : ∃ x : Exchange Unit, Reach x ∧
    ((x.post 0 (.signal "hello")).2, (x.post 0 (.signal "bye")).2) = (.ok .handled, .ok .rejected) ∧
    (x.post 0 (.signal "bye")).1 = x ∧
    (x.allocate 0 Station.trialCall).2 = some (.error (.rejected 0 "allocate" .scripting)) ∧
    (x.allocate 0 Station.trialCall).1 = x ∧
    ∃ y z, x.performAll [.post 0 .drop, .release 0] = y ∧ y.RefusesRelease 0 ∧
      y.performAll [.allocate 0 Station.trialCall, .post 0 .drop] = z ∧
      (z.release 0).2 = .ok ⟨0, 2⟩ ∧ ¬ z.RefusesRelease 0 := by
  let script := "@main\n  invoke sub\n  exit\n^hello\n  sleep 60\n  exit\n" ++
    "@sub\n  sleep 60\n  return\n"
  let start : Exchange Unit → Exchange Unit := fun x =>
    x.performAll [.allocate 0 Station.trialCall]
  let dropped : Exchange Unit → Exchange Unit := fun x => ((start x).post 0 .drop).1
  let next : Exchange Unit → Exchange Unit := fun x =>
    ((dropped x).release 0).1.performAll [.allocate 0 Station.trialCall, .post 0 .drop]
  have hrun : (build trialConfig (trialPlan script)).toOption.map (fun x =>
      (((start x).post 0 (.signal "hello")).2.toOption,
        ((start x).post 0 (.signal "bye")).2.toOption, ((start x).slots[0]?).map (·.state),
        ((dropped x).release 0).2.toOption, ((next x).release 0).2.toOption)) =
      some (some .handled, some .rejected, some .scripting, some ⟨0, 1⟩, some ⟨0, 2⟩) := by
    decide +kernel
  obtain ⟨x, hbuild, hobserved⟩ := exists_build hrun
  have hok : ∀ {α : Type} {answer : Except Error α} {a : α}, answer.toOption = some a →
      answer = .ok a := by
    intro α answer a h
    cases answer with
    | error e => exact nomatch h
    | ok b => exact congrArg Except.ok (Option.some.inj h)
  simp only [Prod.mk.injEq] at hobserved
  obtain ⟨hhello, hbye, hstate, hfirst, hsecond⟩ := hobserved
  obtain ⟨s, hs, hscripting⟩ := Option.map_eq_some_iff.mp hstate
  have hstart : Reach (start x) := (Reach.build hbuild).performAll _
  have hdropped : Reach (dropped x) := hstart.perform (.post 0 .drop)
  obtain ⟨hpost, -, hallocate, -⟩ := rejection_changes_nothing hstart 0
  obtain ⟨-, -, -, -, hfreed⟩ := rejection_changes_nothing hdropped 0
  obtain ⟨hrefuses, -⟩ := hfreed ⟨0, 1⟩ _ (.inl (Prod.ext rfl (hok hfirst)))
  have hbusy := (hallocate Station.trialCall 0 "allocate" .scripting).1.mpr
    ⟨s, hs, by simp [hscripting], rfl, rfl, hscripting.symm⟩
  refine ⟨start x, hstart, Prod.ext (hok hhello) (hok hbye),
    (hpost (.signal "bye")).2 (hok hbye), hbusy,
    (hallocate Station.trialCall 0 "allocate" .scripting).2 hbusy, _, _, rfl, hrefuses, rfl,
    hok hsecond, fun hrefused => ?_⟩
  obtain ⟨state, hrefused⟩ := hrefused
  exact nomatch (hok hsecond).symm.trans (congrArg Prod.snd hrefused)

end Exchange

end Switchboard
