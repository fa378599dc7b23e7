import Switchboard.Proofs.Exchange.Round
import Switchboard.Proofs.Exchange.Shutdown
import Switchboard.Proofs.Segment.Members

/-!
# Switchboard.Proofs.Exchange.SegmentService

Segments that are taken out of service and brought back.

1. The slots of a segment exist, and an event goes round them from the lowest on
   (`Reach.orderly`, `Reach.slot_postSegment`).
2. It is answered by the first slot that does not take it, if there is one: the
   others are told nevertheless (`answer_postEach`).
3. A slot that loses its call hands in the stop of that call, and no slot hands in
   anything else (`Slot.Tale.stopped`).
4. Whatever its slots are doing, a segment is out of service afterwards, or has no
   slot that is, and other slots do not notice (`segment_service`).
-/

namespace Switchboard

/-! ## slots that are taken out of service, or brought back -/

namespace Slot

variable {σ : Type} {s t : Slot σ} {e : Option Event} {rs : List CallRecord}

/-- What a slot hands in when it loses its call, if it carries one: the stop of that
call, for the reason that it was over for, or by the event. -/
def Stopped (e : Event) (s : Slot σ) (rs : List CallRecord) : Prop :=
  match s.call with
  | none => rs = []
  | some c => ∃ reason ms, rs = [Call.stopRecord s.id ms { c with reason }] ∧
      (s.state = .releasing ∧ reason = c.reason ∨ s.state = .scripting ∧ reason = e.name)

/-- A slot that carries no call in the end, and is not to be free, has lost its call. -/
theorem Tale.stopped {e : Event} (h : s.Tale (some e) rs t) (hcall : t.call = none)
    (hstate : t.state ≠ .releasing) : s.Stopped e rs := by
  unfold Stopped
  cases h with
  | served h =>
      cases h with
      | quiet hsame _ _ =>
          rw [← hsame, hcall]
      | ended c reason ms hc _ _ hreason =>
          rw [hc]
          refine ⟨reason, ms, rfl, hreason.imp_right fun hevent => ⟨hevent.1, ?_⟩⟩
          exact (Option.some.inj hevent.2).symm
  | closing _ _ hover _ _ => exact absurd hover hstate
  | begun c _ hc _ _ => exact nomatch hcall.symm.trans hc

/-- A slot that stays as it is hands in nothing. -/
theorem Tale.eq_nil (h : s.Tale e rs s) : rs = [] := by
  cases h with
  | served h =>
      cases h with
      | quiet => rfl
      | ended c _ _ hc hnone _ _ => exact nomatch hnone.symm.trans hc
  | closing _ hscripting hover _ _ => exact nomatch hscripting.symm.trans hover
  | begun c hnone hc _ _ => exact nomatch hnone.symm.trans hc

end Slot

namespace Work

variable {σ : Type} (o : Office σ) {s : Slot σ}

/-- Whatever a slot does, it is out of service when it has been disabled. -/
theorem state_post_disable (s : Slot σ) : (post o .disable s).1.slot.state = .offline := by
  unfold post
  cases hstate : s.state with
  | offline => exact hstate
  | idle => rfl
  | scripting => simp [postScripting, Work.and, slot_finish]
  | releasing => simp [postReleasing, slot_finish]

theorem slot_post_enable (hstate : s.state = .offline) :
    (post o .enable s).1.slot = { s with state := .idle } := by
  unfold post
  rw [hstate]
  rfl

end Work

namespace Exchange

variable {σ : Type} {x y : Exchange σ} {id : SlotId} {kind : SegmentKind} {name : String}
  {s : Segment} {e : Event} {ids : List SlotId}

/-! ## the slots of a segment -/

/-- The slots of every segment are in increasing order, and all exist. -/
theorem Reach.orderly (h : Reach x) (hs : x.ledger.segments.find? kind name = some s) :
    Orderly x.slotCount s.slots := by
  have hall : x.Lawful ∧ ∀ s ∈ x.ledger.segments.layout, Orderly x.slotCount s.slots := by
    refine h.of_acts (P := fun x => x.Lawful ∧
      ∀ s ∈ x.ledger.segments.layout, Orderly x.slotCount s.slots)
      (fun c p segments scripts hc hsegments => ⟨.unstarted c p segments scripts, ?_⟩)
      fun x y hx hact => ⟨hx.1.act hact, ?_⟩
    · intro t ht
      obtain ⟨s, hs, rfl⟩ := List.mem_map.mp ht
      have hcount : (unstarted c p segments scripts).slotCount = segments.slotCount := by
        simp [unstarted, slotCount]
      rw [hcount]
      exact Segments.orderly_of_ofConfig hc hsegments s hs
    · rw [hx.1.layout (.single hact), slotCount_of_act hact]
      exact hx.2
  exact hall.2 s.blank (List.mem_map_of_mem (List.mem_of_find?_eq_some hs))

theorem exists_slot (hid : id < x.slotCount) : ∃ t, x.slots[id]? = some t :=
  ⟨_, List.getElem?_eq_getElem hid⟩

/-! ## answers -/

/-- A slot takes an event. -/
def TakesAt (x : Exchange σ) (e : Event) (id : SlotId) : Prop :=
  ∃ s, x.slots[id]? = some s ∧ s.Takes e

theorem postEach_cons (e : Event) (id : SlotId) (ids : List SlotId) (x : Exchange σ)
    (refused : Option Error) : postEach e (id :: ids) (x, refused) =
      postEach e ids ((x.post id e).1, refusalAfter id e refused (x.post id e).2 (x.post id e).1) :=
  rfl

/-- The first refusal is kept. -/
theorem postEach_of_refused (e : Event) (ids : List SlotId) (x : Exchange σ) (error : Error) :
    (postEach e ids (x, some error)).2 = some error := by
  induction ids generalizing x with
  | nil => rfl
  | cons id rest ih =>
      rw [postEach_cons]
      exact ih _

/-- A slot that takes an event leaves it at that. -/
theorem refusalAfter_of_takes {t : Slot σ} (ht : x.slots[id]? = some t) (htakes : t.Takes e) :
    refusalAfter id e none (x.post id e).2 (x.post id e).1 = none := by
  have hanswer : (x.post id e).2 ≠ .ok .rejected := by
    intro hr
    obtain ⟨u, hu, hnot⟩ := post_rejected.mp hr
    obtain rfl := Option.some.inj (ht.symm.trans hu)
    exact hnot htakes
  unfold refusalAfter
  split
  · next hr => exact absurd hr hanswer
  · rfl

/-- A slot that does not take it answers with its state. -/
theorem refusalAfter_of_not_takes {t : Slot σ} (ht : x.slots[id]? = some t)
    (hnot : ¬ t.Takes e) : refusalAfter id e none (x.post id e).2 (x.post id e).1 =
      some (.rejected id e.text t.state) := by
  rw [post_of_not_takes ht hnot]
  simp [refusalAfter, ht]

/-- Among slots in increasing order, the lowest that does not take an event answers. -/
theorem answer_postEach (hids : ids.Pairwise (· < ·)) (hknown : ∀ id ∈ ids, id < x.slotCount) :
    ((postEach e ids (x, none)).2 = none ∧ ∀ id ∈ ids, x.TakesAt e id) ∨
      ∃ id ∈ ids, ∃ s, x.slots[id]? = some s ∧ ¬ s.Takes e ∧
        (∀ j ∈ ids, j < id → x.TakesAt e j) ∧
        (postEach e ids (x, none)).2 = some (.rejected id e.text s.state) := by
  induction ids generalizing x with
  | nil => exact .inl ⟨rfl, by simp⟩
  | cons id rest ih =>
      obtain ⟨hfirst, hrest⟩ := List.pairwise_cons.mp hids
      obtain ⟨hid, hlater⟩ := List.forall_mem_cons.mp hknown
      obtain ⟨s, hs⟩ := exists_slot hid
      rw [postEach_cons]
      by_cases htakes : s.Takes e
      · have hother : ∀ j ∈ rest, (x.post id e).1.slots[j]? = x.slots[j]? := by
          intro j hj
          rw [post_eq_atSlot]
          exact getElem?_atSlot_ne (Nat.ne_of_gt (hfirst j hj)) _
        have hcount : (x.post id e).1.slotCount = x.slotCount := slotCount_of_act (.post x id e)
        have htakesAt : ∀ j ∈ rest, (x.post id e).1.TakesAt e j ↔ x.TakesAt e j := by
          intro j hj
          unfold TakesAt
          rw [hother j hj]
        rw [refusalAfter_of_takes hs htakes]
        rcases ih hrest fun j hj => hcount ▸ hlater j hj with
          ⟨hnone, hall⟩ | ⟨j, hj, t, ht, hnot, hbelow, hanswer⟩
        · refine .inl ⟨hnone, List.forall_mem_cons.mpr ⟨⟨s, hs, htakes⟩, fun j hj => ?_⟩⟩
          exact (htakesAt j hj).mp (hall j hj)
        · refine .inr ⟨j, List.mem_cons_of_mem id hj, t, (hother j hj).symm.trans ht, hnot,
            List.forall_mem_cons.mpr ⟨fun _ => ⟨s, hs, htakes⟩, fun k hk hlt => ?_⟩, hanswer⟩
          exact (htakesAt k hk).mp (hbelow k hk hlt)
      · refine .inr ⟨id, List.mem_cons_self, s, hs, htakes, ?_, ?_⟩
        · refine List.forall_mem_cons.mpr ⟨fun hlt => absurd hlt (Nat.lt_irrefl id), ?_⟩
          exact fun j hj hlt => absurd hlt (Nat.lt_asymm (hfirst j hj))
        · rw [refusalAfter_of_not_takes hs htakes]
          exact postEach_of_refused e rest _ _

/-- What comes of an event for a segment is what comes of it for its slots. -/
theorem postSegment_answer (hs : x.ledger.segments.find? kind name = some s) :
    (x.postSegment kind name e).2 = (match (postEach e s.slots (x, none)).2 with
      | none => .ok ()
      | some error => .error error) := by
  rw [postSegment_of_some e hs]
  cases (postEach e s.slots (x, none)).2 <;> rfl

/-- All slots of a segment take an event, or the lowest that does not is named. -/
theorem Reach.answer_postSegment (h : Reach x)
    (hs : x.ledger.segments.find? kind name = some s) (e : Event) :
    ((x.postSegment kind name e).2 = .ok () ↔ ∀ id ∈ s.slots, x.TakesAt e id) ∧
      ∀ error, (x.postSegment kind name e).2 = .error error →
        ∃ id ∈ s.slots, ∃ t, x.slots[id]? = some t ∧ ¬ t.Takes e ∧
          (∀ j ∈ s.slots, j < id → x.TakesAt e j) ∧ error = .rejected id e.text t.state := by
  obtain ⟨hrising, hbelow⟩ := h.orderly hs
  rw [postSegment_answer hs]
  rcases answer_postEach (e := e) hrising hbelow with
    ⟨hnone, hall⟩ | ⟨id, hid, t, ht, hnot, hlower, hanswer⟩
  · rw [hnone]
    exact ⟨iff_of_true rfl hall, fun _ herror => nomatch herror⟩
  · rw [hanswer]
    refine ⟨iff_of_false (fun hok => nomatch hok) fun hall => ?_, fun error herror => ?_⟩
    · obtain ⟨u, hu, htakes⟩ := hall id hid
      obtain rfl := Option.some.inj (ht.symm.trans hu)
      exact hnot htakes
    · exact ⟨id, hid, t, ht, hnot, hlower, (Except.error.inj herror).symm⟩

/-! ## what becomes of the slots -/

/-- That an event for a segment was refused is no more than a message. -/
theorem alone_postSegment_round (hs : x.ledger.segments.find? kind name = some s) (e : Event)
    (id : SlotId) :
    Alone id (x.round (Station.post x.office e) s.slots) (x.postSegment kind name e).1 := by
  rw [postSegment_of_some e hs, ← round_postEach e s.slots x none]
  unfold segmentAnswer
  cases (postEach e s.slots (x, none)).2 <;> exact ⟨rfl, .rfl, .rfl⟩

/-- Each slot of a segment becomes what the event makes of it as it was. -/
theorem Reach.slot_postSegment (h : Reach x) (hs : x.ledger.segments.find? kind name = some s)
    (hid : id ∈ s.slots) {t : Slot σ} (ht : x.slots[id]? = some t) (e : Event) :
    (x.postSegment kind name e).1.slots[id]? = some (Work.post x.office e t).1.slot := by
  rw [(alone_postSegment_round hs e id).slot]
  exact slot_round (Station.Answers.post x.office e) (h.orderly hs).nodup hid ht

/-- Slots that are not in the segment are left alone. -/
theorem Reach.alone_postSegment (h : Reach x) (hs : x.ledger.segments.find? kind name = some s)
    (hid : id ∉ s.slots) (e : Event) : Alone id x (x.postSegment kind name e).1 :=
  (h.lawful.alone_round (.post x.office e) hid).trans (alone_postSegment_round hs e id)

/-- So are slots that do not take the event. -/
theorem Reach.alone_postSegment_of_not_takes (h : Reach x)
    (hs : x.ledger.segments.find? kind name = some s) {t : Slot σ} (ht : x.slots[id]? = some t)
    (hnot : ¬ t.Takes e) : Alone id x (x.postSegment kind name e).1 := by
  have hround := h.lawful.alone_round_of_rest (.post x.office e) (h.orderly hs).nodup ht
    fun l => ⟨_, Station.post_of_not_takes (x := ⟨t, l⟩) hnot⟩
  exact hround.trans (alone_postSegment_round hs e id)

/-- A slot that is brought back into service is listed as free. -/
theorem Reach.lists_resume (h : Reach x) (hs : x.ledger.segments.find? kind name = some s)
    (hid : id ∈ s.slots) {t : Slot σ} (ht : x.slots[id]? = some t) (hstate : t.state = .offline) :
    (x.resume kind name).1.ledger.Lists id := by
  obtain ⟨y, hy, hbefore, hafter⟩ :=
    h.lawful.turn (.post x.office .enable) (h.orderly hs).nodup hid
  have hyt : y.slots[id]? = some t := hbefore.slot.trans ht
  have hlisted : (y.atSlot id (Station.post x.office .enable)).1.ledger.Lists id := by
    rw [atSlot_of_getElem? hyt, show id = t.id from (hy.numbered id t hyt).symm]
    simp only [Station.post, hstate]
    exact IdlePool.mem_insert.mpr (.inr rfl)
  exact (alone_postSegment_round hs .enable id).listed.mpr (hafter.listed.mpr hlisted)

/-! ## out of service and back -/

/-- A segment is taken out of service. -/
structure Suspends (x : Exchange σ) (kind : SegmentKind) (name : String) (s : Segment) :
    Prop where
  /-- Its slots are out of service then and carry nothing, and the stops of their calls
  have been handed in. -/
  member : ∀ id ∈ s.slots, ∃ t u, x.slots[id]? = some t ∧
    (x.suspend kind name).1.slots[id]? = some u ∧ u.state = .offline ∧ u.Vacant ∧
    ¬ (x.suspend kind name).1.ledger.Lists id ∧ ¬ (x.suspend kind name).1.ledger.Reserves id ∧
    t.Stopped .disable ((x.handedIn (.suspend kind name)).filter (·.slot == id))
  /-- Other slots do not notice. -/
  other : ∀ id ∉ s.slots, Alone id x (x.suspend kind name).1 ∧
    (x.handedIn (.suspend kind name)).filter (·.slot == id) = []
  ok : (x.suspend kind name).2 = .ok () ↔ ∀ id ∈ s.slots, x.state? id ≠ some .offline
  /-- The lowest slot that was out of service is named. -/
  refused : ∀ error, (x.suspend kind name).2 = .error error →
    ∃ id ∈ s.slots, x.state? id = some .offline ∧
      (∀ j ∈ s.slots, x.state? j = some .offline → id ≤ j) ∧
      error = .rejected id Event.disable.text .offline

/-- A segment is brought back into service. -/
structure Resumes (x : Exchange σ) (kind : SegmentKind) (name : String) (s : Segment) :
    Prop where
  /-- Its slots that were out of service are free then, and listed. -/
  member : ∀ id ∈ s.slots, ∃ t, x.slots[id]? = some t ∧
    (t.state = .offline → (x.resume kind name).1.slots[id]? = some { t with state := .idle } ∧
      (x.resume kind name).1.ledger.Lists id) ∧
    (t.state ≠ .offline → Alone id x (x.resume kind name).1)
  /-- Other slots do not notice. -/
  other : ∀ id ∉ s.slots, Alone id x (x.resume kind name).1
  /-- Nothing is handed in. -/
  quiet : x.handedIn (.resume kind name) = []
  ok : (x.resume kind name).2 = .ok () ↔ ∀ id ∈ s.slots, x.state? id = some .offline
  /-- The lowest slot that was in service is named. -/
  refused : ∀ error, (x.resume kind name).2 = .error error →
    ∃ id ∈ s.slots, ∃ state, x.state? id = some state ∧ state ≠ .offline ∧
      (∀ j ∈ s.slots, x.state? j ≠ some .offline → id ≤ j) ∧
      error = .rejected id Event.enable.text state

theorem takesAt_disable (hid : id < x.slotCount) :
    x.TakesAt .disable id ↔ x.state? id ≠ some .offline := by
  obtain ⟨t, ht⟩ := exists_slot hid
  simp [TakesAt, state?, ht, Slot.Takes]

theorem takesAt_enable : x.TakesAt .enable id ↔ x.state? id = some .offline := by
  simp [TakesAt, state?, Slot.Takes]

/-- A slot that is left alone hands in nothing. -/
theorem Tells.eq_nil_of_alone {rs : List CallRecord} {a : Option Event}
    (h : Tells (fun _ s => s.Tale a) x rs y) (halone : Alone id x y) :
    rs.filter (·.slot == id) = [] := by
  cases ht : x.slots[id]? with
  | none =>
      refine List.filter_eq_nil_iff.mpr fun r hr hslot => ?_
      have hlt := h.known r hr
      rw [beq_iff_eq.mp hslot] at hlt
      exact absurd ht (by simp [hlt])
  | some t =>
      obtain ⟨u, hu, htale⟩ := h.slot id t ht
      obtain rfl := Option.some.inj (hu.symm.trans (halone.slot.trans ht))
      exact htale.eq_nil

namespace Recorded

variable {rs : List CallRecord}

theorem suspends (h : Recorded rs x) (hs : x.ledger.segments.find? kind name = some s) :
    x.Suspends kind name s := by
  have hreach := h.reach
  have horderly := hreach.orderly hs
  have hy : (x.suspend kind name).1.Lawful := (hreach.perform (.suspend kind name)).lawful
  obtain ⟨-, htells⟩ := hreach.lawful.handedIn h.blank (.suspend kind name)
  obtain ⟨hok, herror⟩ := hreach.answer_postSegment hs .disable
  refine ⟨fun id hid => ?_, fun id hid => ?_, hok.trans ?_, fun error hr => ?_⟩
  · obtain ⟨t, ht⟩ := exists_slot (horderly.below id hid)
    have hu := hreach.slot_postSegment hs hid ht .disable
    have hstate := Work.state_post_disable x.office t
    obtain ⟨hvacant, hlisted, hreserved⟩ := (hy.station hu).law.offline hstate
    have hnumber := hy.numbered id _ hu
    obtain ⟨v, hv, htale⟩ := htells.slot id t ht
    obtain rfl := Option.some.inj (hu.symm.trans hv)
    rw [show (Station.slot ⟨_, (x.suspend kind name).1.ledger⟩).id = id from hnumber]
      at hlisted hreserved
    have hstopped := htale.stopped hvacant.call (by rw [hstate]; decide)
    exact ⟨_, _, ht, hu, hstate, hvacant, hlisted, hreserved, hstopped⟩
  · have halone := hreach.alone_postSegment hs hid .disable
    exact ⟨halone, htells.eq_nil_of_alone halone⟩
  · exact forall₂_congr fun id hid => takesAt_disable (horderly.below id hid)
  · obtain ⟨id, hid, t, ht, hnot, hlower, rfl⟩ := herror error hr
    have hstate : t.state = .offline := not_not.mp hnot
    refine ⟨id, hid, ?_, fun j hj hoffline => Nat.le_of_not_lt fun hlt => ?_, by rw [hstate]⟩
    · simp [state?, ht, hstate]
    · exact (takesAt_disable (horderly.below j hj)).mp (hlower j hj hlt) hoffline

theorem resumes (h : Recorded rs x) (hs : x.ledger.segments.find? kind name = some s) :
    x.Resumes kind name s := by
  have hreach := h.reach
  have horderly := hreach.orderly hs
  have hx := hreach.lawful
  obtain ⟨-, htells⟩ := hx.handedIn h.blank (.resume kind name)
  obtain ⟨hok, herror⟩ := hreach.answer_postSegment hs .enable
  have hback : ∀ id ∈ s.slots, ∀ t, x.slots[id]? = some t → t.state = .offline →
      (x.resume kind name).1.slots[id]? = some { t with state := .idle } := by
    intro id hid t ht hstate
    have hu := hreach.slot_postSegment hs hid ht .enable
    rwa [Work.slot_post_enable x.office hstate] at hu
  have hstill : ∀ id t, x.slots[id]? = some t → t.state ≠ .offline →
      Alone id x (x.resume kind name).1 :=
    fun id t ht hstate => hreach.alone_postSegment_of_not_takes hs ht hstate
  refine ⟨fun id hid => ?_, fun id hid => ?_, ?_, hok.trans ?_, fun error hr => ?_⟩
  · obtain ⟨t, ht⟩ := exists_slot (horderly.below id hid)
    exact ⟨t, ht, fun hstate =>
      ⟨hback id hid t ht hstate, hreach.lists_resume hs hid ht hstate⟩, hstill id t ht⟩
  · exact hreach.alone_postSegment hs hid .enable
  · refine List.eq_nil_iff_forall_not_mem.mpr fun r hr => ?_
    have hown : r ∈ (x.handedIn (.resume kind name)).filter (·.slot == r.slot) :=
      List.mem_filter.mpr ⟨hr, beq_self_eq_true _⟩
    obtain ⟨t, ht⟩ := exists_slot (htells.known r hr)
    have hnothing : (x.handedIn (.resume kind name)).filter (·.slot == r.slot) = [] := by
      by_cases hwaits : r.slot ∈ s.slots ∧ t.state = .offline
      · -- A slot that comes back into service carried no call.
        obtain ⟨hid, hstate⟩ := hwaits
        have hu := hback r.slot hid t ht hstate
        obtain ⟨v, hv, htale⟩ := htells.slot r.slot t ht
        obtain rfl := Option.some.inj (hu.symm.trans hv)
        have hcall : t.call = none := ((hx.station ht).law.offline hstate).1.call
        have hstopped := htale.stopped hcall (fun hreleasing => nomatch hreleasing)
        rw [Slot.Stopped, hcall] at hstopped
        exact hstopped
      · refine htells.eq_nil_of_alone ?_
        by_cases hid : r.slot ∈ s.slots
        · exact hstill r.slot t ht fun hstate => hwaits ⟨hid, hstate⟩
        · exact hreach.alone_postSegment hs hid .enable
    rw [hnothing] at hown
    exact nomatch hown
  · exact forall₂_congr fun _ _ => takesAt_enable
  · obtain ⟨id, hid, t, ht, hnot, hlower, rfl⟩ := herror error hr
    refine ⟨id, hid, t.state, by simp [state?, ht], hnot, fun j hj hstate => ?_, rfl⟩
    exact Nat.le_of_not_lt fun hlt => hstate (takesAt_enable.mp (hlower j hj hlt))

end Recorded

/-- In every exchange that can be reached, a segment can be taken out of service and be
brought back, whatever its slots are doing.  Taken out, each of its slots is out of
service, carries nothing and is on no list, and if it carried a call the stop of that
call was handed in; brought back, none of its slots is out of service, and those that
were in service are as they were.  All slots that are not in the segment are left
alone, with their calls, scripts and places on the lists.  The answer tells whether all
slots of the segment were in service, or out of it, and else names the lowest that was
not. -/
theorem segment_service {rs : List CallRecord} (h : Recorded rs x)
    (hs : x.ledger.segments.find? kind name = some s) :
    x.Suspends kind name s ∧ x.Resumes kind name s := ⟨h.suspends hs, h.resumes hs⟩

/-- A group of three slots: one is out of service, on one a script runs, and one is to be
free.  A fourth slot carries a call and is not in the group. -/
theorem segment_service_in_each_state : ∃ (x : Exchange Unit) (rs : List CallRecord)
    (s : Segment), Recorded rs x ∧
    x.slots.map (·.state) = [.offline, .scripting, .releasing, .scripting] ∧
    x.ledger.segments.find? .group "group" = some s ∧ s.slots = [0, 1, 2] ∧
    (x.suspend .group "group").1.slots.map (·.state) =
      [.offline, .offline, .offline, .scripting] ∧
    (x.handedIn (.suspend .group "group")).map (fun r => (r.slot, r.reason)) =
      [(1, "disable"), (2, "drop")] ∧
    x.Suspends .group "group" s ∧ x.Resumes .group "group" s := by
  let config : Config :=
    { Config.default with
      boards := [⟨"board", [⟨"left", 2⟩, ⟨"right", 2⟩],
        [⟨"group", ["left"], [2], none, none⟩], []⟩] }
  let ops : List Operation :=
    [.post 0 .disable, .allocate 1 Station.trialCall, .allocate 2 Station.trialCall,
      .allocate 3 Station.trialCall, .post 2 .drop]
  have hrun : (build config (trialPlan "@main\n  sleep 60\n  exit\n")).toOption.map (fun x =>
      ((x.performAll ops).slots.map (·.state),
        ((x.performAll ops).ledger.segments.find? .group "group").map (·.slots),
        ((x.performAll ops).suspend .group "group").1.slots.map (·.state),
        ((x.performAll ops).handedIn (.suspend .group "group")).map
          fun r => (r.slot, r.reason))) =
      some ([.offline, .scripting, .releasing, .scripting], some [0, 1, 2],
        [.offline, .offline, .offline, .scripting], [(1, "disable"), (2, "drop")]) := by
    decide +kernel
  obtain ⟨x, hbuild, hobserved⟩ := exists_build hrun
  simp only [Prod.mk.injEq] at hobserved
  obtain ⟨hstates, hfound, hsuspended, hrecords⟩ := hobserved
  obtain ⟨s, hs, hslots⟩ := Option.map_eq_some_iff.mp hfound
  have hrecorded := (Recorded.of_build hbuild).performAll ops
  obtain ⟨hsuspends, hresumes⟩ := segment_service hrecorded hs
  exact ⟨_, _, s, hrecorded, hstates, hs, hslots, hsuspended, hrecords, hsuspends, hresumes⟩

end Exchange

end Switchboard
