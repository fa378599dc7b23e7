import Switchboard.Proofs.Exchange.Reports

/-!
# Switchboard.Proofs.Exchange.Records

The records of calls, and how they pair up.

1. What an operation hands in is what would wait to be written if somebody wrote
   records (`handedIn`).  A history lists what was handed in since the exchange
   was built (`Recorded`); in between, records are written and handed back.  To build
   it hands in none (`records_of_build`).
2. The records of a slot are those of the calls that it has carried, each with
   its start and its stop, and the start of the call that it carries
   (`Slot.Paired`).  Every tale of a slot continues that list (`Slot.Paired.tale`).
3. So records pair up: `records_pair_up`.
-/

namespace Switchboard

open RecordPool (Taken)

/-! ## the records of a slot -/

/-- The records of a slot: start and stop of the calls that it carried in the past,
each with the time it took, and the start of the call that it carries.  The numbers
of the calls rise, and the last is that of the slot. -/
structure Slot.Paired {σ : Type} (s : Slot σ) (past : List (Call × Nat))
    (rs : List CallRecord) : Prop where
  records : rs = past.flatMap (fun p => [p.1.startRecord s.id, p.1.stopRecord s.id p.2]) ++
    (s.call.map (Call.startRecord s.id)).toList
  rising : (past.map (·.1.sequence) ++ (s.call.map (·.sequence)).toList).Pairwise (· < ·)
  within : ∀ p ∈ past, p.1.sequence ≤ s.sequence
  current : ∀ c, s.call = some c → c.sequence = s.sequence

namespace Slot.Paired

variable {σ : Type} {s t : Slot σ} {past : List (Call × Nat)} {rs ss : List CallRecord}
  {e : Option Event}

/-- A slot without a call that has handed in nothing. -/
theorem nil (h : s.call = none) : s.Paired [] [] :=
  ⟨by simp [h], by simp [h], fun _ hp => (nomatch hp), fun _ hc => nomatch h.symm.trans hc⟩

/-- Every tale of a slot continues the list of its calls. -/
theorem tale (h : s.Paired past rs) (ht : s.Tale e ss t) (hid : t.id = s.id) :
    ∃ calls, t.Paired calls (rs ++ ss) := by
  obtain ⟨hrecords, hrising, hwithin, hcurrent⟩ := h
  cases ht with
  | served hs =>
      cases hs with
      | quiet hcall hsame hle =>
          refine ⟨past, ?_, ?_, fun p hp => Nat.le_trans (hwithin p hp) hle, fun c hc => ?_⟩
          · rw [hid, hcall, List.append_nil]
            exact hrecords
          · rw [hcall]
            exact hrising
          · rw [hcall] at hc
            exact (hcurrent c hc).trans (hsame (by rw [hc]; rfl)).2.symm
      | ended c reason ms hc hnone hle _ =>
          refine ⟨past ++ [({ c with reason }, ms)], ?_, ?_, fun p hp => ?_, fun d hd => ?_⟩
          · have hstart : Call.startRecord s.id { c with reason } = c.startRecord s.id := rfl
            simp [hrecords, hc, hnone, hid, hstart]
          · simpa [hc, hnone] using hrising
          · rcases List.mem_append.mp hp with hp | hp
            · exact Nat.le_trans (hwithin p hp) hle
            · obtain rfl := List.mem_singleton.mp hp
              exact Nat.le_trans (Nat.le_of_eq (hcurrent c hc)) hle
          · exact nomatch hnone.symm.trans hd
  | closing reason _ _ hcall hsame =>
      refine ⟨past, ?_, ?_, fun p hp => hsame ▸ hwithin p hp, fun d hd => ?_⟩
      · rw [hid, hcall, List.append_nil, hrecords]
        cases s.call <;> rfl
      · rw [hcall]
        cases hc : s.call <;> simpa [hc] using hrising
      · rw [hcall] at hd
        obtain ⟨c, hc, rfl⟩ := Option.map_eq_some_iff.mp hd
        exact (hcurrent c hc).trans hsame.symm
  | begun c hnone hcall hsame hlt =>
      refine ⟨past, ?_, ?_, fun p hp => Nat.le_of_lt (Nat.lt_of_le_of_lt (hwithin p hp) hlt),
        fun d hd => ?_⟩
      · simp [hrecords, hnone, hcall, hid]
      · rw [hnone] at hrising
        rw [hcall]
        refine List.pairwise_append.mpr ⟨by simpa using hrising, List.pairwise_singleton _ _, ?_⟩
        intro m hm n hn
        obtain ⟨p, hp, rfl⟩ := List.mem_map.mp hm
        obtain rfl : n = c.sequence := by simpa using hn
        exact hsame ▸ Nat.lt_of_le_of_lt (hwithin p hp) hlt
      · obtain rfl := Option.some.inj (hcall.symm.trans hd)
        exact hsame

end Slot.Paired

namespace Exchange

variable {σ : Type} {x y : Exchange σ} {rs : List CallRecord}

/-! ## histories -/

/-- The exchange with somebody who writes records and has written all. -/
def attended (x : Exchange σ) : Exchange σ :=
  { x with ledger := { x.ledger with records :=
      { x.ledger.records with pending := [], isOpen := true } } }

/-- The records that an operation hands in, whether somebody writes them or not. -/
def handedIn (x : Exchange σ) (op : Operation) : List CallRecord :=
  (x.attended.perform op).ledger.records.pending

/-- An exchange with the records that were handed in while it was built, and since. -/
inductive Recorded : List CallRecord → Exchange σ → Prop
  | build {c : Config} {p : Plan σ} {x : Exchange σ} : build c p = .ok x →
      Recorded x.ledger.records.pending x
  | perform {rs : List CallRecord} {x : Exchange σ} (op : Operation) :
      Recorded rs x → Recorded (rs ++ x.handedIn op) (x.perform op)
  | elsewhere {rs : List CallRecord} {x y : Exchange σ} : Recorded rs x → Elsewhere x y →
      Relation.ReflTransGen RecordPool.Handled x.ledger.records y.ledger.records → Recorded rs y

namespace Recorded

theorem reach (h : Recorded rs x) : Reach x := by
  induction h with
  | build hb => exact .build hb
  | perform op _ ih => exact ih.perform op
  | elsewhere _ he _ ih => exact ih.elsewhere he

end Recorded

/-- What an operation makes of the records, and what it tells of each slot with those
that it hands in. -/
theorem Lawful.handedIn (hx : x.Lawful) (hb : x.ledger.records.Blank) (op : Operation) :
    Taken x.ledger.records (x.handedIn op) (x.perform op).ledger.records ∧
      Tells (fun _ s => s.Tale op.event?) x (x.handedIn op) (x.perform op) := by
  obtain ⟨rs, hrs, htells⟩ := reports_perform hx op
  have hattended : x.handedIn op = rs := by
    obtain ⟨b', hb', ht⟩ :=
      hrs { x.ledger.annex with records := x.attended.ledger.records } hb
    have hperform : x.attended.perform op = (x.perform op).beside b' := congrArg Prod.fst hb'
    unfold Exchange.handedIn
    rw [hperform]
    exact ht.pending
  rw [hattended]
  exact ⟨hrs.taken hb, htells⟩

/-- An exchange that is built carries no calls. -/
theorem call_of_build {c : Config} {p : Plan σ} (h : build c p = .ok x) :
    ∀ s ∈ x.slots, s.call = none := by
  intro s hs
  obtain ⟨segments, scripts, -, haccounts⟩ := accounts_of_build h
  have hcarried := carried_unstarted c p segments scripts (s.id, s.call.map (·.cid)) (by
    rw [← haccounts]
    exact List.mem_map.mpr ⟨s, hs, rfl⟩)
  simpa using hcarried

/-- Slots without calls hand in no records when they are served. -/
theorem Tells.eq_nil {e : Option Event} (h : Tells (fun _ s => s.Served e) x rs y)
    (hcall : ∀ s ∈ x.slots, s.call = none) : rs = [] := by
  refine List.eq_nil_iff_forall_not_mem.mpr fun r hr => ?_
  obtain ⟨t, -, hserved⟩ := h.slot r.slot _ (List.getElem?_eq_getElem (h.known r hr))
  have hown : r ∈ rs.filter (·.slot == r.slot) :=
    List.mem_filter.mpr ⟨hr, beq_self_eq_true _⟩
  generalize rs.filter (·.slot == r.slot) = own at hserved hown
  cases hserved with
  | quiet => exact nomatch hown
  | ended c _ _ hc => exact nomatch (hcall _ (List.getElem_mem _)).symm.trans hc

/-- To build an exchange hands in no records. -/
theorem taken_of_build {c : Config} {p : Plan σ} (h : build c p = .ok x) :
    Taken (.new c.workers.recordCapacity) [] x.ledger.records := by
  obtain ⟨-, segments, scripts, -, rfl⟩ := build_ok h
  obtain ⟨rs, hrs, htells⟩ := reports_postAll (.unstarted c p segments scripts) (.inl rfl)
    (unstarted c p segments scripts).slotIds
  have hvacant : ∀ s ∈ (unstarted c p segments scripts).slots, s.call = none := by
    intro s hs
    obtain ⟨id, -, rfl⟩ := List.mem_map.mp hs
    rfl
  obtain rfl := htells.eq_nil hvacant
  exact hrs.taken (.new _)

/-- It leaves blank ones for use. -/
theorem records_of_build {c : Config} {p : Plan σ} (h : build c p = .ok x) :
    x.ledger.records.Blank ∧ x.ledger.records.pending = [] :=
  ⟨(taken_of_build h).blank, (taken_of_build h).pending⟩

namespace Recorded

theorem of_build {c : Config} {p : Plan σ} (h : Exchange.build c p = .ok x) : Recorded [] x :=
  (records_of_build h).2 ▸ .build h

/-- The records kept for use are blank. -/
theorem blank (h : Recorded rs x) : x.ledger.records.Blank := by
  induction h with
  | build hb => exact (records_of_build hb).1
  | perform op hpast ih => exact (hpast.reach.lawful.handedIn ih op).1.blank
  | elsewhere _ _ hhandled ih => exact ih.handled hhandled

/-- The records of each slot pair up, and all records are of slots that exist. -/
theorem paired (h : Recorded rs x) :
    (∀ (id : SlotId) (s : Slot σ), x.slots[id]? = some s →
      ∃ past, s.Paired past (rs.filter (·.slot == id))) ∧
      ∀ r ∈ rs, r.slot < x.slotCount := by
  induction h with
  | build hb =>
      rw [(records_of_build hb).2]
      exact ⟨fun id s hs => ⟨[], .nil (call_of_build hb s (List.mem_of_getElem? hs))⟩,
        fun _ hr => nomatch hr⟩
  | @perform rs x op hpast ih =>
      have hx := hpast.reach.lawful
      obtain ⟨-, htells⟩ := hx.handedIn hpast.blank op
      refine ⟨fun id t ht => ?_, fun r hr => ?_⟩
      · have hlt : id < x.slots.length := htells.size ▸ (List.getElem?_eq_some_iff.mp ht).1
        have hs := List.getElem?_eq_getElem hlt
        obtain ⟨u, hu, htale⟩ := htells.slot id _ hs
        obtain rfl := Option.some.inj (ht.symm.trans hu)
        obtain ⟨past, hpaired⟩ := ih.1 id _ hs
        have hid := (hpast.reach.perform op).lawful.numbered id t ht
        rw [List.filter_append]
        exact hpaired.tale htale (hid.trans (hx.numbered id _ hs).symm)
      · have hsize : (x.perform op).slotCount = x.slotCount := htells.size
        rw [hsize]
        rcases List.mem_append.mp hr with hr | hr
        · exact ih.2 r hr
        · exact htells.known r hr
  | elsewhere _ he _ ih =>
      unfold slotCount
      rw [he.slots]
      exact ih

end Recorded

/-! ## tokens -/

/-- Only a slot whose call is over is freed, and the answer says of which call. -/
theorem of_released {id : SlotId} {e : Event} {r : Release}
    (h : (x.post id e).2 = .ok (.released r)) :
    ∃ s, x.slots[id]? = some s ∧ s.state = .releasing ∧ r = ⟨s.id, s.sequence⟩ := by
  unfold post at h
  cases hslot : x.slots[id]? with
  | none => simp [atSlot_of_none hslot] at h
  | some s =>
      rw [atSlot_of_getElem? hslot] at h
      have hanswer : (Station.post x.office e ⟨s, x.ledger⟩).2 = .released r := Except.ok.inj h
      refine ⟨s, rfl, ?_⟩
      unfold Station.post at hanswer
      cases hs : s.state with
      | offline => cases e <;> simp [hs, Station.postOffline] at hanswer
      | idle => cases e <;> simp [hs, Station.postIdle] at hanswer
      | scripting =>
          simp only [hs] at hanswer
          cases e with
          | signal name =>
              simp only [Station.postScripting] at hanswer
              split at hanswer <;> simp at hanswer
          | enable | disable | timeout | drop | hangup | release | shutdown =>
              simp [Station.postScripting] at hanswer
      | releasing =>
          simp only [hs] at hanswer
          cases e with
          | release | timeout => exact ⟨rfl, (Outcome.released.inj hanswer).symm⟩
          | enable | disable | drop | hangup | shutdown | signal =>
              simp [Station.postReleasing] at hanswer

/-- A token is that of the event. -/
theorem post_of_release {id : SlotId} {r : Release} (h : (x.release id).2 = .ok r) :
    (x.post id .release).2 = .ok (.released r) := by
  rw [release_eq] at h
  generalize (x.post id .release).2 = answer at h ⊢
  rcases answer with e | outcome
  · exact nomatch h
  · cases outcome with
    | released q => exact congrArg _ (congrArg _ (Except.ok.inj h))
    | handled | rejected => exact nomatch h

/-- The token of a slot that is freed has the number of its call. -/
theorem Recorded.token (h : Recorded rs x) {id : SlotId} {e : Event} {r : Release}
    (hr : (x.post id e).2 = .ok (.released r)) :
    ∃ s c, x.slots[id]? = some s ∧ s.call = some c ∧ r = ⟨id, c.sequence⟩ := by
  obtain ⟨s, hs, hstate, rfl⟩ := of_released hr
  have hlawful := h.reach.lawful
  obtain ⟨c, hc⟩ := Option.isSome_iff_exists.mp ((hlawful.station hs).law.releasing hstate).1
  obtain ⟨past, hpaired⟩ := h.paired.1 id s hs
  exact ⟨s, c, hs, hc, by rw [hlawful.numbered id s hs, hpaired.current c hc]⟩

/-! ## stops -/

/-- A stop is of the call that its slot carried before. -/
theorem Recorded.stop (h : Recorded rs x) (op : Operation) {r : CallRecord}
    (hr : r ∈ x.handedIn op) (hkind : r.kind = .stop) :
    ∃ s c ms, x.slots[r.slot]? = some s ∧ s.call = some c ∧
      r = Call.stopRecord r.slot ms { c with reason := r.reason } ∧
      (s.state = .releasing ∧ r.reason = c.reason ∨
        s.state = .scripting ∧ op.event?.map Event.name = some r.reason) := by
  have hlawful := h.reach.lawful
  obtain ⟨-, htells⟩ := hlawful.handedIn h.blank op
  obtain ⟨s, hs⟩ : ∃ s, x.slots[r.slot]? = some s :=
    ⟨_, List.getElem?_eq_getElem (htells.known r hr)⟩
  obtain ⟨t, -, htale⟩ := htells.slot r.slot s hs
  have hid : s.id = r.slot := hlawful.numbered r.slot s hs
  have hown : r ∈ (x.handedIn op).filter (·.slot == r.slot) :=
    List.mem_filter.mpr ⟨hr, beq_self_eq_true _⟩
  generalize (x.handedIn op).filter (·.slot == r.slot) = own at htale hown
  cases htale with
  | served hserved =>
      cases hserved with
      | quiet => exact nomatch hown
      | ended c reason ms hc _ _ hreason =>
          have hrecord : r = Call.stopRecord s.id ms { c with reason } := List.mem_singleton.mp hown
          obtain rfl : r.reason = reason := congrArg CallRecord.reason hrecord
          exact ⟨s, c, ms, hs, hc, hid ▸ hrecord, hreason⟩
  | closing => exact nomatch hown
  | begun c =>
      have hrecord : r = c.startRecord s.id := List.mem_singleton.mp hown
      exact nomatch hkind.symm.trans (congrArg CallRecord.kind hrecord)

/-- The reason for which a call is over stays as it is. -/
theorem Recorded.reason (h : Recorded rs x) (op : Operation) {id : SlotId} {s t : Slot σ}
    (hs : x.slots[id]? = some s) (hstate : s.state = .releasing)
    (ht : (x.perform op).slots[id]? = some t) : t.call = s.call ∨ t.call = none := by
  have hlawful := h.reach.lawful
  obtain ⟨-, htells⟩ := hlawful.handedIn h.blank op
  obtain ⟨u, hu, htale⟩ := htells.slot id s hs
  obtain rfl := Option.some.inj (ht.symm.trans hu)
  have hcall := ((hlawful.station hs).law.releasing hstate).1
  generalize (x.handedIn op).filter (·.slot == id) = own at htale
  cases htale with
  | served hserved =>
      cases hserved with
      | quiet hsame _ _ => exact .inl hsame
      | ended _ _ _ _ hnone _ _ => exact .inr hnone
  | closing _ hscripting => exact nomatch hstate.symm.trans hscripting
  | begun c hnone =>
      rw [hnone] at hcall
      exact nomatch hcall

/-! ## pairs of records -/

/-- The records of a slot that were handed in since an exchange was built are those
of the calls that the slot has carried: each call has a record of its start and
then one of its stop, which says the same, and how long the call took and why it
ended; the last is a start exactly if the slot carries a call.  The numbers of the
calls rise.  No record is of any other slot.

Whatever is done next, the records that it hands in wait behind the others, or are
counted as lost once nobody writes records.  Each stop among them is of the call
that its slot carried before, and says why: for the reason that the call was over
for, which does not change as long as it waits for its slot to be free, or, if the
script still ran, by the event that ended the call.  A slot that is freed answers
with the number of the call that it carried. -/
theorem records_pair_up (h : Recorded rs x) :
    (∀ (id : SlotId) (s : Slot σ), x.slots[id]? = some s →
        ∃ past, s.Paired past (rs.filter (·.slot == id))) ∧
      (∀ r ∈ rs, r.slot < x.slotCount) ∧
      (∀ op : Operation,
        Taken x.ledger.records (x.handedIn op) (x.perform op).ledger.records ∧
        (∀ r ∈ x.handedIn op, r.kind = .stop → ∃ s c ms, x.slots[r.slot]? = some s ∧
          s.call = some c ∧ r = Call.stopRecord r.slot ms { c with reason := r.reason } ∧
          (s.state = .releasing ∧ r.reason = c.reason ∨
            s.state = .scripting ∧ op.event?.map Event.name = some r.reason)) ∧
        ∀ (id : SlotId) (s t : Slot σ), x.slots[id]? = some s → s.state = .releasing →
          (x.perform op).slots[id]? = some t → t.call = s.call ∨ t.call = none) ∧
      ∀ (id : SlotId) (e : Event) (r : Release),
        (x.post id e).2 = .ok (.released r) ∨ (x.release id).2 = .ok r →
        ∃ s c, x.slots[id]? = some s ∧ s.call = some c ∧ r = ⟨id, c.sequence⟩ := by
  obtain ⟨hpaired, hknown⟩ := h.paired
  refine ⟨hpaired, hknown, fun op => ⟨?_, ?_, ?_⟩, fun id e r hr => ?_⟩
  · exact (h.reach.lawful.handedIn h.blank op).1
  · exact fun r hr hkind => h.stop op hr hkind
  · exact fun id s t hs hstate ht => h.reason op hs hstate ht
  · rcases hr with hr | hr
    · exact h.token hr
    · exact h.token (post_of_release hr)

/-! ## a history to look at -/

/-- The records that operations hand in, one after the other. -/
def handedInAll (x : Exchange σ) : List Operation → List CallRecord
  | [] => []
  | op :: rest => x.handedIn op ++ (x.perform op).handedInAll rest

theorem Recorded.performAll (h : Recorded rs x) (ops : List Operation) :
    Recorded (rs ++ x.handedInAll ops) (x.performAll ops) := by
  induction ops generalizing x rs with
  | nil => simpa [handedInAll, performAll] using h
  | cons op rest ih =>
      have hrest := ih (h.perform op)
      rwa [List.append_assoc] at hrest

/-- One call was dropped and its slot freed, the next was ended with its segment, and
a third goes on. -/
theorem records_pair_up_three_calls : ∃ (x : Exchange Unit) (rs : List CallRecord),
    Recorded rs x ∧
    rs.map (fun r => (r.kind, r.slot, r.sequence, r.reason)) =
      [(.start, 0, 1, ""), (.stop, 0, 1, "drop"), (.start, 0, 2, ""), (.stop, 0, 2, "disable"),
        (.start, 0, 3, "")] ∧
    (∀ (id : SlotId) (s : Slot Unit), x.slots[id]? = some s →
      ∃ past, s.Paired past (rs.filter (·.slot == id))) := by
  let ops : List Operation :=
    [.allocate 0 Station.trialCall, .post 0 .drop, .release 0, .allocate 0 Station.trialCall,
      .suspend .group "group", .resume .group "group", .allocate 0 Station.trialCall]
  have hrun : (build trialConfig (trialPlan "@main\n  sleep 60\n  exit\n")).toOption.map
      (fun x => (x.handedInAll ops).map (fun r => (r.kind, r.slot, r.sequence, r.reason))) =
      some [(.start, 0, 1, ""), (.stop, 0, 1, "drop"), (.start, 0, 2, ""),
        (.stop, 0, 2, "disable"), (.start, 0, 3, "")] := by decide +kernel
  obtain ⟨x, hbuild, hobserved⟩ := exists_build hrun
  have hrecorded := (Recorded.of_build hbuild).performAll ops
  exact ⟨_, _, hrecorded, hobserved, (records_pair_up hrecorded).1⟩

end Exchange

end Switchboard
