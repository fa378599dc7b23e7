import Switchboard.Proofs.Exchange.Round
import Switchboard.Proofs.Slot.Timer

/-!
# Switchboard.Proofs.Exchange.Ticker

A look at all timers.

1. A slot whose timer has run out is told once that it has, after the timer was unset
   (`timeOut`), and a look does nothing else (`expireDue_eq`).  The greatest time counts
   as run out when it comes, though it stands for a timer that is not set.
2. What a slot does when it is told concerns its own timer only.  So the slots that are
   told are those that were due before the look, and a timer that has run out after it
   was set by its own slot in between (`ExactPass`).
3. The look comes to an end unless a slot that is told breaks off the work
   (`broken_expireDue_iff`, `breaksDue_iff`).
4. The sleep after a look ends before the next timer runs out (`Rests`).
-/

namespace Switchboard.Exchange

variable {σ : Type} {x y : Exchange σ} {id other : SlotId} {s : Slot σ} {now : Nat}

/-! ## slots that are told -/

/-- The timer of a slot is unset, and the slot is told that it has run out. -/
def timeOut (x : Exchange σ) (id : SlotId) : Exchange σ :=
  ((x.atSlot id fun s => (s.disarm, ())).1.post id .timeout).1

/-- The timer of a slot is set, and has run out at `now`. -/
def isDue (x : Exchange σ) (now : Nat) (id : SlotId) : Bool :=
  ((x.slots[id]?).bind (·.timer.expiry?)).any fun e => decide (e ≤ now)

/-- The slots whose timers have run out at `now`. -/
def dueIds (x : Exchange σ) (now : Nat) : List SlotId := x.slotIds.filter (x.isDue now)

/-- The time that a timer holds has come at `now`, whether it is set or not. -/
def hasCome (x : Exchange σ) (now : Nat) (id : SlotId) : Bool :=
  (x.slots[id]?).any fun s => decide (s.timer.expiry ≤ now)

/-- A slot is due if its timer is set to a time that has come. -/
theorem isDue_iff : x.isDue now id = true ↔
    ∃ s, x.slots[id]? = some s ∧ ∃ e, s.timer.expiry? = some e ∧ e ≤ now := by
  cases hs : x.slots[id]? <;> simp [isDue, Option.any_eq_true, hs]

/-- A time has come if the timer does not expire later. -/
theorem hasCome_iff : x.hasCome now id = true ↔
    ∃ s, x.slots[id]? = some s ∧ s.timer.expiry ≤ now := by
  simp [hasCome, Option.any_eq_true]

/-- No slot is numbered twice. -/
theorem nodup_slotIds (x : Exchange σ) : x.slotIds.Nodup := List.nodup_range

/-- The numbers are those of the slots. -/
theorem mem_slotIds : id ∈ x.slotIds ↔ ∃ s, x.slots[id]? = some s := by
  simp [slotIds, slotCount, ← Option.isSome_iff_exists]

/-- The work that it is to tell a slot. -/
theorem timeOut_of_getElem? (hs : x.slots[id]? = some s) :
    x.timeOut id = { x with
      slots := x.slots.set id
        ((Station.disarm ⟨s, x.ledger⟩).post x.office .timeout).1.slot
      ledger := ((Station.disarm ⟨s, x.ledger⟩).post x.office .timeout).1.ledger } := by
  have hlt := (List.getElem?_eq_some_iff.mp hs).1
  unfold timeOut
  rw [post_eq_atSlot, atSlot_of_getElem? hs]
  have hunset : (x.slots.set id (Station.disarm ⟨s, x.ledger⟩).slot)[id]? =
      some (Station.disarm ⟨s, x.ledger⟩).slot := List.getElem?_set_self hlt
  rw [atSlot_of_getElem? hunset]
  dsimp only
  rw [List.set_set]

/-- A slot whose time has come is told, and no other. -/
theorem expire_of_hasCome (h : x.hasCome now id = true) :
    ∃ outcome, x.expire id now = (x.timeOut id, some outcome) := by
  obtain ⟨s, hs, hcome⟩ := hasCome_iff.mp h
  unfold expire
  rw [atSlot_of_getElem? hs, Station.expire_of_due (x := ⟨s, x.ledger⟩) x.office hcome,
    timeOut_of_getElem? hs]
  exact ⟨_, rfl⟩

/-- Nothing ends before its time. -/
theorem expire_of_not_hasCome (h : x.hasCome now id = false) :
    x.expire id now = (x, none) := by
  unfold expire
  cases hs : x.slots[id]? with
  | none => rw [atSlot_of_none hs]; rfl
  | some s =>
      have hearly : now < s.timer.expiry := by simpa [hasCome, hs] using h
      rw [atSlot_eq_self hs (Station.expire_of_early (x := ⟨s, x.ledger⟩) x.office hearly)]
      rfl

/-- To tell a slot, or to look at it and leave it, changes no other slot. -/
theorem getElem?_expire_ne (hne : other ≠ id) :
    (x.expire id now).1.slots[other]? = x.slots[other]? :=
  getElem?_atSlot_ne hne (Station.expire x.office now)

/-- The office stays as it is when a time ends. -/
theorem office_expire (x : Exchange σ) (id : SlotId) (now : Nat) :
    (x.expire id now).1.office = x.office :=
  atSlot_cases (R := fun y => y.office = x.office) id (Station.expire x.office now) rfl
    fun _ _ => rfl

/-- Slots that are looked at one after the other are told if their times have come, as long
as nothing is broken off. -/
theorem expireEach_eq {ids : List SlotId} (hn : ids.Nodup) (x : Exchange σ) (now n : Nat)
    (hbreaks : ∀ id ∈ ids, x.breaksOff id (Station.expire x.office now) = false) :
    expireEach now ids (x, n) =
      ((ids.filter (x.hasCome now)).foldl timeOut x, n + (ids.filter (x.hasCome now)).length) := by
  induction ids generalizing x n with
  | nil => rfl
  | cons id rest ih =>
      obtain ⟨hid, hrest⟩ := List.nodup_cons.mp hn
      have hapart : ∀ other ∈ rest, other ≠ id :=
        fun other hother => ne_of_mem_of_not_mem hother hid
      have hlater : ∀ other ∈ rest, (x.expire id now).1.breaksOff other
          (Station.expire (x.expire id now).1.office now) = false := fun other hother => by
        rw [office_expire, breaksOff_congr (Station.Answers.expire x.office now)
          (getElem?_expire_ne (hapart other hother))]
        exact hbreaks other (List.mem_cons_of_mem id hother)
      -- Whether the times of the others have come does not depend on this slot.
      have hsame : rest.filter ((x.expire id now).1.hasCome now) =
          rest.filter (x.hasCome now) := by
        refine List.filter_congr fun other hother => ?_
        unfold hasCome
        rw [getElem?_expire_ne (hapart other hother)]
      rw [expireEach]
      dsimp only
      rw [hbreaks id List.mem_cons_self, if_neg Bool.false_ne_true, ih hrest _ _ hlater, hsame]
      cases hcome : x.hasCome now id with
      | true =>
          obtain ⟨outcome, houtcome⟩ := expire_of_hasCome hcome
          rw [houtcome, List.filter_cons_of_pos hcome, List.foldl_cons, List.length_cons]
          simp [Nat.add_assoc, Nat.add_comm 1]
      | false =>
          rw [expire_of_not_hasCome hcome, List.filter_cons_of_neg (by simp [hcome])]
          simp

/-- A look that is broken off is broken off by a slot. -/
theorem breaksDue_eq_false : x.breaksDue now = false ↔
    ∀ id ∈ x.slotIds, x.breaksOff id (Station.expire x.office now) = false := by
  simp [breaksDue]

/-- A look at the timers tells the slots whose times have come, from the lowest on. -/
theorem expireDue_eq (h : x.breaksDue now = false) :
    x.expireDue now = ((x.slotIds.filter (x.hasCome now)).foldl timeOut x,
      (x.slotIds.filter (x.hasCome now)).length) := by
  rw [expireDue, expireEach_eq x.nodup_slotIds x now 0 (breaksDue_eq_false.mp h), Nat.zero_add]

/-! ## slots after a look -/

/-- What it leaves of a slot to be told. -/
theorem slot_timeOut (hs : x.slots[id]? = some s) : (x.timeOut id).slots[id]? =
    some (Work.post x.office .timeout { s with timer := .unset }).1.slot := by
  rw [timeOut_of_getElem? hs]
  dsimp only
  rw [List.getElem?_set_self (List.getElem?_eq_some_iff.mp hs).1,
    (Station.Answers.post x.office .timeout).eq]
  rfl

/-- The ticker breaks off exactly if it had before, or the script of the slot does. -/
theorem broken_timeOut (hs : x.slots[id]? = some s) :
    (x.timeOut id).ledger.broken = true ↔ x.ledger.broken = true ∨
      Entry.breaks ∈ (Work.post x.office .timeout { s with timer := .unset }).1.entries := by
  rw [timeOut_of_getElem? hs]
  dsimp only
  rw [(Station.Answers.post x.office .timeout).eq]
  exact Ledger.broken_enterAll x.ledger _ _

/-- After a look that nothing breaks off, each slot is as if it had been the only one. -/
theorem slot_expireDue (h : x.breaksDue now = false) (id : SlotId) :
    (x.expireDue now).1.slots[id]? =
      if x.hasCome now id = true then (x.timeOut id).slots[id]? else x.slots[id]? := by
  rw [round_expireDue, reached_eq (breaksDue_eq_false.mp h)]
  cases hs : x.slots[id]? with
  | none =>
      have hid : id ∉ x.slotIds := by simp [mem_slotIds, hs]
      rw [if_neg (by simp [hasCome, hs]), getElem?_round _ hid, hs]
  | some s =>
      have hid : id ∈ x.slotIds := mem_slotIds.mpr ⟨s, hs⟩
      rw [slot_round (Station.Answers.expire x.office now) x.nodup_slotIds hid hs]
      by_cases hcome : s.timer.expiry ≤ now
      · rw [if_pos (hasCome_iff.mpr ⟨s, hs, hcome⟩), slot_timeOut hs]
        simp [Work.expire, hcome]
      · rw [if_neg (by simp [hasCome, hs, hcome])]
        simp [Work.expire, hcome, Work.rest]

/-- The work is broken off after a look if it was before, or the look was broken off. -/
theorem broken_expireDue_iff : (x.expireDue now).1.ledger.broken = true ↔
    x.ledger.broken = true ∨ x.breaksDue now = true := by
  have hanswers := Station.Answers.expire x.office now
  rw [round_expireDue, broken_round hanswers (x.nodup_slotIds.sublist (x.sublist_reached now _))]
  refine or_congr_right ?_
  simp only [← breaksOff_iff hanswers]
  rw [exists_reached, breaksDue, List.any_eq_true]

/-- A look is broken off if a slot that is told breaks it off. -/
theorem breaksDue_iff (h : x.ledger.broken = false) : x.breaksDue now = true ↔
    ∃ id, x.hasCome now id = true ∧ (x.timeOut id).ledger.broken = true := by
  have hanswers := Station.Answers.expire x.office now
  rw [breaksDue, List.any_eq_true]
  refine ⟨fun hbreaks => ?_, fun hbreaks => ?_⟩
  · obtain ⟨id, -, hoff⟩ := hbreaks
    obtain ⟨s, hs, hentry⟩ := (breaksOff_iff hanswers).mp hoff
    by_cases hcome : s.timer.expiry ≤ now
    · have hentry : Entry.breaks ∈
          (Work.post x.office .timeout { s with timer := .unset }).1.entries := by
        simpa [Work.expire, hcome] using hentry
      exact ⟨id, hasCome_iff.mpr ⟨s, hs, hcome⟩, (broken_timeOut hs).mpr (.inr hentry)⟩
    · simp [Work.expire, hcome, Work.rest] at hentry
  · obtain ⟨id, hhas, hbroken⟩ := hbreaks
    obtain ⟨s, hs, hcome⟩ := hasCome_iff.mp hhas
    have hentry := ((broken_timeOut hs).mp hbroken).resolve_left (by simp [h])
    refine ⟨id, mem_slotIds.mpr ⟨s, hs⟩, (breaksOff_iff hanswers).mpr ⟨s, hs, ?_⟩⟩
    simpa [Work.expire, hcome] using hentry

/-! ## exact looks -/

/-- A look at the timers at `now` is exact. -/
structure ExactPass (x : Exchange σ) (now : Nat) : Prop where
  /-- It comes to an end. -/
  returned : (x.expireDue now).1.ledger.broken = false
  /-- The slots that were due before it are told, each once, and counted. -/
  told : x.expireDue now = ((x.dueIds now).foldl timeOut x, (x.dueIds now).length)
  once : (x.dueIds now).Nodup
  /-- Such a slot, whose timer is unset first, becomes what its own turn makes of it. -/
  due : ∀ id ∈ x.dueIds now, (x.expireDue now).1.slots[id]? = (x.timeOut id).slots[id]?
  /-- Other slots stay as they are, with their timers. -/
  other : ∀ id ∉ x.dueIds now, (x.expireDue now).1.slots[id]? = x.slots[id]?
  /-- So only the slots that were told can be due again. -/
  rearmed : ∀ id, (x.expireDue now).1.isDue now id = true → id ∈ x.dueIds now

/-- The due slots are those that are due. -/
theorem mem_dueIds : id ∈ x.dueIds now ↔ x.isDue now id = true := by
  refine List.mem_filter.trans (and_iff_right_of_imp fun hdue => ?_)
  obtain ⟨s, hs, -⟩ := isDue_iff.mp hdue
  exact mem_slotIds.mpr ⟨s, hs⟩

/-- A timer that is set and has run out holds a time that has come. -/
theorem hasCome_of_isDue (h : x.isDue now id = true) : x.hasCome now id = true := by
  obtain ⟨s, hs, e, he, hle⟩ := isDue_iff.mp h
  obtain ⟨rfl, -⟩ := Timer.expiry?_eq_some.mp he
  exact hasCome_iff.mpr ⟨s, hs, hle⟩

/-- Where every timer is set, a slot is due once its time has come. -/
theorem isDue_eq_hasCome (hset : ∀ s, x.slots[id]? = some s → s.timer.expiry? ≠ none) :
    x.isDue now id = x.hasCome now id := by
  cases hs : x.slots[id]? with
  | none => simp [isDue, hasCome, hs]
  | some s =>
      obtain ⟨e, he⟩ := Option.ne_none_iff_exists'.mp (hset s hs)
      obtain ⟨heq, -⟩ := Timer.expiry?_eq_some.mp he
      simp [isDue, hasCome, hs, he, heq]

/-- Before the greatest time, a timer whose time has come is set. -/
theorem isDue_eq_hasCome_of_lt (h : now < Timer.never) (id : SlotId) :
    x.isDue now id = x.hasCome now id := by
  cases hs : x.slots[id]? with
  | none => simp [isDue, hasCome, hs]
  | some s =>
      by_cases hset : s.timer.expiry = Timer.never
      · simp [isDue, hasCome, hs, Timer.expiry?, hset, h]
      · simp [isDue, hasCome, hs, Timer.expiry?, hset]

/-- An exact pass breaks nothing off. -/
theorem ExactPass.unbroken (h : x.ExactPass now) : x.ledger.broken = false :=
  Bool.eq_false_iff.mpr fun hbroken =>
    nomatch h.returned.symm.trans (broken_expireDue_iff.mpr (.inl hbroken))

/-- In an exact pass no due slot breaks off. -/
theorem ExactPass.breaksDue_eq_false (h : x.ExactPass now) : x.breaksDue now = false :=
  Bool.eq_false_iff.mpr fun hbreaks =>
    nomatch h.returned.symm.trans (broken_expireDue_iff.mpr (.inr hbreaks))

/-- If a look counts the slots that are due, no time has come for any other. -/
theorem ExactPass.isDue_of_hasCome (h : x.ExactPass now) (hcome : x.hasCome now id = true) :
    x.isDue now id = true := by
  have hcount : (x.slotIds.filter (x.hasCome now)).length = (x.dueIds now).length := by
    have htold := congrArg Prod.snd h.told
    rwa [expireDue_eq h.breaksDue_eq_false] at htold
  have hdue : x.dueIds now = (x.slotIds.filter (x.hasCome now)).filter (x.isDue now) := by
    rw [List.filter_filter, dueIds]
    refine List.filter_congr fun id _ => ?_
    cases hid : x.isDue now id with
    | true => simp [hasCome_of_isDue hid]
    | false => rfl
  rw [hdue] at hcount
  obtain ⟨s, hs, -⟩ := hasCome_iff.mp hcome
  have hmem : id ∈ x.slotIds.filter (x.hasCome now) :=
    List.mem_filter.mpr ⟨mem_slotIds.mpr ⟨s, hs⟩, hcome⟩
  exact List.length_filter_eq_length_iff.mp hcount.symm id hmem

/-- A look is exact if times have come only for timers that are set, and no slot that is
due breaks it off. -/
theorem ExactPass.of_isDue_eq (hb : x.ledger.broken = false)
    (hsame : ∀ id, x.isDue now id = x.hasCome now id)
    (hreturn : ∀ id ∈ x.dueIds now, (x.timeOut id).ledger.broken = false) : x.ExactPass now := by
  have hdue : x.dueIds now = x.slotIds.filter (x.hasCome now) :=
    List.filter_congr fun id _ => hsame id
  have hwhole : x.breaksDue now = false := by
    refine Bool.eq_false_iff.mpr fun hbroken => ?_
    obtain ⟨id, hcome, hbreaks⟩ := (breaksDue_iff hb).mp hbroken
    have hreturned := hreturn id (mem_dueIds.mpr ((hsame id).trans hcome))
    exact absurd hbreaks (by simp [hreturned])
  have hother : ∀ id ∉ x.dueIds now, (x.expireDue now).1.slots[id]? = x.slots[id]? := by
    intro id hid
    rw [mem_dueIds, hsame] at hid
    rw [slot_expireDue hwhole, if_neg hid]
  refine ⟨?_, ?_, x.nodup_slotIds.filter _, fun id hid => ?_, hother, fun id hid => ?_⟩
  · refine Bool.eq_false_iff.mpr fun hbroken => ?_
    rcases broken_expireDue_iff.mp hbroken with hbefore | hbreaks
    · exact nomatch hb.symm.trans hbefore
    · exact nomatch hwhole.symm.trans hbreaks
  · rw [hdue]
    exact expireDue_eq hwhole
  · rw [mem_dueIds, hsame] at hid
    rw [slot_expireDue hwhole, if_pos hid]
  · by_cases hdue : id ∈ x.dueIds now
    · exact hdue
    · unfold isDue at hid
      rw [hother id hdue] at hid
      exact mem_dueIds.mpr hid

/-- A look is exact as long as no slot that is due breaks it off, and the greatest time
has not come, unless all timers are set. -/
theorem exactPass_iff (x : Exchange σ) (now : Nat) :
    x.ExactPass now ↔ x.ledger.broken = false ∧
      (∀ id ∈ x.dueIds now, (x.timeOut id).ledger.broken = false) ∧
      (now < Timer.never ∨ ∀ s ∈ x.slots, s.timer.expiry? ≠ none) := by
  constructor
  · intro h
    refine ⟨h.unbroken, fun id hid => ?_, ?_⟩
    · refine Bool.eq_false_iff.mpr fun hbreaks => ?_
      have hcome := hasCome_of_isDue (mem_dueIds.mp hid)
      have hbroken := (breaksDue_iff h.unbroken).mpr ⟨id, hcome, hbreaks⟩
      exact nomatch h.breaksDue_eq_false.symm.trans hbroken
    · by_cases hlt : now < Timer.never
      · exact .inl hlt
      · refine .inr fun s hs hunset => ?_
        obtain ⟨id, hid⟩ := List.getElem?_of_mem hs
        have hnever : s.timer.expiry = Timer.never := Timer.expiry?_eq_none.mp hunset
        have hcome : x.hasCome now id = true :=
          hasCome_iff.mpr ⟨s, hid, hnever ▸ Nat.le_of_not_lt hlt⟩
        obtain ⟨t, ht, e, he, -⟩ := isDue_iff.mp (h.isDue_of_hasCome hcome)
        obtain rfl := Option.some.inj (hid.symm.trans ht)
        exact nomatch hunset.symm.trans he
  · rintro ⟨hb, hreturn, hset⟩
    refine .of_isDue_eq hb (fun id => ?_) hreturn
    rcases hset with hlt | hall
    · exact isDue_eq_hasCome_of_lt hlt id
    · exact isDue_eq_hasCome fun s hs => hall s (List.mem_of_getElem? hs)

/-! ## sleeping -/

/-- A sleep that begins at `now` ends when the next timer runs out, at once if one has
run out already, and lasts no longer than `idle`. -/
structure Rests (x : Exchange σ) (now idle ms : Nat) : Prop where
  capped : ms ≤ idle
  ahead : ∀ s ∈ x.slots, ∀ e, s.timer.expiry? = some e → ms ≤ e - now
  needed : ms = idle ∨ ∃ s ∈ x.slots, ∃ e, s.timer.expiry? = some e ∧ ms = e - now

/-- The ticker rests for the time of its pause. -/
theorem rests_pause (x : Exchange σ) (now idle : Nat) : x.Rests now idle (x.pause now idle) := by
  unfold pause
  cases hnext : x.nextExpiry? with
  | none =>
      refine ⟨Nat.le_refl idle, fun s hs e he => ?_, .inl rfl⟩
      have hnone := List.min?_eq_none_iff.mp hnext
      exact nomatch (List.filterMap_eq_nil_iff.mp hnone s hs).symm.trans he
  | some first =>
      obtain ⟨hmem, hleast⟩ := List.min?_eq_some_iff.mp hnext
      obtain ⟨s, hs, hfirst⟩ := List.mem_filterMap.mp hmem
      refine ⟨Nat.min_le_right _ _, fun t ht e he => ?_, ?_⟩
      · have hle : first ≤ e := hleast e (List.mem_filterMap.mpr ⟨t, ht, he⟩)
        exact Nat.le_trans (Nat.min_le_left _ _) (Nat.sub_le_sub_right hle now)
      · rcases Nat.le_total (first - now) idle with hle | hle
        · exact .inr ⟨s, hs, first, hfirst, Nat.min_eq_left hle⟩
        · exact .inl (Nat.min_eq_right hle)

/-! ## the ticker -/

/-- When the ticker does its work.  A look at all timers is exact, in whatever state the
slots are, exactly as long as the work has not been broken off and no slot that is due
breaks it off, and the greatest time has not come for a timer that is not set: then the
slots that were due are told, each once and from the lowest on, with their timers unset
first; they are counted; and all other slots, with their timers, stay as they are.  The
sleep that follows lasts until the next timer runs out, but no longer than allowed,
whether the time of the look is taken for its beginning or a later one. -/
theorem ticker_pass (x : Exchange σ) :
    (∀ now, x.ExactPass now ↔ x.ledger.broken = false ∧
      (∀ id ∈ x.dueIds now, (x.timeOut id).ledger.broken = false) ∧
      (now < Timer.never ∨ ∀ s ∈ x.slots, s.timer.expiry? ≠ none)) ∧
    ∀ idle, (x.tick idle).1 = (x.expireDue x.office.clock.now).1 ∧
      (x.tick idle).1.Rests x.office.clock.now idle (x.tick idle).2 ∧
      ∀ later, (x.tick idle).1.Rests later idle ((x.tick idle).1.pause later idle) :=
  ⟨exactPass_iff x, fun idle => ⟨rfl, rests_pause _ _ idle, fun later => rests_pause _ later idle⟩⟩

/-- Two slots are due.  The script on the first wants to sleep for longer than can be
said, so the look does not come to an end.  At the greatest time, slots whose timers
are not set are told and counted too. -/
theorem ticker_pass_not_exact : ∃ x y : Exchange Unit, Reach x ∧ x.dueIds 0 = [0, 1] ∧
    (x.expireDue 0).1.ledger.broken = true ∧ ¬ x.ExactPass 0 ∧
    Reach y ∧ y.nextExpiry? = none ∧ (y.expireDue Timer.never).2 = 3 ∧
    ¬ y.ExactPass Timer.never := by
  let script := "@main\n  sleep 0\n  sleep 1e30\n  exit\n" ++
    "@other\n  sleep 0\n  sleep 60\n  exit\n"
  let ops : List Operation := [.allocate 0 Station.trialCall,
    .allocate 1 { Station.trialCall with script := some "other" }]
  have hrun : (build trialConfig (trialPlan script)).toOption.map (fun x =>
      ((x.performAll ops).dueIds 0, ((x.performAll ops).expireDue 0).1.ledger.broken,
        x.dueIds Timer.never, x.nextExpiry?, (x.expireDue Timer.never).2)) =
      some ([0, 1], true, [], none, 3) := by decide +kernel
  obtain ⟨x, hbuild, hobserved⟩ := exists_build hrun
  simp only [Prod.mk.injEq] at hobserved
  obtain ⟨hdue, hbroken, hnone, hunset, hcount⟩ := hobserved
  refine ⟨x.performAll ops, x, (Reach.build hbuild).performAll ops, hdue, hbroken, fun h => ?_,
    .build hbuild, hunset, hcount, fun h => ?_⟩
  · exact nomatch h.returned.symm.trans hbroken
  · have htold := congrArg Prod.snd h.told
    rw [hcount, hnone] at htold
    exact nomatch htold

end Switchboard.Exchange
