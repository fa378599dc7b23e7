import Mathlib.Data.List.Perm.Subperm
import Switchboard.Proofs.Exchange.Chronicle

/-!
# Switchboard.Proofs.Exchange.Statistics

The counts of segments against the run that led to them.

1. Calls that end let the counts of segments fall to what is left
   (`Counted.fallen_lapses`).
2. The run has a number of calls on the slots of a segment at every moment, and
   operations that begin calls there.  The counts of the segment are the last,
   greatest and least of these numbers, and how many those operations are, over
   the whole run or since a period began (`Tallied`).
3. They are as long as these numbers fit the widths of the counts (`Fits`), which
   those of a segment with fewer slots than `UInt32.size` always do.
-/

namespace Switchboard

/-! ## counts that fall -/

namespace Accounts

variable {a b : Accounts}

/-- Calls have ended, and a segment that counted right counts what is left. -/
structure Fallen (a b : Accounts) : Prop where
  fewer : ∀ s, b.busy s ≤ a.busy s
  entry : ∀ t ∈ b.segments.entries, ∃ s ∈ a.segments.entries, t.blank = s.blank ∧
    (s.counter.current.toNat = a.busy s → s.counter.min ≤ s.counter.current →
      t.counter.current.toNat = b.busy s ∧ t.counter = s.counter.fallen t.counter.current)

/-- Accounts have fallen from themselves. -/
theorem Fallen.refl (a : Accounts) : Fallen a a :=
  ⟨fun _ => Nat.le_refl _, fun t ht => ⟨t, ht, rfl, fun hcurrent hmin =>
    ⟨hcurrent, (Counter.fallen_current hmin).symm⟩⟩⟩

/-- What falls twice has fallen. -/
theorem Fallen.trans {c : Accounts} (hab : Fallen a b) (hbc : Fallen b c) : Fallen a c := by
  refine ⟨fun s => Nat.le_trans (hbc.fewer s) (hab.fewer s), fun u hu => ?_⟩
  obtain ⟨t, ht, hblank, hlater⟩ := hbc.entry u hu
  obtain ⟨s, hs, hblank', hfirst⟩ := hab.entry t ht
  refine ⟨s, hs, hblank.trans hblank', fun hcurrent hmin => ?_⟩
  obtain ⟨htcurrent, htfallen⟩ := hfirst hcurrent hmin
  have htmin : t.counter.min ≤ t.counter.current := by
    rw [htfallen, UInt32.le_iff_toNat_le]
    exact Nat.le_trans (Nat.le_of_eq (toNat_min_uint32 ..)) (Nat.min_le_right ..)
  obtain ⟨hucurrent, hufallen⟩ := hlater (htcurrent.trans (busy_of_blank hblank' b).symm) htmin
  rw [busy_of_blank hblank'] at hucurrent
  refine ⟨hucurrent, ?_⟩
  have hless : u.counter.current ≤ t.counter.current := by
    rw [UInt32.le_iff_toNat_le, hucurrent, htcurrent]
    exact hbc.fewer s
  rw [htfallen, Counter.fallen_fallen _ hless] at hufallen
  exact hufallen

/-- Where calls lapse, the accounts fall. -/
theorem Counted.fallen (h : a.Counted) (hl : Lapse a b) : Fallen a b := by
  cases hl with
  | same hb => exact hb ▸ .refl a
  | ended id cid hid hb =>
      subst hb
      have hbusy := busy_closed hid
      refine ⟨fun s => by have := hbusy s; omega, fun t ht => ?_⟩
      rw [h.entries_closed hid] at ht
      obtain ⟨s, hs, rfl⟩ := List.mem_map.mp ht
      refine ⟨s, hs, by split <;> rfl, fun hcurrent hmin => ?_⟩
      have hs' := hbusy s
      by_cases hin : s.contains id = true
      · rw [if_pos hin] at hs' ⊢
        have hended := s.counter.toNat_current_ended
        exact ⟨by dsimp only; omega, s.counter.ended_eq_fallen⟩
      · rw [if_neg hin] at hs' ⊢
        exact ⟨hcurrent.trans hs'.symm, (Counter.fallen_current hmin).symm⟩

end Accounts

/-! ## the run of a segment -/

namespace Exchange

variable {σ : Type} {x y : Exchange σ} {past : List (Exchange σ × Operation)} {op : Operation}
  {s : Segment} {c : Counter}

/-- Whether an operation begins a call on a slot of a segment. -/
def beginsIn (s : Segment) (entry : Exchange σ × Operation) : Bool :=
  (entry.1.started? entry.2).any s.contains

/-- What has happened in the present period. -/
def present (past : List (Exchange σ × Operation)) : List (Exchange σ × Operation) :=
  past.takeWhile fun entry => !entry.2.isNewPeriod

/-- Counts are those of the run on the slots of a segment. -/
structure Tallied (past : List (Exchange σ × Operation)) (x : Exchange σ) (s : Segment)
    (c : Counter) : Prop where
  current : c.current.toNat = busyIn s x
  peak : ((moments past x).map (busyIn s)).max? = some c.peak.toNat
  min : ((moments (present past) x).map (busyIn s)).min? = some c.min.toNat
  max : ((moments (present past) x).map (busyIn s)).max? = some c.max.toNat
  period : c.period.toNat = (present past).countP (beginsIn s)
  total : c.total.toNat = past.countP (beginsIn s)

/-- The numbers of a run fit the widths of the counts: the calls on slots of the segment at
every moment, and those that have begun there. -/
structure Fits (past : List (Exchange σ × Operation)) (x : Exchange σ) (s : Segment) : Prop where
  calls : ∀ y ∈ moments past x, busyIn s y < UInt32.size
  begun : past.countP (beginsIn s) < UInt64.size

/-- An operation that begins no period belongs to the present one. -/
theorem present_cons (h : op.isNewPeriod = false) :
    present ((x, op) :: past) = (x, op) :: present past :=
  List.takeWhile_cons_of_pos (by simp [h])

/-- No more calls begin in the present period than in the whole past. -/
theorem countP_present_le (s : Segment) (past : List (Exchange σ × Operation)) :
    (present past).countP (beginsIn s) ≤ past.countP (beginsIn s) :=
  (List.takeWhile_sublist _).countP_le

/-- The greatest of one more. -/
theorem max?_cons {n m : Nat} {ns : List Nat} (h : ns.max? = some m) :
    (n :: ns).max? = some (Nat.max m n) := by
  rw [List.max?_cons, h]
  exact congrArg some (Nat.max_comm n m)

/-- The least of one more. -/
theorem min?_cons {n m : Nat} {ns : List Nat} (h : ns.min? = some m) :
    (n :: ns).min? = some (Nat.min m n) := by
  rw [List.min?_cons, h]
  exact congrArg some (Nat.min_comm n m)

/-- There are never more calls than at the peak. -/
theorem Tallied.current_le_peak (h : Tallied past x s c) : c.current.toNat ≤ c.peak.toNat := by
  rw [h.current]
  exact (List.max?_eq_some_iff.mp h.peak).2 _ (List.mem_cons_self ..)

/-- There are never more calls than the most of the period. -/
theorem Tallied.current_le_max (h : Tallied past x s c) : c.current.toNat ≤ c.max.toNat := by
  rw [h.current]
  exact (List.max?_eq_some_iff.mp h.max).2 _ (List.mem_cons_self ..)

/-- There are never fewer calls than the least of the period. -/
theorem Tallied.min_le (h : Tallied past x s c) : c.min.toNat ≤ c.current.toNat := by
  rw [h.current]
  exact (List.min?_eq_some_iff.mp h.min).2 _ (List.mem_cons_self ..)

/-- Counts that are those of the run hold its numbers, so that these fit. -/
theorem Tallied.fits (h : Tallied past x s c) : Fits past x s := by
  refine ⟨fun y hy => ?_, h.total ▸ c.total.toNat_lt⟩
  have hpeak := (List.max?_eq_some_iff.mp h.peak).2 _ (List.mem_map_of_mem hy)
  exact Nat.lt_of_le_of_lt hpeak c.peak.toNat_lt

/-! ### what a segment counts is no matter for its run -/

/-- What fits after an operation did before it. -/
theorem Fits.before (h : Fits ((x, op) :: past) y s) : Fits past x s :=
  ⟨fun z hz => h.calls z (List.mem_cons_of_mem y hz),
    Nat.lt_of_le_of_lt ((List.sublist_cons_self _ _).countP_le) h.begun⟩

/-! ### one operation -/

/-- A call begins on a slot of the segment. -/
theorem Tallied.begun (h : Tallied past x s c) (hop : op.isNewPeriod = false)
    (hbegins : beginsIn s (x, op) = true) (hbusy : busyIn s (x.perform op) = busyIn s x + 1)
    (hfits : Fits ((x, op) :: past) (x.perform op) s) :
    Tallied ((x, op) :: past) (x.perform op) s c.started := by
  have hroom := hfits.calls _ (List.mem_cons_self ..)
  have htotal := hfits.begun
  have hperiod := countP_present_le s past
  rw [hbusy, ← h.current] at hroom
  rw [List.countP_cons_of_pos hbegins] at htotal
  have hstarted := Counter.toNat_current_started_of_lt hroom
  have hnow : busyIn s (x.perform op) = c.started.current.toNat := by
    rw [hbusy, ← h.current, hstarted]
  refine ⟨hnow.symm, ?_, ?_, ?_, ?_, ?_⟩
  · refine (max?_cons h.peak).trans ?_
    rw [hnow]
    exact congrArg some (toNat_max_uint32 ..).symm
  · rw [present_cons hop]
    refine (min?_cons h.min).trans ?_
    rw [hnow, hstarted]
    exact congrArg some (Nat.min_eq_left (Nat.le_succ_of_le h.min_le))
  · rw [present_cons hop]
    refine (max?_cons h.max).trans ?_
    rw [hnow]
    exact congrArg some (toNat_max_uint32 ..).symm
  · rw [present_cons hop, List.countP_cons_of_pos hbegins, ← h.period]
    refine (UInt64.toNat_add ..).trans (Nat.mod_eq_of_lt ?_)
    rw [h.period]
    exact Nat.lt_of_le_of_lt (Nat.succ_le_succ hperiod) htotal
  · rw [List.countP_cons_of_pos hbegins, ← h.total]
    refine (UInt64.toNat_add ..).trans (Nat.mod_eq_of_lt ?_)
    rw [h.total]
    exact htotal

/-- Calls may end, and none begins on a slot of the segment. -/
theorem Tallied.fallen (h : Tallied past x s c) (hop : op.isNewPeriod = false)
    (hbegins : beginsIn s (x, op) = false) {now : UInt32}
    (hnow : now.toNat = busyIn s (x.perform op))
    (hbusy : busyIn s (x.perform op) ≤ busyIn s x) :
    Tallied ((x, op) :: past) (x.perform op) s (c.fallen now) := by
  have hnot : ¬ beginsIn s (x, op) = true := by simp [hbegins]
  have hless : busyIn s (x.perform op) ≤ c.current.toNat := h.current ▸ hbusy
  refine ⟨hnow, ?_, ?_, ?_, ?_, ?_⟩
  · have hpeak := Nat.le_trans hless h.current_le_peak
    exact (max?_cons h.peak).trans (congrArg some (Nat.max_eq_left hpeak))
  · rw [present_cons hop]
    refine (min?_cons h.min).trans ?_
    rw [← hnow]
    exact congrArg some (toNat_min_uint32 ..).symm
  · have hmax := Nat.le_trans hless h.current_le_max
    rw [present_cons hop]
    exact (max?_cons h.max).trans (congrArg some (Nat.max_eq_left hmax))
  · rw [present_cons hop, List.countP_cons_of_neg hnot]
    exact h.period
  · rw [List.countP_cons_of_neg hnot]
    exact h.total

/-- A new period begins. -/
theorem Tallied.renewed (h : Tallied past x s c) :
    Tallied ((x, .newPeriod) :: past) (x.perform .newPeriod) s c.newPeriod := by
  have hnow : busyIn s (x.perform .newPeriod) = c.current.toNat := h.current.symm
  have hpresent : present ((x, Operation.newPeriod) :: past) = [] := rfl
  have hnot : ¬ beginsIn s (x, Operation.newPeriod) = true := by simp [beginsIn, started?]
  refine ⟨hnow.symm, ?_, ?_, ?_, ?_, ?_⟩
  · refine (max?_cons h.peak).trans ?_
    rw [hnow]
    exact congrArg some (Nat.max_eq_left h.current_le_peak)
  · rw [hpresent]
    exact congrArg some hnow
  · rw [hpresent]
    exact congrArg some hnow
  · rw [hpresent]
    rfl
  · rw [List.countP_cons_of_neg hnot]
    exact h.total

/-! ## every run -/

/-- What happens elsewhere leaves the slots in use as they are. -/
theorem Elsewhere.busyIn (he : Elsewhere x y) (s : Segment) : busyIn s y = busyIn s x :=
  congrArg (List.countP _) he.slots

/-- What goes on elsewhere leaves the counters right. -/
theorem Tallied.elsewhere (h : Tallied past x s c) (he : Elsewhere x y) : Tallied past y s c := by
  have hreadings : ∀ past, (moments past y).map (busyIn s) = (moments past x).map (busyIn s) :=
    fun _ => by simp [moments, he.busyIn s]
  obtain ⟨hcurrent, hpeak, hmin, hmax, hperiod, htotal⟩ := h
  refine ⟨hcurrent.trans (he.busyIn s).symm, ?_, ?_, ?_, hperiod, htotal⟩
  · rwa [hreadings]
  · rwa [hreadings]
  · rwa [hreadings]

/-- It leaves them fitting as well. -/
theorem Fits.elsewhere (h : Fits past y s) (he : Elsewhere x y) : Fits past x s := by
  obtain ⟨hnow, hbefore⟩ := List.forall_mem_cons.mp h.calls
  exact ⟨List.forall_mem_cons.mpr ⟨he.busyIn s ▸ hnow, hbefore⟩, h.begun⟩

end Exchange

end Switchboard
