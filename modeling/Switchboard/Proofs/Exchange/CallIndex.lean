import Mathlib.Data.List.Nodup
import Mathlib.Data.List.Perm.Subperm
import Switchboard.Proofs.Exchange.Chronicle

/-!
# Switchboard.Proofs.Exchange.CallIndex

The index of calls against the calls on slots.

1. A call that the index lists is on its slot, and no identity is listed twice
   (`Indexed`).  So the index never lists more calls than there are.
2. The index lists every call (`Complete`) as long as no two calls share an
   identity.  A call that ends takes its identity out of the index, whoever
   else has it, and one that begins takes over the entry.
-/

namespace Switchboard

/-! ## the index in the accounts -/

namespace Accounts

variable {a b : Accounts} {id : SlotId} {cid : String}

/-- Every listed call is on its slot, and no identity is listed twice. -/
structure Indexed (a : Accounts) : Prop where
  nodup : (a.calls.map (·.1)).Nodup
  carries : ∀ cid id, (cid, id) ∈ a.calls → a.Carries id cid

/-- Every call is listed. -/
def Complete (a : Accounts) : Prop := ∀ id cid, a.Carries id cid → (cid, id) ∈ a.calls

/-- No two calls have the same identity. -/
def Distinct (a : Accounts) : Prop :=
  ∀ id other cid, a.Carries id cid → a.Carries other cid → id = other

/-- A call that is opened is carried beside the others. -/
theorem carries_opened (h : a.Vacant id) {j : SlotId} {c : String} :
    (a.opened id cid).Carries j c ↔ (j = id ∧ c = cid) ∨ (j ≠ id ∧ a.Carries j c) := by
  have hid := (List.getElem?_eq_some_iff.mp h).1
  unfold Carries opened
  by_cases hj : j = id
  · subst hj
    simp [List.getElem?_set_self hid, eq_comm]
  · simp [List.getElem?_set_ne (Ne.symm hj), hj]

/-- A call that is closed is carried no more, and the others are. -/
theorem carries_closed (h : a.Carries id cid) {j : SlotId} {c : String} :
    (a.closed id cid).Carries j c ↔ j ≠ id ∧ a.Carries j c := by
  have hid := (List.getElem?_eq_some_iff.mp h).1
  unfold Carries closed
  by_cases hj : j = id
  · subst hj
    simp [List.getElem?_set_self hid]
  · simp [List.getElem?_set_ne (Ne.symm hj), hj]

/-- A slot carries one call. -/
theorem Carries.unique {c : String} (h : a.Carries id cid) (hc : a.Carries id c) : c = cid := by
  simpa [eq_comm] using h.symm.trans hc

/-- A vacant slot carries no call. -/
theorem Vacant.not_carries (h : a.Vacant id) : ¬ a.Carries id cid := by
  intro hc
  simpa using h.symm.trans hc

/-! ## what the index says -/

/-- The index stays one when a call is opened. -/
theorem Indexed.opened (h : a.Indexed) (hid : a.Vacant id) (cid : String) :
    (a.opened id cid).Indexed where
  nodup := by
    refine List.nodup_cons.mpr ⟨?_, h.nodup.sublist (List.filter_sublist.map _)⟩
    simp
  carries := by
    intro c j hj
    rw [carries_opened hid]
    rcases List.mem_cons.mp hj with heq | hj
    · obtain ⟨rfl, rfl⟩ := Prod.mk.inj heq
      exact .inl ⟨rfl, rfl⟩
    · have hcarries := h.carries c j (List.mem_filter.mp hj).1
      exact .inr ⟨fun hji => hid.not_carries (hji ▸ hcarries), hcarries⟩

/-- It stays one when a call is closed. -/
theorem Indexed.closed (h : a.Indexed) (hid : a.Carries id cid) : (a.closed id cid).Indexed where
  nodup := h.nodup.sublist (List.filter_sublist.map _)
  carries := by
    intro c j hj
    obtain ⟨hmem, hc⟩ := List.mem_filter.mp hj
    have hcarries := h.carries c j hmem
    have hne : c ≠ cid := by simpa using hc
    exact (carries_closed hid).mpr ⟨fun hji => hne (hid.unique (hji ▸ hcarries)), hcarries⟩

/-- Every step keeps the index true. -/
theorem Indexed.step (h : a.Indexed) (hstep : Step a b) : b.Indexed := by
  cases hstep with
  | lapse hl =>
      cases hl with
      | same hb => exact hb ▸ h
      | ended id cid hid hb => exact hb ▸ h.closed hid
  | begun id cid hid hb => exact hb ▸ h.opened hid cid
  | renewed hb => exact hb ▸ ⟨h.nodup, h.carries⟩

/-! ## what the index leaves out -/

/-- If every call is found, no two have one identity. -/
theorem Indexed.distinct (h : a.Indexed) (hall : a.Complete) : a.Distinct := by
  intro i j cid hi hj
  have heq := List.inj_on_of_nodup_map h.nodup (hall i cid hi) (hall j cid hj) rfl
  exact (Prod.mk.inj heq).2

/-- The index stays complete when a call begins that differs from the others. -/
theorem Complete.opened (h : a.Complete) (hid : a.Vacant id)
    (hdistinct : (a.opened id cid).Distinct) : (a.opened id cid).Complete := by
  intro j c hj
  have hself : (a.opened id cid).Carries id cid := (carries_opened hid).mpr (.inl ⟨rfl, rfl⟩)
  rcases (carries_opened hid).mp hj with ⟨rfl, rfl⟩ | ⟨hne, hcarries⟩
  · exact List.mem_cons_self ..
  · have hc : c ≠ cid := fun hc => hne (hdistinct j id cid (hc ▸ hj) hself)
    exact List.mem_cons_of_mem _ (List.mem_filter.mpr ⟨h j c hcarries, by simpa using hc⟩)

/-- The index stays complete when a call ends, for no other call has its
identity. -/
theorem Complete.closed (h : a.Complete) (hi : a.Indexed) (hid : a.Carries id cid) :
    (a.closed id cid).Complete := by
  intro j c hj
  obtain ⟨hne, hcarries⟩ := (carries_closed hid).mp hj
  have hc : c ≠ cid := fun hc => hne (hi.distinct h j id cid (hc ▸ hcarries) hid)
  exact List.mem_filter.mpr ⟨h j c hcarries, by simpa using hc⟩

/-- Where calls lapse, those left are still found. -/
theorem Complete.lapses (h : a.Complete) (hi : a.Indexed) (hs : Lapses a b) : b.Complete := by
  have hboth : b.Complete ∧ b.Indexed := by
    induction hs with
    | refl => exact ⟨h, hi⟩
    | tail _ hlast ih =>
        refine ⟨?_, ih.2.step (.lapse hlast)⟩
        cases hlast with
        | same hb => exact hb ▸ ih.1
        | ended id cid hid hb => exact hb ▸ ih.1.closed ih.2 hid
  exact hboth.1

/-! ## counting -/

/-- The calls on slots, as they would be listed. -/
def onSlots (a : Accounts) : List (String × SlotId) := a.carried.filterMap fun c => c.2.map (·, c.1)

/-- There are as many calls on slots as slots that carry one. -/
theorem length_onSlots (a : Accounts) : a.onSlots.length = a.carried.countP (·.2.isSome) := by
  unfold onSlots
  rw [List.length_filterMap_eq_countP]
  simp

/-- Slots have the numbers of their places. -/
def Numbered (a : Accounts) : Prop :=
  ∀ (id : SlotId) (c : SlotId × Option String), a.carried[id]? = some c → c.1 = id

/-- A call is listed on a slot exactly if the slot carries it. -/
theorem Numbered.mem_onSlots (h : a.Numbered) : (cid, id) ∈ a.onSlots ↔ a.Carries id cid := by
  unfold onSlots
  rw [List.mem_filterMap]
  constructor
  · rintro ⟨⟨j, c⟩, hmem, hc⟩
    obtain ⟨i, hi⟩ := List.getElem?_of_mem hmem
    obtain ⟨d, rfl, hd⟩ := Option.map_eq_some_iff.mp hc
    obtain ⟨rfl, rfl⟩ := Prod.mk.inj hd
    obtain rfl : j = i := h i _ hi
    exact hi
  · intro hc
    exact ⟨(id, some cid), List.mem_of_getElem? hc, rfl⟩

/-- No call is listed twice. -/
theorem Numbered.nodup_onSlots (h : a.Numbered) : a.onSlots.Nodup := by
  have hcarried : a.carried.Nodup := by
    rw [List.nodup_iff_getElem?_ne_getElem?]
    intro i j hij hj heq
    have hat := List.getElem?_eq_getElem hj
    exact Nat.ne_of_lt hij ((h i _ (heq.trans hat)).symm.trans (h j _ hat))
  refine hcarried.filterMap fun c d entry hc hd => ?_
  obtain ⟨e, he, rfl⟩ := Option.map_eq_some_iff.mp hc
  obtain ⟨f, hf, heq⟩ := Option.map_eq_some_iff.mp hd
  obtain ⟨rfl, hslot⟩ := Prod.mk.inj heq
  exact Prod.ext hslot.symm (he.trans hf.symm)

/-- Every call of the index is on a slot. -/
theorem Indexed.subperm (h : a.Indexed) (hn : a.Numbered) : a.calls.Subperm a.onSlots :=
  List.subperm_of_subset (.of_map _ h.nodup) fun _ hmem =>
    hn.mem_onSlots.mpr (h.carries _ _ hmem)

/-- The index lists all calls if it lists as many as there are, and only then. -/
theorem Indexed.complete_iff (h : a.Indexed) (hn : a.Numbered) :
    a.Complete ↔ a.calls.length = a.onSlots.length := by
  constructor
  · intro hall
    have hback : a.onSlots.Subperm a.calls :=
      List.subperm_of_subset hn.nodup_onSlots fun _ hmem => hall _ _ (hn.mem_onSlots.mp hmem)
    exact Nat.le_antisymm (h.subperm hn).length_le hback.length_le
  · intro hlength id cid hc
    have hperm := (h.subperm hn).perm_of_length_le (Nat.le_of_eq hlength.symm)
    exact hperm.mem_iff.mpr (hn.mem_onSlots.mpr hc)

end Accounts

/-! ## the index of an exchange -/

namespace Exchange

variable {σ : Type} {x y : Exchange σ} {past : List (Exchange σ × Operation)}

/-- The index agrees with the slots: it has as many calls as slots are in use,
finds a call wherever a slot carries one, and finds no other. -/
structure IndexExact (x : Exchange σ) : Prop where
  count : x.activeCalls = x.slots.countP (·.isBusy)
  found : ∀ s ∈ x.slots, ∀ cid, s.cid? = some cid →
    ∃ t ∈ x.slots, t.cid? = some cid ∧ x.findCall? cid = some t.id
  absent : ∀ cid, (∀ s ∈ x.slots, s.cid? ≠ some cid) → x.findCall? cid = none

/-- No two slots carry calls with the same identity. -/
def CallsDistinct (x : Exchange σ) : Prop :=
  ∀ s ∈ x.slots, ∀ t ∈ x.slots, s.cid?.isSome → s.cid? = t.cid? → s.id = t.id

instance (x : Exchange σ) : Decidable x.CallsDistinct :=
  inferInstanceAs <| Decidable <|
    ∀ s ∈ x.slots, ∀ t ∈ x.slots, s.cid?.isSome → s.cid? = t.cid? → s.id = t.id

/-- A slot carries a call, as the accounts have it. -/
theorem Lawful.carries_iff (h : x.Lawful) {id : SlotId} {cid : String} :
    x.accounts.Carries id cid ↔ ∃ s ∈ x.slots, s.id = id ∧ s.cid? = some cid := by
  unfold Accounts.Carries accounts
  rw [List.getElem?_map]
  constructor
  · intro hc
    obtain ⟨s, hs, heq⟩ := Option.map_eq_some_iff.mp hc
    obtain ⟨hid, hcid⟩ := Prod.mk.inj heq
    exact ⟨s, List.mem_of_getElem? hs, hid, hcid⟩
  · rintro ⟨s, hs, rfl, hcid⟩
    obtain ⟨i, hi⟩ := List.getElem?_of_mem hs
    rw [h.numbered i s hi, hi, Option.map_some, h.numbered i s hi, hcid]

/-- Slots are listed under their own numbers. -/
theorem Lawful.numbered_accounts (h : x.Lawful) : x.accounts.Numbered := by
  intro id c hc
  obtain ⟨s, hs, rfl⟩ := Option.map_eq_some_iff.mp ((List.getElem?_map ..).symm.trans hc)
  exact h.numbered id s hs

/-- There are as many calls on slots as busy slots. -/
theorem Lawful.length_onSlots (h : x.Lawful) :
    x.accounts.onSlots.length = x.slots.countP (·.isBusy) := by
  rw [Accounts.length_onSlots]
  unfold accounts
  rw [List.countP_map]
  refine List.countP_congr fun slot hslot => ?_
  simp [h.isBusy_eq hslot]

/-- Calls are distinct exactly if their accounts are. -/
theorem Lawful.callsDistinct_iff (h : x.Lawful) : x.CallsDistinct ↔ x.accounts.Distinct := by
  constructor
  · intro hx i j cid hi hj
    obtain ⟨s, hs, rfl, hscid⟩ := h.carries_iff.mp hi
    obtain ⟨t, ht, rfl, htcid⟩ := h.carries_iff.mp hj
    exact hx s hs t ht (by rw [hscid]; rfl) (hscid.trans htcid.symm)
  · intro ha s hs t ht hsome heq
    obtain ⟨cid, hcid⟩ := Option.isSome_iff_exists.mp hsome
    exact ha s.id t.id cid (h.carries_iff.mpr ⟨s, hs, rfl, hcid⟩)
      (h.carries_iff.mpr ⟨t, ht, rfl, heq.symm.trans hcid⟩)

/-- What the index says is true in every exchange that can be reached. -/
theorem Reach.indexed (h : Reach x) : x.accounts.Indexed :=
  h.of_steps (fun _ _ _ _ _ => ⟨List.nodup_nil, fun _ _ hmem => nomatch hmem⟩)
    fun _ _ ha hstep => ha.step hstep

/-- A call that the index finds is on the slot that it names. -/
theorem Reach.carries_of_findCall? (h : Reach x) {cid : String} {id : SlotId}
    (hfound : x.findCall? cid = some id) : x.accounts.Carries id cid := by
  obtain ⟨before, after, hsplit, -⟩ := List.lookup_eq_some_iff.mp hfound
  refine h.indexed.carries cid id ?_
  rw [show x.accounts.calls = before ++ (cid, id) :: after from hsplit]
  simp

/-- The index is exact if it lists every call, and only then. -/
theorem Reach.indexExact_iff (h : Reach x) : x.IndexExact ↔ x.accounts.Complete := by
  have hlawful := h.lawful
  rw [h.indexed.complete_iff hlawful.numbered_accounts, hlawful.length_onSlots]
  constructor
  · intro hx
    exact hx.count
  · intro hcount
    have hall := (h.indexed.complete_iff hlawful.numbered_accounts).mpr
      (hcount.trans hlawful.length_onSlots.symm)
    refine ⟨hcount, fun s hs cid hcid => ?_, fun cid hnone => ?_⟩
    · have hmem := hall s.id cid (hlawful.carries_iff.mpr ⟨s, hs, rfl, hcid⟩)
      have hsome : (x.findCall? cid).isSome :=
        List.lookup_isSome_iff.mpr ⟨_, hmem, beq_self_eq_true cid⟩
      obtain ⟨id, hid⟩ := Option.isSome_iff_exists.mp hsome
      obtain ⟨t, ht, rfl, htcid⟩ := hlawful.carries_iff.mp (h.carries_of_findCall? hid)
      exact ⟨t, ht, htcid, hid⟩
    · by_contra hfound
      obtain ⟨id, hid⟩ := Option.ne_none_iff_exists'.mp hfound
      obtain ⟨t, ht, -, htcid⟩ := hlawful.carries_iff.mp (h.carries_of_findCall? hid)
      exact hnone t ht htcid

/-! ## along a run -/

/-- What an operation leaves complete, if the calls after it are distinct. -/
theorem Performed.complete {op : Operation} (h : Performed x op) (hi : x.accounts.Indexed)
    (hall : x.accounts.Complete) (hdistinct : (x.perform op).accounts.Distinct) :
    (x.perform op).accounts.Complete := by
  cases h with
  | begun id cid _ _ hvacant hopened =>
      rw [hopened] at hdistinct ⊢
      exact hall.opened hvacant hdistinct
  | lapsed _ _ hs => exact hall.lapses hi hs
  | renewed hop => exact hop ▸ hall

/-- The index stays complete as long as the calls are distinct. -/
theorem Chronicle.complete (h : Chronicle past x)
    (hdistinct : ∀ y ∈ moments past x, y.CallsDistinct) :
    ∀ y ∈ moments past x, y.accounts.Complete := by
  induction h with
  | build hb =>
      obtain ⟨segments, scripts, -, haccounts⟩ := accounts_of_build hb
      intro y hy
      rw [List.mem_singleton.mp hy, haccounts]
      intro id cid hc
      exact nomatch carried_unstarted _ _ segments scripts _ (List.mem_of_getElem? hc)
  | perform op hpast ih =>
      obtain ⟨hlast, hbefore⟩ := List.forall_mem_cons.mp hdistinct
      have hall := ih hbefore
      refine List.forall_mem_cons.mpr ⟨?_, hall⟩
      have hreach := hpast.reach
      have hnow := hall _ (List.mem_cons_self ..)
      refine (hreach.lawful.performed op).complete hreach.indexed hnow ?_
      exact (hreach.perform op).lawful.callsDistinct_iff.mp hlast
  | elsewhere hpast he ih =>
      obtain ⟨hlast, hbefore⟩ := List.forall_mem_cons.mp hdistinct
      have hsame : CallsDistinct _ := fun s hs t ht => hlast s (he.slots ▸ hs) t (he.slots ▸ ht)
      obtain ⟨hnow, hpast⟩ := List.forall_mem_cons.mp
        (ih (List.forall_mem_cons.mpr ⟨hsame, hbefore⟩))
      exact List.forall_mem_cons.mpr ⟨he.accounts ▸ hnow, hpast⟩

/-- The index of calls is exact at every moment of a run if at no moment two
calls had the same identity, and only then.  So where they are distinct, the end
of a call never makes another one impossible to find.  Whatever the identities
are, the index never has more calls than there are, and a call that it finds is
on the slot that it names. -/
theorem call_index_exact_iff (h : Chronicle past x) :
    ((∀ y ∈ moments past x, y.IndexExact) ↔ ∀ y ∈ moments past x, y.CallsDistinct) ∧
      ∀ y ∈ moments past x, y.activeCalls ≤ y.slots.countP (·.isBusy) ∧
        ∀ cid id, y.findCall? cid = some id → ∃ s ∈ y.slots, s.id = id ∧ s.cid? = some cid := by
  refine ⟨⟨fun hexact y hy => ?_, fun hdistinct y hy => ?_⟩, fun y hy => ?_⟩
  · have hreach := h.reach_of_mem y hy
    have hall := hreach.indexExact_iff.mp (hexact y hy)
    exact hreach.lawful.callsDistinct_iff.mpr (hreach.indexed.distinct hall)
  · exact (h.reach_of_mem y hy).indexExact_iff.mpr (h.complete hdistinct y hy)
  · have hreach := h.reach_of_mem y hy
    have hlawful := hreach.lawful
    refine ⟨?_, fun cid id hid => hlawful.carries_iff.mp (hreach.carries_of_findCall? hid)⟩
    rw [← hlawful.length_onSlots]
    exact (hreach.indexed.subperm hlawful.numbered_accounts).length_le

/-- A call with an identity of its own is found after the other has ended. -/
theorem call_index_exact_own_cid : ∃ (past : List (Exchange Unit × Operation)) (x : Exchange Unit),
    Chronicle past x ∧ past.length = 3 ∧ (∀ y ∈ moments past x, y.IndexExact) ∧
      x.activeCalls = 1 ∧ x.findCall? "b" = some 1 ∧ x.findCall? "a" = none := by
  let start (cid : String) : Operation := .startCall none { Station.trialCall with cid := some cid }
  let ops : List Operation := [start "a", start "b", .post 0 .disable]
  have hrun : (build trialConfig (trialPlan "@main\n  sleep 60\n  exit\n")).toOption.map
      (fun x => let run := recorded [] x ops
        (run.1.length, decide (∀ y ∈ moments run.1 run.2, y.CallsDistinct), run.2.activeCalls,
          run.2.findCall? "b", run.2.findCall? "a")) =
      some (3, true, 1, some 1, none) := by decide +kernel
  obtain ⟨x, hbuild, hseen⟩ := exists_build hrun
  obtain ⟨hlength, hseen⟩ := Prod.mk.inj hseen
  obtain ⟨hdistinct, hseen⟩ := Prod.mk.inj hseen
  obtain ⟨hactive, hseen⟩ := Prod.mk.inj hseen
  obtain ⟨hb, ha⟩ := Prod.mk.inj hseen
  have hpast := (Chronicle.build hbuild).recorded ops
  have hexact := (call_index_exact_iff hpast).1.mpr (of_decide_eq_true hdistinct)
  exact ⟨_, _, hpast, hlength, hexact, hactive, hb, ha⟩

/-- Of two calls with the same identity, the one that ends takes the other out of
the index: nobody finds the call that is still there. -/
theorem shared_cid_unfindable : ∃ x : Exchange Unit, Reach x ∧ ¬ x.IndexExact ∧
    x.activeCalls = 0 ∧ x.slots.map (·.cid?) = [none, some "c", none] ∧ x.findCall? "c" = none := by
  let start : Operation := .startCall none { Station.trialCall with cid := some "c" }
  let ops : List Operation := [start, start, .post 0 .disable]
  have hrun : (build trialConfig (trialPlan "@main\n  sleep 60\n  exit\n")).toOption.map
      (fun x => ((x.performAll ops).activeCalls, (x.performAll ops).slots.map (·.cid?),
        (x.performAll ops).findCall? "c", (x.performAll ops).slots.countP (·.isBusy))) =
      some (0, [none, some "c", none], none, 1) := by decide +kernel
  obtain ⟨x, hbuild, hseen⟩ := exists_build hrun
  obtain ⟨hactive, hseen⟩ := Prod.mk.inj hseen
  obtain ⟨hcids, hseen⟩ := Prod.mk.inj hseen
  obtain ⟨hfound, hbusy⟩ := Prod.mk.inj hseen
  refine ⟨_, (Reach.build hbuild).performAll ops, fun hexact => ?_, hactive, hcids, hfound⟩
  have hcount := hexact.count
  omega

end Exchange

end Switchboard
