import Mathlib.Logic.Function.Basic
import Switchboard.Proofs.Segment.Search
import Switchboard.Proofs.Slot.Books

/-!
# Switchboard.Proofs.IdlePool.Discipline

How free slots are picked.

1. A pool is asked to list a slot that becomes free at some time, to strike a slot
   off, or to pick one of some members.  `Does` says what is done then, in terms of
   the times since when slots are free: nobody is overlooked, the one picked is the
   lowest, the highest, or the one free since the earliest time, and only that one
   is struck off.
2. The pool keeps no times.  It does the same because its order is that of the times
   (`Keeps`), as long as these increase (`Keeps.serve`, `Keeps.serveAll`).
3. If slots are only picked as those free for longest, of all, the pool is a queue:
   those that were picked and those still there are those that came, in their order
   (`queue_serveAll`).
4. `picked_by_policy` puts this together.  Members in increasing order may be looked
   up by halves.
-/

namespace Switchboard.IdlePool

/-! ## requests -/

/-- What is asked of a pool. -/
inductive Request where
  /-- A slot has become free at a time. -/
  | insert (id : SlotId) (now : Nat)
  | remove (id : SlotId)
  | take (members : Option (List SlotId)) (policy : Policy)

/-- What a pool answers. -/
inductive Reply where
  | listed (isNew : Bool)
  | struck (wasListed : Bool)
  | taken (id : Option SlotId)
deriving DecidableEq

/-- The pool after a request, and the answer. -/
def serve (p : IdlePool) : Request → IdlePool × Reply
  | .insert id _ => ((p.insert id).1, .listed (p.insert id).2)
  | .remove id => ((p.remove id).1, .struck (p.remove id).2)
  | .take members policy => ((p.take members policy).1, .taken (p.take members policy).2)

/-- The pool after requests, and the answers. -/
def serveAll (p : IdlePool) : List Request → IdlePool × List Reply
  | [] => (p, [])
  | r :: rest => (((p.serve r).1.serveAll rest).1, (p.serve r).2 :: ((p.serve r).1.serveAll rest).2)

/-- The times at which slots become free. -/
def times : List Request → List Nat
  | [] => []
  | .insert _ now :: rest => now :: times rest
  | _ :: rest => times rest

/-! ## what is to be done -/

/-- Since when each slot is free, if it is. -/
abbrev Since := SlotId → Option Nat

/-- A slot may be picked: it is one of the members, if there are any. -/
def Among (members : Option (List SlotId)) (id : SlotId) : Prop := ∀ ids ∈ members, id ∈ ids

/-- By a policy a slot that is free since `t` comes before one that is free since `u`. -/
def Precedes (policy : Policy) (id t other u : Nat) : Prop :=
  match policy with
  | .first => id ≤ other
  | .last => other ≤ id
  | .longestIdle => t ≤ u

/-- A request changes the times since when slots are free, and is answered. -/
inductive Does (since : Since) : Request → Reply → Since → Prop
  | listed {id : SlotId} {now : Nat} : since id = none →
      Does since (.insert id now) (.listed true) (Function.update since id (some now))
  | kept {id : SlotId} {now : Nat} : since id ≠ none →
      Does since (.insert id now) (.listed false) since
  | struck {id : SlotId} : since id ≠ none →
      Does since (.remove id) (.struck true) (Function.update since id none)
  | absent {id : SlotId} : since id = none → Does since (.remove id) (.struck false) since
  | nobody {members : Option (List SlotId)} {policy : Policy} :
      (∀ id, Among members id → since id = none) →
      Does since (.take members policy) (.taken none) since
  | picked {members : Option (List SlotId)} {policy : Policy} {id : SlotId} {t : Nat} :
      Among members id → since id = some t →
      (∀ other u, Among members other → since other = some u → Precedes policy id t other u) →
      Does since (.take members policy) (.taken (some id)) (Function.update since id none)

/-- Requests are answered one after the other. -/
inductive DoesAll : Since → List Request → List Reply → Since → Prop
  | nil {since : Since} : DoesAll since [] [] since
  | cons {since next last : Since} {r : Request} {reply : Reply} {rest : List Request}
      {replies : List Reply} : Does since r reply next → DoesAll next rest replies last →
      DoesAll since (r :: rest) (reply :: replies) last

/-! ## what the pool does -/

/-- A pool lists the slots that are free, each once, in the order of the times since
when they are. -/
structure Keeps (p : IdlePool) (since : Since) : Prop where
  listed : ∀ id, id ∈ p.slots ↔ since id ≠ none
  nodup : p.slots.Nodup
  inOrder : p.slots.Pairwise fun a b => ∀ t u, since a = some t → since b = some u → t < u

variable {p : IdlePool} {since : Since} {id : SlotId}

theorem mem_candidates {members : Option (List SlotId)} :
    id ∈ p.candidates members ↔ id ∈ p.slots ∧ Among members id := by
  cases members <;> simp [candidates, Among]

/-- The members that are free stand in the order of the pool. -/
theorem candidates_sublist (p : IdlePool) (members : Option (List SlotId)) :
    (p.candidates members).Sublist p.slots := by
  cases members with
  | none => exact .refl _
  | some ids => exact List.filter_sublist

namespace Keeps

theorem empty : Keeps .empty fun _ => none := ⟨by simp [IdlePool.empty], .nil, .nil⟩

/-- A slot that becomes free after all others is listed last. -/
theorem insert {now : Nat} (h : Keeps p since) (hid : since id = none)
    (hnow : ∀ other t, since other = some t → t < now) :
    Keeps ⟨p.slots ++ [id]⟩ (Function.update since id (some now)) := by
  have hnot : id ∉ p.slots := by simp [h.listed, hid]
  have hother : ∀ other ∈ p.slots, Function.update since id (some now) other = since other := by
    rintro other hmem
    exact Function.update_of_ne (ne_of_mem_of_not_mem hmem hnot) _ _
  refine ⟨fun other => ?_, ?_, List.pairwise_append.mpr ⟨?_, by simp, ?_⟩⟩
  · by_cases heq : other = id
    · simp [heq]
    · simp [heq, h.listed]
  · exact List.nodup_append.mpr ⟨h.nodup, by simp, by grind⟩
  · refine h.inOrder.imp_of_mem fun ha hb hlt => ?_
    rwa [hother _ ha, hother _ hb]
  · intro a ha b hb t u ht hu
    obtain rfl := List.mem_singleton.mp hb
    rw [hother a ha] at ht
    obtain rfl : now = u := by simpa using hu
    exact hnow a t ht

/-- A slot that is struck off leaves the others in order. -/
theorem remove (h : Keeps p since) (id : SlotId) :
    Keeps (p.remove id).1 (Function.update since id none) := by
  have hsub : (p.slots.erase id).Sublist p.slots := List.erase_sublist
  refine ⟨fun other => ?_, h.nodup.erase id, ?_⟩
  · by_cases heq : other = id
    · subst heq
      simp [not_mem_remove h.nodup]
    · rw [mem_remove_of_ne heq, h.listed, Function.update_of_ne heq]
  · refine (h.inOrder.sublist hsub).imp_of_mem fun {a b} ha hb hlt t u ht hu => ?_
    have hne : ∀ other ∈ p.slots.erase id, other ≠ id := fun other hmem =>
      ne_of_mem_of_not_mem hmem h.nodup.not_mem_erase
    rw [Function.update_of_ne (hne a ha)] at ht
    rw [Function.update_of_ne (hne b hb)] at hu
    exact hlt t u ht hu

/-- The slot that a policy chooses comes before all others that may be picked. -/
theorem precedes {members : Option (List SlotId)} {policy : Policy} (h : Keeps p since)
    (hc : policy.choose? (p.candidates members) = some id) {t : Nat} (ht : since id = some t)
    {other u : Nat} (hmem : Among members other) (hu : since other = some u) :
    Precedes policy id t other u := by
  have hother : other ∈ p.candidates members :=
    mem_candidates.mpr ⟨(h.listed other).mpr (by simp [hu]), hmem⟩
  cases policy with
  | first => exact (List.min?_eq_some_iff.mp hc).2 other hother
  | last => exact (List.max?_eq_some_iff.mp hc).2 other hother
  | longestIdle =>
      obtain ⟨later, hlater⟩ := List.head?_eq_some_iff.mp hc
      rw [hlater] at hother
      rcases List.mem_cons.mp hother with rfl | hother
      · exact Nat.le_of_eq (Option.some.inj (ht.symm.trans hu))
      · have hordered := h.inOrder.sublist (p.candidates_sublist members)
        rw [hlater, List.pairwise_cons] at hordered
        exact Nat.le_of_lt (hordered.1 other hother t u ht hu)

/-- A request is served as it should be. -/
theorem serve (h : Keeps p since) (r : Request)
    (hnow : ∀ now ∈ times [r], ∀ id t, since id = some t → t < now) :
    ∃ next, Does since r (p.serve r).2 next ∧ Keeps (p.serve r).1 next ∧
      ∀ id t, next id = some t → since id = some t ∨ t ∈ times [r] := by
  cases r with
  | insert id now =>
      by_cases hid : since id = none
      · have hnot : id ∉ p.slots := by simp [h.listed, hid]
        simp only [IdlePool.serve, insert_eq_of_not_mem hnot]
        refine ⟨_, .listed hid, h.insert hid (hnow now (by simp [times])), fun other t ht => ?_⟩
        by_cases heq : other = id
        · subst heq
          exact .inr (by simpa [times] using ht.symm)
        · exact .inl (by simpa [heq] using ht)
      · simp only [IdlePool.serve, insert_eq_of_mem ((h.listed id).mpr hid)]
        exact ⟨_, .kept hid, h, fun _ _ ht => .inl ht⟩
  | remove id =>
      by_cases hid : since id = none
      · have hnot : id ∉ p.slots := by simp [h.listed, hid]
        have hsame : (p.remove id).1 = p := by simp [IdlePool.remove, List.erase_of_not_mem hnot]
        simp only [IdlePool.serve, hsame]
        exact ⟨since, by simpa [IdlePool.remove, contains, hnot] using .absent hid, h,
          fun _ _ ht => .inl ht⟩
      · have hmem : id ∈ p.slots := (h.listed id).mpr hid
        refine ⟨_, by simpa [IdlePool.serve, IdlePool.remove, contains, hmem] using .struck hid,
          h.remove id, fun other t ht => .inl ?_⟩
        by_cases heq : other = id
        · simp [heq] at ht
        · simpa [heq] using ht
  | take members policy =>
      simp only [IdlePool.serve, IdlePool.take]
      cases hc : policy.choose? (p.candidates members) with
      | none =>
          have hnil : p.candidates members = [] := by
            cases policy <;> simpa [Policy.choose?] using hc
          refine ⟨since, .nobody fun id hmem => ?_, h, fun _ _ ht => .inl ht⟩
          have hnot : id ∉ p.candidates members := by simp [hnil]
          simpa [mem_candidates, hmem, h.listed] using hnot
      | some id =>
          -- the order of the list is that of the times, so the policy picks by them
          obtain ⟨hlisted, hmem⟩ := mem_candidates.mp (mem_of_choose? hc)
          obtain ⟨t, ht⟩ := Option.ne_none_iff_exists'.mp ((h.listed id).mp hlisted)
          refine ⟨_, .picked hmem ht fun _ _ => h.precedes hc ht, h.remove id,
            fun other u hu => .inl ?_⟩
          by_cases heq : other = id
          · simp [heq] at hu
          · simpa [heq] using hu

theorem times_cons (r : Request) (rest : List Request) :
    times (r :: rest) = times [r] ++ times rest := by
  cases r <;> simp [times]

/-- Requests are served as they should be, if slots become free one after the other. -/
theorem serveAll (h : Keeps p since) (requests : List Request)
    (hclock : (times requests).Pairwise (· < ·))
    (hnow : ∀ now ∈ times requests, ∀ id t, since id = some t → t < now) :
    ∃ last, DoesAll since requests (p.serveAll requests).2 last ∧
      Keeps (p.serveAll requests).1 last := by
  induction requests generalizing p since with
  | nil => exact ⟨since, .nil, h⟩
  | cons r rest ih =>
      rw [times_cons] at hclock hnow
      obtain ⟨-, hrest, hacross⟩ := List.pairwise_append.mp hclock
      obtain ⟨hfirst, hlater⟩ := List.forall_mem_append.mp hnow
      obtain ⟨next, hdoes, hkeeps, htimes⟩ := h.serve r hfirst
      obtain ⟨last, hall, hlast⟩ := ih hkeeps hrest fun now hmem id t ht => by
        rcases htimes id t ht with hold | hnew
        · exact hlater now hmem id t hold
        · exact hacross t hnew now hmem
      exact ⟨last, .cons hdoes hall, hlast⟩

end Keeps

/-! ## a queue -/

/-- The slots that came: those that were listed, and had not been. -/
def entered : List Request → List Reply → List SlotId
  | .insert id _ :: rest, .listed true :: replies => id :: entered rest replies
  | _ :: rest, _ :: replies => entered rest replies
  | _, _ => []

/-- The slots that were picked. -/
def served : List Reply → List SlotId
  | [] => []
  | .taken (some id) :: replies => id :: served replies
  | _ :: replies => served replies

/-- A request to a queue: no slots are picked but those free for longest, of all. -/
def Request.Queues : Request → Prop
  | .take members policy => members = none ∧ policy = .longestIdle
  | _ => True

/-- Slots that come to a queue are served in their order, or were struck off. -/
theorem queue_sublist (p : IdlePool) {requests : List Request}
    (h : ∀ r ∈ requests, r.Queues) :
    (served (p.serveAll requests).2 ++ (p.serveAll requests).1.slots).Sublist
      (p.slots ++ entered requests (p.serveAll requests).2) := by
  induction requests generalizing p with
  | nil => simp [serveAll, served, entered]
  | cons r rest ih =>
      obtain ⟨hr, hrest⟩ := List.forall_mem_cons.mp h
      have hlater := ih (p.serve r).1 hrest
      cases r with
      | insert id now =>
          by_cases hid : id ∈ p.slots
          · simpa [serveAll, serve, insert_eq_of_mem hid, served, entered] using hlater
          · simpa [serveAll, serve, insert_eq_of_not_mem hid, served, entered] using hlater
      | remove id =>
          have herase : (p.slots.erase id).Sublist p.slots := List.erase_sublist
          exact hlater.trans (herase.append_right _)
      | take members policy =>
          obtain ⟨rfl, rfl⟩ := hr
          cases hslots : p.slots with
          | nil =>
              simpa [serveAll, serve, take, candidates, Policy.choose?, hslots, served, entered]
                using hlater
          | cons id others =>
              simpa [serveAll, serve, take, candidates, Policy.choose?, hslots, served, entered,
                IdlePool.remove] using hlater

/-- Every slot that came was picked, was struck off, or is still there. -/
theorem length_serveAll (p : IdlePool) (requests : List Request) :
    (served (p.serveAll requests).2).length + (p.serveAll requests).1.slots.length +
        (p.serveAll requests).2.count (.struck true) =
      p.slots.length + (entered requests (p.serveAll requests).2).length := by
  induction requests generalizing p with
  | nil => simp [serveAll, served, entered]
  | cons r rest ih =>
      have hlater := ih (p.serve r).1
      cases r with
      | insert id now =>
          by_cases hid : id ∈ p.slots
          · simpa [serveAll, serve, insert_eq_of_mem hid, served, entered] using hlater
          · simp [serveAll, serve, insert_eq_of_not_mem hid, served, entered] at hlater ⊢
            omega
      | remove id =>
          by_cases hid : id ∈ p.slots
          · have hpos := List.length_pos_of_mem hid
            have herase := List.length_erase_of_mem hid
            simp [serveAll, serve, IdlePool.remove, contains, hid, served, entered] at hlater ⊢
            omega
          · have herase := List.erase_of_not_mem hid
            simpa [serveAll, serve, IdlePool.remove, contains, hid, herase, served, entered]
              using hlater
      | take members policy =>
          cases hc : policy.choose? (p.candidates members) with
          | none => simpa [serveAll, serve, take, hc, served, entered] using hlater
          | some id =>
              obtain ⟨hid, -⟩ := mem_candidates.mp (mem_of_choose? hc)
              have hpos := List.length_pos_of_mem hid
              have herase := List.length_erase_of_mem hid
              simp [serveAll, serve, take, hc, IdlePool.remove, served, entered] at hlater ⊢
              omega

theorem count_struck_eq_zero (p : IdlePool) {requests : List Request}
    (h : ∀ id, .remove id ∉ requests) : (p.serveAll requests).2.count (.struck true) = 0 := by
  induction requests generalizing p with
  | nil => rfl
  | cons r rest ih =>
      have hrest := ih (p.serve r).1 fun id hmem => h id (List.mem_cons_of_mem r hmem)
      cases r with
      | insert id now => simpa [serveAll, serve] using hrest
      | remove id => exact absurd List.mem_cons_self (h id)
      | take members policy => simpa [serveAll, serve] using hrest

/-- If no slot is struck off, those that came to a queue were served in their order or
are still there. -/
theorem queue_serveAll (p : IdlePool) {requests : List Request}
    (h : ∀ r ∈ requests, r.Queues) (hremove : ∀ id, .remove id ∉ requests) :
    served (p.serveAll requests).2 ++ (p.serveAll requests).1.slots =
      p.slots ++ entered requests (p.serveAll requests).2 := by
  refine (queue_sublist p h).eq_of_length ?_
  have hlength := p.length_serveAll requests
  rw [count_struck_eq_zero p hremove] at hlength
  simpa using hlength

/-! ## all together -/

/-- Whatever is asked of a pool, if slots become free one after the other, it lists,
strikes off and picks slots as it should, and it keeps the slots that are free in the
order of their times.  Members in increasing order may be looked up by halves.  A pool
from which only those are picked that have been free for longest, of all, is a queue
of distinct slots. -/
theorem picked_by_policy {requests : List Request}
    (hclock : (times requests).Pairwise (· < ·))
    (hsorted : ∀ ids policy, .take (some ids) policy ∈ requests → ids.Pairwise (· ≤ ·)) :
    (∃ since, DoesAll (fun _ => none) requests (empty.serveAll requests).2 since ∧
      Keeps (empty.serveAll requests).1 since) ∧
    (∀ ids policy, .take (some ids) policy ∈ requests → ∀ p : IdlePool,
      p.candidates (some ids) = p.slots.filter (foundByHalves ids)) ∧
    ((∀ r ∈ requests, r.Queues) →
      (served (empty.serveAll requests).2 ++ (empty.serveAll requests).1.slots).Sublist
        (entered requests (empty.serveAll requests).2) ∧
      ((∀ id, .remove id ∉ requests) →
        served (empty.serveAll requests).2 ++ (empty.serveAll requests).1.slots =
          entered requests (empty.serveAll requests).2)) := by
  refine ⟨Keeps.empty.serveAll requests hclock (by simp), fun ids policy hmem p => ?_,
    fun h => ⟨queue_sublist empty h, queue_serveAll empty h⟩⟩
  refine List.filter_congr fun id _ => ?_
  exact (foundByHalves_eq_contains (hsorted ids policy hmem) id).symm

/-- The lowest, the highest and the longest free of three slots are picked, then nobody
of those who are not free, and in the end the higher of two. -/
def assorted : List Request :=
  [.insert 4 0, .insert 1 2, .insert 7 4, .insert 4 5, .take none .first, .take none .last,
    .insert 1 6, .take none .longestIdle, .take (some [2, 3]) .first, .take (some [1, 2]) .last]

/-- Three slots come, and two of them are served. -/
def waiting : List Request :=
  [.insert 4 0, .insert 1 2, .take none .longestIdle, .insert 7 4, .take none .longestIdle]

theorem picked_by_policy_in_turn :
    (∃ since, DoesAll (fun _ => none) assorted [.listed true, .listed true, .listed true,
        .listed false, .taken (some 1), .taken (some 7), .listed true, .taken (some 4),
        .taken none, .taken (some 1)] since ∧ Keeps empty since) ∧
      served (empty.serveAll waiting).2 ++ [7] = [4, 1, 7] := by
  have hsorted : ∀ ids policy, .take (some ids) policy ∈ assorted → ids.Pairwise (· ≤ ·) := by
    intro ids policy hmem
    simp only [assorted, List.mem_cons, Request.take.injEq, Option.some.injEq, reduceCtorEq,
      List.not_mem_nil, false_and, false_or, or_false] at hmem
    rcases hmem with ⟨rfl, -⟩ | ⟨rfl, -⟩ <;> decide
  have hclock : (times assorted).Pairwise (· < ·) := by decide
  have hassorted := picked_by_policy hclock hsorted
  have hlater : (times waiting).Pairwise (· < ·) := by decide
  have hwaiting := picked_by_policy hlater (by simp [waiting])
  exact ⟨hassorted.1, (hwaiting.2.2 (by simp [waiting, Request.Queues])).2 (by simp [waiting])⟩

end Switchboard.IdlePool
