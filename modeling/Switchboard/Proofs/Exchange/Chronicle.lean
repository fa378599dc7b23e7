import Switchboard.Proofs.Exchange.Account

/-!
# Switchboard.Proofs.Exchange.Chronicle

What an exchange has been asked for since it was built.

1. A chronicle lists the operations carried out, the latest first, each with
   the exchange that it was carried out on (`Chronicle`).
2. An operation begins a call (`started?`), or lets calls end one after the
   other, or begins a period, and does nothing else to the accounts
   (`Performed`).
-/

namespace Switchboard.Exchange

variable {σ : Type} {x y : Exchange σ} {past : List (Exchange σ × Operation)}

open Accounts (Lapses)

/-! ## operations and the accounts -/

/-- The slot on which an operation begins a call, by its answer. -/
def started? (x : Exchange σ) : Operation → Option SlotId
  | .allocate id setup => match (x.allocate id setup).2 with
    | some (.ok _) => some id
    | _ => none
  | .startCall group setup => (x.startCall group setup).2.toOption
  | _ => none

/-- Whether an operation begins a period. -/
def Operation.isNewPeriod : Operation → Bool
  | .newPeriod => true
  | _ => false

/-- What an operation does to the accounts. -/
inductive Performed (x : Exchange σ) (op : Operation) : Prop
  | begun (id : SlotId) (cid : String) : x.started? op = some id → op.isNewPeriod = false →
      x.accounts.Vacant id → (x.perform op).accounts = x.accounts.opened id cid → Performed x op
  | lapsed : x.started? op = none → op.isNewPeriod = false →
      Lapses x.accounts (x.perform op).accounts → Performed x op
  | renewed : op = .newPeriod → Performed x op

/-- Starting a call begins it on the slot in the answer, or changes nothing. -/
theorem Lawful.accounts_startCall (h : x.Lawful) (group : Option String) (setup : CallSetup) :
    ((x.startCall group setup).2.toOption = none ∧
        (x.startCall group setup).1.accounts = x.accounts) ∨
      ∃ id cid, (x.startCall group setup).2 = .ok id ∧ x.accounts.Vacant id ∧
        (x.startCall group setup).1.accounts = x.accounts.opened id cid := by
  have hrequest := accounts_request x group
  have hlawful := h.acts (acts_request x group)
  have hcases := callStarted x group setup
  generalize x.startCall group setup = answered at hcases
  cases hcases with
  | refused _ => exact .inl ⟨rfl, hrequest⟩
  | begun _ hz hn =>
      have hz' := hz.accounts.trans hrequest
      cases (hlawful.act (.elsewhere hz)).allocated _ _ with
      | denied hnone _ _ => exact absurd hn (hnone _)
      | begun _ cid _ hvacant hopened _ =>
          rw [hz'] at hvacant hopened
          exact .inr ⟨_, cid, rfl, hvacant, hopened⟩
  | returned _ hz he =>
      have hlawfulz := hlawful.act (.elsewhere hz)
      have hz' := hz.accounts.trans hrequest
      cases hlawfulz.allocated _ _ with
      | denied _ hsame _ =>
          refine .inl ⟨rfl, ?_⟩
          rw [(hlawfulz.act (.allocate _ _ _)).accounts_restore, hsame, hz']
      | begun _ _ hn _ _ _ => exact nomatch he.symm.trans hn
  | missing _ hz hnone =>
      have hz' := hz.accounts.trans hrequest
      cases (hlawful.act (.elsewhere hz)).allocated _ _ with
      | denied _ hsame _ => exact .inl ⟨rfl, hsame.trans hz'⟩
      | begun _ _ hn _ _ _ => exact nomatch hnone.symm.trans hn

/-- What every operation does to the accounts is one of three things. -/
theorem Lawful.performed (h : x.Lawful) (op : Operation) : Performed x op := by
  cases op with
  | request group =>
      refine .lapsed rfl rfl ?_
      rw [show (x.perform (.request group)).accounts = x.accounts from accounts_request x group]
  | restore id =>
      refine .lapsed rfl rfl ?_
      rw [show (x.perform (.restore id)).accounts = x.accounts from h.accounts_restore id]
  | startCall group setup =>
      rcases h.accounts_startCall group setup with ⟨hnone, hsame⟩ | ⟨id, cid, hok, hvacant, hopened⟩
      · refine .lapsed hnone rfl ?_
        rw [show (x.perform (.startCall group setup)).accounts = x.accounts from hsame]
      · exact .begun id cid (congrArg Except.toOption hok) rfl hvacant hopened
  | allocate id setup =>
      cases h.allocated id setup with
      | denied hnone hsame _ =>
          refine .lapsed (by simp only [started?]) rfl ?_
          rw [show (x.perform (.allocate id setup)).accounts = x.accounts from hsame]
      | begun n cid hok hvacant hopened _ =>
          exact .begun id cid (by rw [started?, hok]) rfl hvacant hopened
  | newPeriod => exact .renewed rfl
  | post | release | suspend | resume | reload | expire | expireDue | shutdown =>
      exact .lapsed rfl rfl (h.lapses (perform_services x rfl))

/-- An operation keeps a count right if the calls there are after it fit the count. -/
theorem Lawful.counts_perform (h : x.Lawful) (hc : x.accounts.Counted) {g : Segment}
    (hg : x.accounts.Counts g) (op : Operation)
    (hroom : (x.perform op).accounts.busy g < UInt32.size) : (x.perform op).accounts.Counts g := by
  cases h.performed op with
  | begun id cid _ _ hvacant hopened =>
      rw [hopened] at hroom ⊢
      exact hg.opened hc hvacant cid hroom
  | lapsed _ _ hlapses => exact hg.lapses hc hlapses
  | renewed hop =>
      subst hop
      intro t ht hblank
      obtain ⟨s, hs, rfl⟩ := List.mem_map.mp ht
      exact hg s hs hblank

/-! ## chronicles -/

/-- A chronicle of an exchange: the operations carried out on it, the latest
first, each with the exchange as it was before. -/
inductive Chronicle : List (Exchange σ × Operation) → Exchange σ → Prop
  | build {c : Config} {p : Plan σ} {x : Exchange σ} : build c p = .ok x → Chronicle [] x
  | perform {past : List (Exchange σ × Operation)} {x : Exchange σ} (op : Operation) :
      Chronicle past x → Chronicle ((x, op) :: past) (x.perform op)
  | elsewhere {past : List (Exchange σ × Operation)} {x y : Exchange σ} :
      Chronicle past x → Elsewhere x y → Chronicle past y

/-- An exchange that has a chronicle can be reached. -/
theorem Chronicle.reach (h : Chronicle past x) : Reach x := by
  induction h with
  | build hb => exact .build hb
  | perform op _ ih => exact ih.perform op
  | elsewhere _ he ih => exact ih.elsewhere he

/-- The exchanges of a chronicle, the latest first. -/
def moments (past : List (Exchange σ × Operation)) (x : Exchange σ) : List (Exchange σ) :=
  x :: past.map (·.1)

/-- The chronicle of operations that are carried out one after the other. -/
def recorded (past : List (Exchange σ × Operation)) (x : Exchange σ) :
    List Operation → List (Exchange σ × Operation) × Exchange σ
  | [] => (past, x)
  | op :: rest => recorded ((x, op) :: past) (x.perform op) rest

theorem Chronicle.recorded (h : Chronicle past x) (ops : List Operation) :
    Chronicle (recorded past x ops).1 (recorded past x ops).2 := by
  induction ops generalizing past x with
  | nil => exact h
  | cons op rest ih => exact ih (h.perform op)

/-- Every exchange of a chronicle can be reached. -/
theorem Chronicle.reach_of_mem (h : Chronicle past x) : ∀ y ∈ moments past x, Reach y := by
  intro y hy
  induction h with
  | build hb =>
      rw [List.mem_singleton.mp hy]
      exact .build hb
  | perform op hpast ih =>
      rcases List.mem_cons.mp hy with rfl | hy
      · exact hpast.reach.perform op
      · exact ih hy
  | elsewhere hpast he ih =>
      rcases List.mem_cons.mp hy with rfl | hy
      · exact hpast.reach.elsewhere he
      · exact ih (List.mem_cons_of_mem _ hy)

end Switchboard.Exchange
