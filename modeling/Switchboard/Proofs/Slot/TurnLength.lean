import Switchboard.Proofs.Slot.History
import Switchboard.Proofs.Slot.Timeless

/-!
# Switchboard.Proofs.Slot.TurnLength

How many steps a turn takes does not show.

1. A step of a call and what follows from it at once is one piece of work
   (`Work.next`), and a call goes on by such pieces until its script has ended
   (`Work.nexts`).
2. Times left out, a turn is a number of these pieces, at least one
   (`timeless_runFor`).  So is a call that is driven by timeouts, turn after turn
   (`timeless_driven`).
3. A call whose script has ended takes no more pieces.  So two ways to cut the
   same call into turns leave the same: `turn_length_unobservable`.
-/

namespace Switchboard

/-- An office whose turns take up to `n` steps, at another time. -/
def Office.withTurns {σ : Type} (o : Office σ) (n : Nat) (clock : Clock) : Office σ :=
  { o with engine := { o.engine with stepsPerTick := n }, clock }

/-! ## calls in pieces -/

namespace Work

variable {σ : Type} {o p : Office σ} {s : Slot σ}

theorem rest_and (s : Slot σ) (f : Slot σ → Work σ) : (rest s).and f = f s := rfl

theorem and_rest (w : Work σ) : w.and rest = w := congrArg (mk w.slot) (List.append_nil _)

theorem and_assoc (w : Work σ) (f g : Slot σ → Work σ) :
    (w.and f).and g = w.and fun s => (f s).and g := congrArg (mk _) (List.append_assoc ..)

/-- A step, and what follows from it at once. -/
def next (o : Office σ) (s : Slot σ) : Work σ :=
  (step o s).and (afterStep o (stepped o s) rest)

/-- Up to a number of steps, as long as the slot runs a script. -/
def nexts (o : Office σ) : Nat → Slot σ → Work σ
  | 0, s => rest s
  | k + 1, s => if s.state = .scripting then (next o s).and (nexts o k) else rest s

/-- A slot that runs no script takes no steps. -/
theorem nexts_of_ne (hs : s.state ≠ .scripting) (k : Nat) : nexts o k s = rest s := by
  cases k with
  | zero => rfl
  | succ k => exact if_neg hs

theorem nexts_add (o : Office σ) (i j : Nat) (s : Slot σ) :
    nexts o (i + j) s = (nexts o i s).and (nexts o j) := by
  induction i generalizing s with
  | zero => rw [Nat.zero_add]; rfl
  | succ i ih =>
      rw [Nat.succ_add]
      by_cases hs : s.state = .scripting
      · simp only [nexts, if_pos hs, and_assoc]
        exact congrArg _ (funext ih)
      · rw [nexts_of_ne hs, nexts_of_ne hs, rest_and, nexts_of_ne hs]

theorem id_nexts (o : Office σ) (k : Nat) (s : Slot σ) : (nexts o k s).slot.id = s.id := by
  induction k generalizing s with
  | zero => rfl
  | succ k ih =>
      unfold nexts
      split
      · exact (ih _).trans (((Station.Does.step o).and (.afterStep .rest (stepped o s))).same s)
      · rfl

/-- After a step a turn either ends, or goes on where the step has led. -/
theorem afterStep_cases (o : Office σ) (r : Interpreter.Stepped (Errand σ)) (s : Slot σ) :
    (∀ g, afterStep o r g s = afterStep o r rest s) ∨
      (afterStep o r rest s).slot.state = s.state ∧
        ∀ g, afterStep o r g s = (afterStep o r rest s).and g := by
  unfold afterStep
  split
  · exact .inl fun _ => rfl
  · split
    · exact .inl fun _ => rfl
    · split
      · exact .inr ⟨rfl, fun g => by rw [and_rest]⟩
      · split
        · exact .inr ⟨rfl, fun g => (rest_and s g).symm⟩
        · exact .inl fun _ => rfl

/-- Times left out, a turn is a number of steps. -/
theorem timeless_runFor (o : Office σ) (n : Nat) {s : Slot σ} (hs : s.state = .scripting) :
    ∃ k, (runFor o n s).timeless = (nexts o k s).timeless ∧ (0 < n → 0 < k) := by
  induction n generalizing s with
  | zero =>
      exact ⟨0, (Matches.rest_await o (some _)).symm s s rfl, fun h => absurd h (Nat.lt_irrefl 0)⟩
  | succ n ih =>
      rcases afterStep_cases o (stepped o s) (step o s).slot with hend | ⟨hstate, hon⟩
      · have hrun : runFor o (n + 1) s = next o s := by
          refine congrArg₂ mk ?_ ?_
          · exact congrArg slot (hend _)
          · exact congrArg (_ ++ entries ·) (hend _)
        refine ⟨1, ?_, fun _ => Nat.one_pos⟩
        rw [hrun, nexts, if_pos hs]
        exact congrArg timeless (and_rest _).symm
      · -- What follows the step is the same whether the turn goes on or not, so it belongs to
        -- this piece, and the turn that is left is shorter.
        have hrun : runFor o (n + 1) s = (next o s).and (runFor o n) := by
          rw [next, and_assoc]
          refine congrArg₂ mk ?_ ?_
          · exact congrArg slot (hon _)
          · exact congrArg (_ ++ entries ·) (hon _)
        obtain ⟨k, hk, -⟩ := ih (s := (next o s).slot) (hstate.trans hs)
        refine ⟨k + 1, ?_, fun _ => Nat.succ_pos k⟩
        rw [hrun, nexts, if_pos hs]
        exact timeless_and rfl hk

/-- Steps come to the same in offices with the same devices. -/
theorem Matches.nexts (h : o.adapter = p.adapter) (k : Nat) :
    Matches (nexts o k) (nexts p k) := by
  induction k with
  | zero => exact .rest
  | succ k ih =>
      refine .ite (fun s t hst => ih.after ?_) .rest fun s t hst => ?_
      · simp only [next, ← stepped_eq h hst]
        exact (afterStep h _ .rest).after (step h s t hst)
      · obtain ⟨timer, call, -, rfl⟩ := eq_of_timeless hst
        rfl

end Work

/-! ## calls that are driven -/

namespace Station

variable {σ : Type} {x y : Station σ} {o : Office σ}

/-- A call goes on for up to a number of steps. -/
def advanced (o : Office σ) (k : Nat) (x : Station σ) : Station σ :=
  (Work.nexts o k x.slot).on x.ledger

theorem advanced_add (o : Office σ) (i j : Nat) (x : Station σ) :
    advanced o (i + j) x = advanced o j (advanced o i x) := by
  have hdoes : Does (advanced o j) (Work.nexts o j) := ⟨fun _ => rfl, Work.id_nexts o j⟩
  unfold advanced
  rw [Work.nexts_add]
  exact (hdoes.on _ _).symm

theorem timeless_advanced (h : x.timeless = y.timeless) (o : Office σ) (k : Nat) :
    (advanced o k x).timeless = (advanced o k y).timeless :=
  Work.timeless_on (Work.Matches.nexts rfl k _ _ (congrArg slot h)) (congrArg ledger h)

/-- What is left once no script runs is left for good. -/
theorem advanced_of_le {i j : Nat} (hi : (advanced o i x).slot.state ≠ .scripting) (hij : i ≤ j) :
    advanced o j x = advanced o i x := by
  obtain ⟨k, rfl⟩ := Nat.exists_eq_add_of_le hij
  rw [advanced_add]
  generalize advanced o i x = y at hi
  unfold advanced
  rw [Work.nexts_of_ne hi]
  rfl

/-- Times left out, a turn of up to `n` steps is a number of steps. -/
theorem timeless_run (o : Office σ) {n : Nat} (hn : 0 < n) (c : Clock)
    (hs : x.slot.state = .scripting) :
    ∃ k, 0 < k ∧ (x.run (o.withTurns n c)).timeless = (advanced o k x).timeless := by
  obtain ⟨k, hk, hpos⟩ := Work.timeless_runFor (o.withTurns n c) n hs
  refine ⟨k, hpos hn, ?_⟩
  rw [(Does.run _).eq]
  refine Work.timeless_on (hk.trans ?_) rfl
  exact Work.Matches.nexts (o := o.withTurns n c) (p := o) rfl k _ _ rfl

/-- A call is driven by timeouts at the times that the clock shows, in turns of up
to `n` steps, as long as its slot runs a script. -/
def driven (o : Office σ) (n : Nat) : List Clock → Station σ → Station σ
  | [], x => x
  | c :: rest, x =>
    if x.slot.state = .scripting then driven o n rest (x.post (o.withTurns n c) .timeout).1 else x

/-- Times left out, a call that is driven takes a number of steps: enough to end
its script, or one for each timeout. -/
theorem timeless_driven (o : Office σ) {n : Nat} (hn : 0 < n) (cs : List Clock) (x : Station σ) :
    ∃ k, (driven o n cs x).timeless = (advanced o k x).timeless ∧
      ((driven o n cs x).slot.state = .scripting → cs.length ≤ k) := by
  induction cs generalizing x with
  | nil => exact ⟨0, rfl, fun _ => Nat.zero_le 0⟩
  | cons c rest ih =>
      unfold driven
      by_cases hs : x.slot.state = .scripting
      · rw [if_pos hs]
        have hpost : (x.post (o.withTurns n c) .timeout).1 = x.run (o.withTurns n c) := by
          unfold post
          rw [hs]
          rfl
        rw [hpost]
        obtain ⟨i, hpos, hi⟩ := timeless_run o hn c hs
        obtain ⟨j, hj, hlength⟩ := ih (x.run (o.withTurns n c))
        refine ⟨i + j, ?_, fun hon => ?_⟩
        · rw [hj, advanced_add]
          exact timeless_advanced hi o j
        · have hrest := hlength hon
          rw [List.length_cons]
          omega
      · rw [if_neg hs]
        refine ⟨rest.length + 1, ?_, fun hon => absurd hon hs⟩
        rw [advanced_of_le (i := 0) hs (Nat.zero_le _)]
        rfl

/-- So does a call that is asked for first. -/
theorem timeless_driven_allocate (o : Office σ) (setup : CallSetup) (x : Station σ) {n : Nat}
    (hn : 0 < n) (c : Clock) (cs : List Clock) :
    ∃ k, (driven o n cs (x.allocate (o.withTurns n c) setup).1).timeless =
        (advanced o k (x.accept (o.withTurns n c) setup).1).timeless ∧
      ((driven o n cs (x.allocate (o.withTurns n c) setup).1).slot.state = .scripting →
        cs.length ≤ k) := by
  have hstate : ∀ {y : Station σ} {sequence : Nat},
      x.accept (o.withTurns n c) setup = (y, .ok sequence) → y.slot.state = .scripting := by
    intro y sequence hy
    have hcases := accepted (o.withTurns n c) setup x
    rw [hy] at hcases
    cases hcases with
    | begun s t _ _ _ => simp
  unfold allocate
  cases ha : x.accept (o.withTurns n c) setup with
  | mk y answer =>
      cases answer with
      | ok sequence =>
          obtain ⟨i, -, hi⟩ := timeless_run o hn c (hstate ha)
          obtain ⟨j, hj, hlength⟩ := timeless_driven o hn cs (y.run (o.withTurns n c))
          refine ⟨i + j, ?_, fun hon => Nat.le_trans (hlength hon) (Nat.le_add_left j i)⟩
          rw [advanced_add]
          exact hj.trans (timeless_advanced hi o j)
      | error e => exact timeless_driven o hn cs y

/-- Two ways to cut a call into turns that are long enough leave the same. -/
theorem advanced_eq {i j : Nat} (hi : (advanced o i x).slot.state ≠ .scripting)
    (hj : (advanced o j x).slot.state = .scripting → i ≤ j) :
    advanced o j x = advanced o i x := by
  by_cases hs : (advanced o j x).slot.state = .scripting
  · -- Then `i` is no more than `j`, and nothing was left to do after `i` pieces.
    exact advanced_of_le hi (hj hs)
  · rcases Nat.le_total i j with hij | hji
    · exact advanced_of_le hi hij
    · exact (advanced_of_le hs hji).symm

/-- The answer to a call does not wait for its turn. -/
theorem answer_allocate (o : Office σ) (setup : CallSetup) (x : Station σ) :
    (x.allocate o setup).2 = (x.accept o setup).2 := by
  unfold allocate
  cases x.accept o setup with
  | mk y answer => cases answer <;> rfl

/-- How many steps a turn takes does not show: whatever an office has for devices
and scripts, a call that is asked for gets the same answer with turns of up to `n`
steps and of up to `m`.  If it is driven by timeouts and leaves its script behind
in turns of the one length, it does so in turns of the other length, if it gets
enough timeouts.  What is left then is the same but for the times: the orders to
the device, the script with its symbols, the call with the reason of its end, the
records, and all that is in the books.  It stays so with the next event, which
has the call's last record written. -/
theorem turn_length_unobservable (o : Office σ) (setup : CallSetup) (x : Station σ) {n m : Nat}
    (hn : 0 < n) (hm : 0 < m) (b c : Clock) (bs : List Clock) :
    let y := driven o n bs (x.allocate (o.withTurns n b) setup).1
    (x.allocate (o.withTurns n b) setup).2 = (x.allocate (o.withTurns m c) setup).2 ∧
      (y.slot.state ≠ .scripting → ∃ k, ∀ cs : List Clock, k ≤ cs.length →
        let z := driven o m cs (x.allocate (o.withTurns m c) setup).1
        z.slot.state ≠ .scripting ∧ z.timeless = y.timeless ∧
          ∀ (e : Event) (d d' : Clock), (z.post (o.withTurns m d) e).1.timeless =
            (y.post (o.withTurns n d') e).1.timeless) := by
  intro y
  have haccept : (x.accept (o.withTurns n b) setup).1.timeless =
      (x.accept (o.withTurns m c) setup).1.timeless ∧
      (x.accept (o.withTurns n b) setup).2 = (x.accept (o.withTurns m c) setup).2 := by
    obtain ⟨hw, ha⟩ := Work.agree_accept (o := o.withTurns n b) (p := o.withTurns m c)
      (s := x.slot) rfl rfl (rfl : setup.cid.getD (o.identities x.ledger.identities) = _) rfl
    rw [accept_eq, accept_eq]
    exact ⟨Work.timeless_on hw rfl, ha⟩
  refine ⟨?_, fun hleft => ?_⟩
  · rw [answer_allocate, answer_allocate]
    exact haccept.2
  obtain ⟨i, hi, -⟩ := timeless_driven_allocate o setup x hn b bs
  refine ⟨i, fun cs hcs => ?_⟩
  intro z
  obtain ⟨j, hj, hlength⟩ := timeless_driven_allocate o setup x hm c cs
  have hz : z.timeless = (advanced o j (x.accept (o.withTurns n b) setup).1).timeless :=
    hj.trans (timeless_advanced haccept.1.symm o j)
  have hstate : ∀ {v w : Station σ}, v.timeless = w.timeless → v.slot.state = w.slot.state :=
    fun h => congrArg (fun v => v.slot.state) h
  have hended : (advanced o i (x.accept (o.withTurns n b) setup).1).slot.state ≠ .scripting :=
    fun h => hleft ((hstate hi).trans h)
  have hsame := advanced_eq hended (fun h => Nat.le_trans hcs (hlength ((hstate hz).trans h)))
  have hzy : z.timeless = y.timeless := (hz.trans (congrArg timeless hsame)).trans hi.symm
  have hzleft : z.slot.state ≠ .scripting := fun h => hleft ((hstate hzy).symm.trans h)
  refine ⟨hzleft, hzy, fun e d d' => ?_⟩
  rw [(Answers.post _ e).eq, (Answers.post _ e).eq]
  refine Work.timeless_on ?_ (congrArg ledger hzy)
  exact (Work.agree_post (o := o.withTurns m d) (p := o.withTurns n d') rfl
    (fun h => absurd h hzleft) e (congrArg slot hzy)).1

/-- A call that a turn of twenty steps has ended is still at its second line after
a turn of one step, and has the same behind it after enough of them. -/
theorem turn_length_unobservable_one_step : ∃ (o : Office Unit) (x : Station Unit),
    (x.allocate (o.withTurns 1 o.clock) trialCall).1.slot.state = .scripting ∧
      (x.allocate (o.withTurns 20 o.clock) trialCall).1.slot.state = .releasing ∧
      ∃ k, ∀ cs : List Clock, k ≤ cs.length →
        (driven o 1 cs (x.allocate (o.withTurns 1 o.clock) trialCall).1).timeless =
          (x.allocate (o.withTurns 20 o.clock) trialCall).1.timeless := by
  have hsame : ∀ (o : Office Unit) (x : Station Unit),
      (x.allocate (o.withTurns 20 o.clock) trialCall).1.slot.state = .releasing →
      ∃ k, ∀ cs : List Clock, k ≤ cs.length →
        (driven o 1 cs (x.allocate (o.withTurns 1 o.clock) trialCall).1).timeless =
          (x.allocate (o.withTurns 20 o.clock) trialCall).1.timeless := by
    intro o x hended
    obtain ⟨-, hcut⟩ := turn_length_unobservable o trialCall x (n := 20) (m := 1) (by decide)
      (by decide) o.clock o.clock []
    obtain ⟨k, hk⟩ := hcut (fun h => nomatch hended.symm.trans h)
    exact ⟨k, fun cs hcs => (hk cs hcs).2.1⟩
  refine ⟨trialOffice [("play", 0)] "@main\n  play a\n  play b\n  exit\n",
    newStation.perform (trialOffice [] "") (.post .enable), ?_, ?_, hsame _ _ ?_⟩
  all_goals decide +kernel

end Station

end Switchboard
