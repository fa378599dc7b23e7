import Mathlib.Data.Set.Lattice
import Mathlib.Order.CompletePartialOrder
import Mathlib.Data.List.Induction
import Switchboard.Schedule.Rule

/-!
# Switchboard.Proofs.Schedule.Selection

Which rule of a table decides.

1. A rule pins down some of five axes (`Rule.pinned`).  The rule that decides is kept
   while the table is read, and gives way to every rule that pins down at least as much.
2. So what is kept is always one that no rule read so far goes beyond, and the last of
   those with its axes (`Foremost`): one more rule keeps that (`Foremost.choose`), and so
   does a whole table (`foremost_of_decider?`).
3. Where one rule pins down all that the others do, and no other does as much, the order of
   the table is of no account.
-/

namespace Switchboard.Schedule

/-! ## axes -/

/-- What a rule may pin down. -/
inductive Axis where
  | year | month | group | event | weekdays
deriving Repr, DecidableEq

namespace Axis

/-- The axes, in the order in which rules are compared. -/
def all : List Axis := [.year, .month, .group, .event, .weekdays]

theorem mem_all (a : Axis) : a ∈ all := by cases a <;> decide

end Axis

namespace Rule

/-- Whether a rule pins down an axis. -/
def pins (r : Rule) : Axis → Bool
  | .year => r.year.isSome
  | .month => r.month.isSome
  | .group => r.group.isSome
  | .event => r.event.isSome
  | .weekdays => r.weekdays.isSome

/-- The axes that a rule pins down. -/
def pinned (r : Rule) : Set Axis := {a | r.pins a = true}

/-- A rule replaces another one if it pins down at least as much. -/
theorem covers_iff {r other : Rule} : r.covers other = true ↔ other.pinned ⊆ r.pinned := by
  have hcovers : r.covers other =
      Axis.all.all fun a => !other.pins a || r.pins a := by
    have haxes : ∀ r : Rule, r.axes = Axis.all.map r.pins := fun _ => rfl
    rw [covers, haxes, haxes, List.zip_map', List.all_map]
    rfl
  rw [hcovers, List.all_eq_true]
  constructor
  · intro h a (ha : other.pins a = true)
    have hor := h a (Axis.mem_all a)
    rwa [ha, Bool.not_true, Bool.false_or] at hor
  · intro h a _
    cases ha : other.pins a with
    | false => rfl
    | true => exact h ha

end Rule

/-! ## the rule that is kept -/

/-- A rule of a list that no other goes beyond, and the last with its axes. -/
def Foremost (rules : List Rule) (r : Rule) : Prop :=
  (∀ other ∈ rules, ¬ r.pinned ⊂ other.pinned) ∧
    ∃ before after, rules = before ++ r :: after ∧ ∀ other ∈ after, other.pinned ≠ r.pinned

/-- One more rule replaces the one that is kept, or leaves it foremost. -/
theorem Foremost.choose {rules : List Rule} {best : Rule} (h : Foremost rules best) (r : Rule) :
    ∃ next, choose (some best) r = some next ∧ Foremost (rules ++ [r]) next := by
  obtain ⟨hmax, before, after, hsplit, hlast⟩ := h
  unfold Schedule.choose
  by_cases hc : r.covers best = true
  · refine ⟨r, by simp [hc], fun other ho hbeyond => ?_, rules, [], rfl, List.forall_mem_nil _⟩
    rcases List.mem_append.mp ho with ho | ho
    · exact hmax other ho ((Rule.covers_iff.mp hc).trans_ssubset hbeyond)
    · obtain rfl := List.mem_singleton.mp ho
      exact hbeyond.ne rfl
  · have hopen : ¬ best.pinned ⊆ r.pinned := fun hsub => hc (Rule.covers_iff.mpr hsub)
    refine ⟨best, by simp [hc], fun other ho hbeyond => ?_, before, after ++ [r], ?_, ?_⟩
    · rcases List.mem_append.mp ho with ho | ho
      · exact hmax other ho hbeyond
      · obtain rfl := List.mem_singleton.mp ho
        exact hopen hbeyond.subset
    · rw [hsplit, List.append_assoc, List.cons_append]
    · intro other ho
      rcases List.mem_append.mp ho with ho | ho
      · exact hlast other ho
      · obtain rfl := List.mem_singleton.mp ho
        exact fun heq => hopen heq.ge

/-- What is kept of a list of rules is foremost among them. -/
theorem foremost_of_foldl (rules : List Rule) :
    match rules.foldl choose none with
    | none => rules = []
    | some r => Foremost rules r := by
  induction rules using List.reverseRecOn with
  | nil => rfl
  | append_singleton rules r ih =>
      rw [List.foldl_append, List.foldl_cons, List.foldl_nil]
      cases hbest : rules.foldl Schedule.choose none with
      | none =>
          obtain rfl : rules = [] := by simpa only [hbest] using ih
          refine ⟨fun other ho hbeyond => ?_, [], [], rfl, List.forall_mem_nil _⟩
          obtain rfl := List.mem_singleton.mp ho
          exact hbeyond.ne rfl
      | some best =>
          have hforemost : Foremost rules best := by simpa only [hbest] using ih
          obtain ⟨next, hnext, hkeeps⟩ := hforemost.choose r
          simpa only [hnext] using hkeeps

section
variable {rules : List Rule} {group event : String} {now : Moment} {r : Rule}

/-- The rule that decides is foremost among those that hold. -/
theorem foremost_of_decider? (h : decider? rules group event now = some r) :
    Foremost (rules.filter fun r => r.holds group event now) r := by
  have hkept := foremost_of_foldl (rules.filter fun r => r.holds group event now)
  unfold decider? at h
  rwa [h] at hkept

theorem decider?_eq_none_iff :
    decider? rules group event now = none ↔ ∀ r ∈ rules, r.holds group event now = false := by
  have hkept := foremost_of_foldl (rules.filter fun r => r.holds group event now)
  constructor
  · intro h
    unfold decider? at h
    rw [h] at hkept
    simpa [List.filter_eq_nil_iff] using hkept
  · intro h
    have hnone : (rules.filter fun r => r.holds group event now) = [] := by
      simpa [List.filter_eq_nil_iff] using h
    rw [decider?, hnone]
    rfl

theorem select?_of_decider? (h : decider? rules group event now = some r) :
    select? rules group event now = some r.script := by rw [select?, h, Option.map_some]

/-- What comes after a rule among those that hold comes after it in the table. -/
theorem exists_split_of_filter {p : Rule → Bool} {before after : List Rule}
    (h : rules.filter p = before ++ r :: after) :
    ∃ front back, rules = front ++ r :: back ∧ back.filter p = after := by
  obtain ⟨front, rest, rfl, -, hrest⟩ := List.filter_eq_append_iff.mp h
  obtain ⟨skipped, back, rfl, -, -, hback⟩ := List.filter_eq_cons_iff.mp hrest
  exact ⟨front ++ skipped, back, by rw [List.append_assoc], hback⟩

/-- Of rules that hold, one that pins down all that the others do, and that no other one
equals in its axes, is foremost alone. -/
theorem Foremost.eq_of_widest {best : Rule} (h : Foremost rules best) (hr : r ∈ rules)
    (hall : ∀ other ∈ rules, other.pinned ⊆ r.pinned)
    (halone : ∀ other ∈ rules, other.pinned = r.pinned → other = r) : best = r := by
  obtain ⟨hmax, before, after, hsplit, -⟩ := h
  have hbest : best ∈ rules := by simp [hsplit]
  have hsub := hall best hbest
  refine halone best hbest (hsub.antisymm fun a ha => ?_)
  by_contra hmissing
  exact hmax r hr ⟨hsub, fun hback => hmissing (hback ha)⟩

end

/-! ## the theorem -/

/-- A table selects nothing if and only if none of its rules holds.

The rule that decides is one of the table.  It holds, no rule that holds pins down all
of its axes and more, and after it in the table there is no rule that holds with just its
axes.

A rule that holds and pins down every axis that any other one does that holds, no other
one having the same axes, decides however the table is ordered. -/
theorem decider_most_specific_last (rules : List Rule) (group event : String) (now : Moment) :
    (select? rules group event now = none ↔ ∀ r ∈ rules, r.holds group event now = false) ∧
    (∀ script, select? rules group event now = some script →
      ∃ before r after, rules = before ++ r :: after ∧ r.script = script ∧
        decider? rules group event now = some r ∧ r.holds group event now = true ∧
        (∀ other ∈ rules, other.holds group event now = true → ¬ r.pinned ⊂ other.pinned) ∧
        ∀ other ∈ after, other.holds group event now = true → other.pinned ≠ r.pinned) ∧
    ∀ r ∈ rules, r.holds group event now = true →
      (∀ other ∈ rules, other.holds group event now = true → other.pinned ⊆ r.pinned) →
      (∀ other ∈ rules, other.holds group event now = true → other.pinned = r.pinned →
        other = r) →
      ∀ table, table.Perm rules →
        decider? table group event now = some r ∧
          select? table group event now = some r.script := by
  refine ⟨Option.map_eq_none_iff.trans decider?_eq_none_iff, fun script hs => ?_,
    fun r hr hholds hall halone table hperm => ?_⟩
  · obtain ⟨r, hd, rfl⟩ := Option.map_eq_some_iff.mp hs
    obtain ⟨hmax, before, after, hsplit, hlast⟩ := foremost_of_decider? hd
    obtain ⟨front, back, htable, hback⟩ := exists_split_of_filter hsplit
    have hr : r ∈ rules.filter fun r => r.holds group event now := by simp [hsplit]
    refine ⟨front, r, back, htable, rfl, hd, (List.mem_filter.mp hr).2, fun other ho hh => ?_,
      fun other ho hh => ?_⟩
    · exact hmax other (List.mem_filter.mpr ⟨ho, hh⟩)
    · exact hlast other (hback ▸ List.mem_filter.mpr ⟨ho, hh⟩)
  · cases hd : decider? table group event now with
    | none =>
        have hnone := decider?_eq_none_iff.mp hd r (hperm.mem_iff.mpr hr)
        simp [hholds] at hnone
    | some best =>
        have hlisted : ∀ other, (other ∈ table.filter fun r => r.holds group event now) →
            other ∈ rules ∧ other.holds group event now = true := fun other ho =>
          ⟨hperm.mem_iff.mp (List.mem_filter.mp ho).1, (List.mem_filter.mp ho).2⟩
        obtain rfl := (foremost_of_decider? hd).eq_of_widest
          (List.mem_filter.mpr ⟨hperm.mem_iff.mpr hr, hholds⟩)
          (fun other ho => hall other (hlisted other ho).1 (hlisted other ho).2)
          (fun other ho => halone other (hlisted other ho).1 (hlisted other ho).2)
        exact ⟨rfl, select?_of_decider? hd⟩

/-- A table for a shop: whatever comes, the sales group, its working days, its holidays in
two versions, and the night. -/
def shopTable : List Rule :=
  [⟨some "sales", none, "@business", none, none, none, some 31, none, none⟩,
    ⟨none, none, "@generic", none, none, none, none, none, none⟩,
    ⟨some "sales", none, "@sales", none, none, none, none, none, none⟩,
    ⟨some "sales", none, "@weekdays", none, none, none, some 31, none, none⟩,
    ⟨none, none, "@night", none, none, none, none, some 1320, some 360⟩]

theorem decider_most_specific_last_shop :
    let now : Moment := ⟨⟨2024, 6, 4⟩, 10, 0⟩
    select? shopTable "sales" "incoming" now = some "@weekdays" ∧
      (∃ before r after, shopTable = before ++ r :: after ∧ r.script = "@weekdays" ∧
        ∀ other ∈ after, other.holds "sales" "incoming" now = true → other.pinned ≠ r.pinned) ∧
      ∀ table, table.Perm shopTable →
        select? table "support" "incoming" now = some "@generic" := by
  intro now
  have hselect : select? shopTable "sales" "incoming" now = some "@weekdays" := by decide
  have hgeneric : ∀ other ∈ shopTable, other.holds "support" "incoming" now = true →
      other = ⟨none, none, "@generic", none, none, none, none, none, none⟩ := by decide
  obtain ⟨-, hsome, -⟩ := decider_most_specific_last shopTable "sales" "incoming" now
  obtain ⟨before, r, after, htable, hscript, -, -, -, hlast⟩ := hsome _ hselect
  obtain ⟨-, -, hwidest⟩ := decider_most_specific_last shopTable "support" "incoming" now
  refine ⟨hselect, ⟨before, r, after, htable, hscript, hlast⟩, fun table hperm => ?_⟩
  exact (hwidest _ (by decide) (by decide) (fun other ho hh => (hgeneric other ho hh ▸ le_rfl))
    (fun other ho hh _ => hgeneric other ho hh) table hperm).2

end Switchboard.Schedule
