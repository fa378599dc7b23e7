/-!
# Switchboard.Total

The sum of a list of numbers.
-/

namespace Switchboard

/-- All numbers of a list added up. -/
def total : List Nat → Nat
  | [] => 0
  | n :: ns => n + total ns

/-- Totals of two lists add up to the total of both. -/
@[simp] theorem total_append (ns ms : List Nat) : total (ns ++ ms) = total ns + total ms := by
  induction ns with
  | nil => simp [total]
  | cons n ns ih => simp [total, ih, Nat.add_assoc]

end Switchboard
