/-!
# Switchboard.Rounding

Quotients rounded to a whole number. Of two whole numbers equally near, the
even one is taken.
-/

namespace Switchboard

/-- The whole number nearest to `a / b`. -/
def roundDiv (a b : Nat) : Nat :=
  let q := a / b
  let r := a % b
  if 2 * r < b then q
  else if b < 2 * r then q + 1
  else q + q % 2

end Switchboard
