/-!
# Switchboard.Text.Pattern.Height

How deep the parts of a search pattern stand in each other. A part that holds
no other has the height nought, and every other part is one higher than the
highest that it holds.
-/

namespace Switchboard.Text.Pattern

/-- The highest of some parts. -/
def highest (heights : List Nat) : Nat := heights.foldl max 0

/-- The height of parts that stand in a row. A single part is no row. -/
def row : List Nat → Nat
  | [] => 0
  | [height] => height
  | heights => highest heights + 1

/-- The height of what holds a part. -/
def around (height : Nat) : Nat := height + 1

/-- Patterns must not be higher than this. -/
def heightLimit : Nat := 250

end Switchboard.Text.Pattern
