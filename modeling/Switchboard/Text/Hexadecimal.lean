/-!
# Switchboard.Text.Hexadecimal

Hexadecimal digits and the characters that have such numbers.

1. A digit is read in small and capital letters, and written in small ones.
2. A character's number is below 0x110000 and no half of a surrogate pair.
-/

namespace Switchboard.Text

/-- A hexadecimal digit, small letters from ten on. -/
def hexDigit (n : Nat) : Char := Nat.digitChar (n % 16)

/-- The value of a hexadecimal digit. -/
def hexValue? (c : Char) : Option Nat :=
  if c.isDigit then some (c.toNat - '0'.toNat)
  else if 'a' ≤ c ∧ c ≤ 'f' then some (c.toNat - 'a'.toNat + 10)
  else if 'A' ≤ c ∧ c ≤ 'F' then some (c.toNat - 'A'.toNat + 10)
  else none

/-- A digit that is written is read back. -/
theorem hexValue?_hexDigit (n : Nat) : hexValue? (hexDigit n) = some (n % 16) := by
  have heach : ∀ k : Fin 16, hexValue? (Nat.digitChar k) = some k.val := by decide
  exact heach ⟨n % 16, Nat.mod_lt n (by decide)⟩

/-- The character with a hexadecimal number. -/
def scalar? (digits : List Char) : Option Char := do
  let values ← digits.mapM hexValue?
  let n := values.foldl (fun n d => 16 * n + d) 0
  if n.isValidChar then some (Char.ofNat n) else none

end Switchboard.Text
