/-!
# Digits

What a character counts as a digit. After nine come the letters from a to f, in either case.
-/

namespace SchemaPlan.Text

/-- The value of a digit in a radix of at most sixteen. -/
def digit? (radix : Nat) (c : Char) : Option Nat :=
  let below (value : Nat) : Option Nat := if value < radix then some value else none
  if c.isDigit then below (c.toNat - '0'.toNat)
  else if 'a' ≤ c ∧ c ≤ 'f' then below (c.toNat - 'a'.toNat + 10)
  else if 'A' ≤ c ∧ c ≤ 'F' then below (c.toNat - 'A'.toNat + 10)
  else none

end SchemaPlan.Text
