/-!
# Reading digits

Numbers are read digit by digit, in decimal notation with `decimalValue` and in hexadecimal notation
with `hexValue?`.
-/

namespace JsonPattern

/-- The natural number that a list of decimal digits writes. -/
def decimalValue (digits : List Char) : Nat :=
  digits.foldl (fun value c ↦ value * 10 + (c.toNat - '0'.toNat)) 0

/-- The value of a hexadecimal digit. -/
def hexValue? (c : Char) : Option Nat :=
  if '0' ≤ c ∧ c ≤ '9' then some (c.toNat - '0'.toNat)
  else if 'a' ≤ c ∧ c ≤ 'f' then some (c.toNat - 'a'.toNat + 10)
  else if 'A' ≤ c ∧ c ≤ 'F' then some (c.toNat - 'A'.toNat + 10)
  else none

end JsonPattern
