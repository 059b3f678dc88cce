/-!
# Digits

The numbers that decimal and hexadecimal digits write.

* `Digits.value`: the value of decimal digits.
* `Digits.hexQuad?`: the value of four hexadecimal digits.
* `Digits.wordCount`, `Digits.negativeCount`: what fits into 64 bits.
-/

namespace SelectionRecall.Digits

/-- The number of values of 64 bits, `2 ^ 64`. -/
def wordCount : Nat := 0x10000000000000000

/-- The number of negative values of 64 bits with a sign, `2 ^ 63`. -/
def negativeCount : Nat := 0x8000000000000000

/-- The value of a decimal digit. -/
def digitValue (digit : Char) : Nat := digit.toNat - '0'.toNat

/-- The value of decimal digits, the most significant one first. -/
def value (digits : List Char) : Nat :=
  digits.foldl (fun number digit => number * 10 + digitValue digit) 0

/-- The value of a hexadecimal digit. -/
def hexDigit? (c : Char) : Option Nat :=
  if c.isDigit then some (digitValue c)
  else if 'a' ≤ c ∧ c ≤ 'f' then some (c.toNat - 'a'.toNat + 10)
  else if 'A' ≤ c ∧ c ≤ 'F' then some (c.toNat - 'A'.toNat + 10)
  else none

/-- The value of four hexadecimal digits. -/
def hexQuad? (a b c d : Char) : Option Nat := do
  return ((← hexDigit? a) * 16 + (← hexDigit? b)) * 256 + ((← hexDigit? c) * 16 + (← hexDigit? d))

end SelectionRecall.Digits
