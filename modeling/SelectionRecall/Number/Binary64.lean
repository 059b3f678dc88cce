/-!
# Binary64 numbers

Floating-point numbers of the 64-bit binary format as exact data: a sign, a significand and a power
of two. Arithmetic is done on fractions of natural numbers and rounded once, to the nearest number
of the format, a half going to the even neighbour.

No arithmetic here and no text leads to a datum that is not a number, but a caller may hand one in.

* `Binary64`: finite numbers, the two infinities, and what is not a number.
* `Binary64.ofFraction`: the nearest number to a fraction.
* `Binary64.ofDecimal`: the nearest number to a decimal with an exponent of any size.
* `Binary64.equals`: numeric equality. The two zeros agree, and what is not a number equals nothing.
-/

namespace SelectionRecall

/-- A datum of the format. A finite number is `significand * 2 ^ exponent` up to its sign, with a
significand below `2 ^ 53` that is at least `2 ^ 52` unless the exponent is the least one. All data that
are not numbers count as one: neither equality nor any text tells them apart. -/
inductive Binary64 where
  | finite (negative : Bool) (significand : Nat) (exponent : Int)
  | infinite (negative : Bool)
  | nan
  deriving DecidableEq, Repr

namespace Binary64

/-- The least exponent of the format. -/
def minExponent : Int := -1074

/-- The greatest exponent of the format. -/
def maxExponent : Int := 971

/-- The least significand of 53 bits, `2 ^ 52`. -/
def leastFull : Nat := 0x10000000000000

/-- The zero of the given sign. -/
def zero (negative : Bool) : Binary64 := .finite negative 0 minExponent

/-- The whole number nearest to `num / den`, a half going to the even neighbour. -/
def roundQuotient (num den : Nat) : Nat :=
  let floor := num / den
  let twice := 2 * (num % den)
  if twice < den then floor
  else if den < twice then floor + 1
  else floor + floor % 2

/-- `num / den * 2 ^ (-shift)` as a fraction. -/
def scaleDown (num den : Nat) (shift : Int) : Nat × Nat :=
  if 0 ≤ shift then (num, den <<< shift.toNat) else (num <<< (-shift).toNat, den)

/-- The exponent at which `num / den` has a significand of 53 bits, or the least one. -/
def exponentOf (num den : Nat) : Int :=
  let guess : Int := (num.log2 : Int) - den.log2 - 52
  let (n, d) := scaleDown num den guess
  max minExponent (if n < d * leastFull then guess - 1 else guess)

/-- The number of the format that is nearest to `num / den`; beyond the greatest finite number it is
an infinity. -/
def ofFraction (negative : Bool) (num den : Nat) : Binary64 :=
  if num = 0 then zero negative
  else
    let exponent := exponentOf num den
    let (n, d) := scaleDown num den exponent
    let rounded := roundQuotient n d
    let (significand, exponent) :=
      if rounded = 2 * leastFull then (leastFull, exponent + 1) else (rounded, exponent)
    if maxExponent < exponent then .infinite negative
    else .finite negative significand exponent

/-- The number nearest to `significand * 10 ^ exponent`. A magnitude far outside the format is
decided by the count of digits alone, so that the exponent may be of any size. -/
def ofDecimal (negative : Bool) (significand : Nat) (exponent : Int) : Binary64 :=
  let magnitude := exponent + (Nat.toDigits 10 significand).length
  if significand = 0 ∨ magnitude < -400 then zero negative
  else if 400 < magnitude then .infinite negative
  else if 0 ≤ exponent then ofFraction negative (significand * Nat.pow 10 exponent.toNat) 1
  else ofFraction negative significand (Nat.pow 10 (-exponent).toNat)

/-- The magnitude of a finite number as a fraction. -/
def fraction (significand : Nat) (exponent : Int) : Nat × Nat :=
  if 0 ≤ exponent then (significand <<< exponent.toNat, 1)
  else (significand, 1 <<< (-exponent).toNat)

/-- The number with the opposite sign. -/
def negate : Binary64 → Binary64
  | .finite negative significand exponent => .finite (!negative) significand exponent
  | .infinite negative => .infinite (!negative)
  | .nan => .nan

/-- Whether the number is an infinity. -/
def isInfinite : Binary64 → Bool
  | .infinite _ => true
  | .finite .. | .nan => false

/-- The rounded product of a number and `num / den`. -/
def scaleBy (num den : Nat) : Binary64 → Binary64
  | .nan => .nan
  | .infinite negative => .infinite negative
  | .finite negative significand exponent =>
    let (n, d) := fraction significand exponent
    ofFraction negative (n * num) (d * den)

/-- Numeric equality: the two zeros are equal, what is not a number is not even equal to itself, and all
else is compared as it stands. -/
def equals : Binary64 → Binary64 → Bool
  | .finite n₁ m₁ e₁, .finite n₂ m₂ e₂ => (m₁ == 0 && m₂ == 0) || (n₁ == n₂ && m₁ == m₂ && e₁ == e₂)
  | .infinite n₁, .infinite n₂ => n₁ == n₂
  | _, _ => false

end Binary64

end SelectionRecall
