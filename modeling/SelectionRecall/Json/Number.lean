import SelectionRecall.Json
import SelectionRecall.Number.Digits

/-!
# JSON numbers

The value of a number's characters. A number without fraction and exponent is whole as long as it
fits 64 bits, signed or unsigned; a negative zero is not whole. Any other number is a float: the
digits that fit into 64 bits are rounded once to a significand, and this is scaled by a power of ten
with a second rounding. A number beyond the greatest float is refused.

* `Json.boundedDigits`: the digits that fit into 64 bits, and the count of the others.
* `Json.scaleByTen?`: multiplication by a power of ten.
* `Json.number?`: the value of a number's characters.
-/

namespace SelectionRecall.Json

/-- Appends digits to a significand of 64 bits. Once a digit does not fit, it and all the digits
after it are only counted. -/
def boundedDigits (significand : Nat) : List Char → Nat × Nat
  | [] => (significand, 0)
  | digit :: rest =>
    let next := significand * 10 + Digits.digitValue digit
    if next < Digits.wordCount then boundedDigits next rest
    else (significand, rest.length + 1)

/-- The float nearest to a power of ten of at most 308, as a fraction. -/
def powerOfTen (power : Nat) : Nat × Nat :=
  match Binary64.ofDecimal false 1 power with
  | .finite _ significand exponent => Binary64.fraction significand exponent
  | .infinite _ | .nan => (1, 1)

/-- A float times a power of ten, refused where it leaves the format upwards. A power below -308 is
divided away in steps of 308, each with a rounding of its own; the first argument bounds their
count. -/
def scaleByTen? : Nat → Binary64 → Int → Option Binary64
  | 0, x, _ => some x
  | steps + 1, x, power =>
    if x.equals (.zero false) then some x
    else if 308 < power then none
    else if 0 ≤ power then
      let (num, den) := powerOfTen power.toNat
      let scaled := x.scaleBy num den
      if scaled.isInfinite then none else some scaled
    else if -308 ≤ power then
      let (num, den) := powerOfTen (-power).toNat
      some (x.scaleBy den num)
    else
      let (num, den) := powerOfTen 308
      scaleByTen? steps (x.scaleBy den num) (power + 308)

/-- The float with this sign, significand and power of ten. Two steps of 308 take any significand to
zero, so that a power below -1500 is as good as -1500. -/
def floatOfParts? (negative : Bool) (significand : Nat) (power : Int) : Option Json := do
  let magnitude ← scaleByTen? 5 (Binary64.ofFraction false significand 1) (max power (-1500))
  return .float (if negative then magnitude.negate else magnitude)

/-- The power of ten behind the `e` of a number: a sign may come first, and at least one digit must
follow. -/
def power? : List Char → Option Int
  | '-' :: digits => (unsigned? digits).map fun value => -(value : Int)
  | '+' :: digits => (unsigned? digits).map fun value => (value : Int)
  | digits => (unsigned? digits).map fun value => (value : Int)
where
  /-- The value of one or more digits. -/
  unsigned? (digits : List Char) : Option Nat :=
    if digits.isEmpty ∨ ¬digits.all Char.isDigit then none else some (Digits.value digits)

/-- The whole number with these digits, or the nearest float where it does not fit. -/
def wholeNumber? (negative : Bool) (digits : List Char) : Option Json :=
  let value := Digits.value digits
  if negative ∧ 0 < value ∧ value ≤ Digits.negativeCount then some (.integer (-value))
  else if ¬negative ∧ value < Digits.wordCount then some (.integer value)
  else
    let (significand, skipped) := boundedDigits 0 digits
    floatOfParts? negative significand skipped

/-- The float with these digits around the point and this power of ten. -/
def pointedNumber? (negative : Bool) (digits places : List Char) (power : Int) : Option Json :=
  let (leading, skipped) := boundedDigits 0 digits
  let (significand, dropped) := boundedDigits leading places
  let taken := places.length - dropped
  floatOfParts? negative significand ((skipped : Int) - (taken : Int) + power)

/-- The value of a number without its sign. The part before the point has no leading zero, and the
part behind it has a digit. -/
def unsignedNumber? (negative : Bool) (chars : List Char) : Option Json :=
  let digits := chars.takeWhile Char.isDigit
  let rest := chars.dropWhile Char.isDigit
  if digits.isEmpty ∨ (digits.head? = some '0' ∧ 1 < digits.length) then none
  else match rest with
    | [] => wholeNumber? negative digits
    | '.' :: rest =>
      let places := rest.takeWhile Char.isDigit
      if places.isEmpty then none
      else match rest.dropWhile Char.isDigit with
        | [] => pointedNumber? negative digits places 0
        | mark :: rest => behindMark mark rest digits places
    | mark :: rest => behindMark mark rest digits []
where
  /-- The number with a power of ten behind the mark `e`. -/
  behindMark (mark : Char) (rest digits places : List Char) : Option Json :=
    if mark = 'e' ∨ mark = 'E' then (power? rest).bind (pointedNumber? negative digits places)
    else none

/-- The value of a number's characters. -/
def number? : List Char → Option Json
  | '-' :: rest => unsignedNumber? true rest
  | rest => unsignedNumber? false rest

end SelectionRecall.Json
