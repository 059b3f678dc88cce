import SelectionRecall.Number.Binary64

/-!
# Shortest decimal text

The decimal with the fewest digits that reads back as a given binary64 number, and the two ways of
writing it. The reals that round to the number form an interval, whose ends belong to it when the
significand is even. For one digit, two digits and so on, the two neighbours of the number on the
grid of such decimals are tested; the first grid with a neighbour in the interval gives the answer.

* `Decimal`: a whole number and a power of ten.
* `Binary64.shortest`: the shortest decimal that reads back, the nearer one where two do.
* `Decimal.positional`: digits around a point, never an exponent.
* `Decimal.scientific`: one digit before the point and an exponent of ten.
* `Binary64.positionalText`: the shortest text of a number without an exponent.
-/

namespace SelectionRecall

/-- The decimal `digits * 10 ^ exponent`. -/
structure Decimal where
  digits : Nat
  exponent : Int
  deriving DecidableEq, Repr

/-- Which neighbour wins when both are equally near. -/
inductive Tie where
  | upward
  | toEven
  deriving DecidableEq, Repr

namespace Binary64

/-- The reals that round to `significand * 2 ^ exponent`, scaled so that the number itself is
`4 * significand`: the distance down is halved at a power of two. -/
def lowerEnd (significand : Nat) (exponent : Int) : Nat :=
  if significand = leastFull ∧ minExponent < exponent then 4 * significand - 1
  else 4 * significand - 2

/-- The upper end of that interval on the same scale. -/
def upperEnd (significand : Nat) : Nat := 4 * significand + 2

/-- Whether `decimal` reads back as `significand * 2 ^ exponent`. -/
def readsBack (significand : Nat) (exponent : Int) (decimal : Decimal) : Bool :=
  let (n, d) := fraction 1 (exponent - 2)
  let (dn, dd) :=
    if 0 ≤ decimal.exponent then (decimal.digits * Nat.pow 10 decimal.exponent.toNat, 1)
    else (decimal.digits, Nat.pow 10 (-decimal.exponent).toNat)
  let low := lowerEnd significand exponent * n * dd
  let high := upperEnd significand * n * dd
  let middle := dn * d
  if significand % 2 = 0 then decide (low ≤ middle) && decide (middle ≤ high)
  else decide (low < middle) && decide (middle < high)

/-- The power of ten just above `num / den`. -/
def decimalMagnitude (num den : Nat) : Int :=
  if den ≤ num then (Nat.toDigits 10 (num / den)).length
  else 1 - (Nat.toDigits 10 (den / num)).length

/-- The better neighbour of the number on the grid of multiples of `10 ^ power`, if one of the two
reads back. -/
def onGrid? (tie : Tie) (significand : Nat) (exponent power : Int) : Option Decimal :=
  let (n, d) := fraction significand exponent
  let (num, den) :=
    if 0 ≤ power then (n, d * Nat.pow 10 power.toNat) else (n * Nat.pow 10 (-power).toNat, d)
  let floor := num / den
  let down : Decimal := ⟨floor, power⟩
  let up : Decimal := ⟨floor + 1, power⟩
  match readsBack significand exponent down, readsBack significand exponent up with
  | false, false => none
  | true, false => some down
  | false, true => some up
  | true, true =>
    let twice := 2 * (num % den)
    if twice < den then some down
    else if den < twice then some up
    else match tie with
      | .upward => some up
      | .toEven => some (if floor % 2 = 0 then down else up)

/-- Removes trailing zeros, at most as many as there are digits. -/
def stripZeros : Nat → Decimal → Decimal
  | 0, decimal => decimal
  | count + 1, decimal =>
    if decimal.digits ≠ 0 ∧ decimal.digits % 10 = 0 then
      stripZeros count ⟨decimal.digits / 10, decimal.exponent + 1⟩
    else decimal

/-- The decimal with the fewest digits that reads back as `significand * 2 ^ exponent`. Seventeen
digits always suffice. -/
def shortest (tie : Tie) (significand : Nat) (exponent : Int) : Decimal :=
  let (n, d) := fraction significand exponent
  let magnitude := decimalMagnitude n d
  let grids := (List.range 17).map fun count => magnitude - (count + 1 : Nat)
  match grids.findSome? (onGrid? tie significand exponent) with
  | some decimal => stripZeros 17 decimal
  | none => ⟨significand, 0⟩

end Binary64

namespace Decimal

/-- The digits around a point, without an exponent: `1200`, `1.25`, `0.003`. -/
def positional (decimal : Decimal) : List Char :=
  let digits := Nat.toDigits 10 decimal.digits
  if 0 ≤ decimal.exponent then digits ++ List.replicate decimal.exponent.toNat '0'
  else
    let places := (-decimal.exponent).toNat
    let padded := List.replicate (places + 1 - digits.length) '0' ++ digits
    padded.take (padded.length - places) ++ '.' :: padded.drop (padded.length - places)

/-- One digit before the point and a signed exponent of ten: `1e+21`, `1.25e-7`. -/
def scientific (decimal : Decimal) : List Char :=
  let digits := Nat.toDigits 10 decimal.digits
  let power : Int := decimal.exponent + digits.length - 1
  let mantissa := match digits with
    | first :: [] => [first]
    | first :: rest => first :: '.' :: rest
    | [] => []
  let sign := if power < 0 then '-' else '+'
  mantissa ++ 'e' :: sign :: Nat.toDigits 10 power.natAbs

end Decimal

namespace Binary64

/-- The sign and the text of the magnitude. -/
def signed (negative : Bool) (magnitude : List Char) : String :=
  String.ofList (if negative then '-' :: magnitude else magnitude)

/-- The shortest text without an exponent: `1`, `-0`, `0.0000001`, `inf`, `NaN`. Of two equally near
decimals the larger is written. -/
def positionalText : Binary64 → String
  | .nan => "NaN"
  | .infinite negative => signed negative ['i', 'n', 'f']
  | .finite negative significand exponent =>
    if significand = 0 then signed negative ['0']
    else signed negative (shortest .upward significand exponent).positional

end Binary64

end SelectionRecall
