import SelectionRecall.Document.Value

/-!
# Equal values

Values are equal if they agree in variant and content, where the two zeros of a float are one and what is
not a number equals nothing. So they are equal just if they have the same canonical form, in which there
is one zero, and all floats in it are numbers. Equality of values, and of arguments, is symmetric and
transitive, and it is reflexive where all floats are numbers and nowhere else.

* `Value.canonical`, `Arguments.canonical`: canonical forms.
* `Value.holdsNan`, `Arguments.holdNan`: whether a float is not a number.
* `Value.equals_iff`, `Arguments.beq_iff`: what equality says.
* `Value.holdsNan_canonical`, `Arguments.holdNan_canonical`: canonical forms tell it too.
-/

namespace SelectionRecall

namespace Binary64

/-- The datum with one zero for both. -/
def canonical : Binary64 → Binary64
  | .finite negative significand exponent =>
    if significand = 0 then zero false else .finite negative significand exponent
  | .infinite negative => .infinite negative
  | .nan => .nan

/-- Whether the datum is not a number. -/
def isNan : Binary64 → Bool
  | .nan => true
  | .finite .. | .infinite _ => false

theorem equals_iff (a b : Binary64) :
    a.equals b = true ↔ a.canonical = b.canonical ∧ a.isNan = false := by
  cases a with
  | nan => simp [equals, isNan]
  | infinite negative =>
    cases b with
    | nan => simp [equals, canonical]
    | infinite other => simp [equals, canonical, isNan]
    | finite other significand exponent =>
      by_cases h : significand = 0 <;> simp [equals, canonical, zero, h]
  | finite negative significand exponent =>
    cases b with
    | nan => by_cases h : significand = 0 <;> simp [equals, canonical, zero, h]
    | infinite other => by_cases h : significand = 0 <;> simp [equals, canonical, zero, h]
    | finite other significand' exponent' =>
      by_cases h : significand = 0 <;> by_cases h' : significand' = 0
      · simp [equals, canonical, isNan, h, h']
      · simp [equals, canonical, zero, h, h', Ne.symm h']
      · simp [equals, canonical, zero, h, h']
      · simp [equals, canonical, isNan, h, h', and_assoc]

@[simp]
theorem isNan_canonical (a : Binary64) : a.canonical.isNan = a.isNan := by
  cases a with
  | nan => rfl
  | infinite negative => rfl
  | finite negative significand exponent => by_cases h : significand = 0 <;> simp [canonical, zero, isNan, h]

end Binary64

namespace Value

mutual

/-- The value with one zero for both in each float. -/
def canonical : Value → Value
  | .float value => .float value.canonical
  | .list items => .list (canonicalItems items)
  | .object fields => .object (canonicalFields fields)
  | .variable name => .variable name
  | .int value => .int value
  | .string text => .string text
  | .boolean value => .boolean value
  | .null => .null
  | .enum name => .enum name

/-- The canonical forms of the items. -/
def canonicalItems : List Value → List Value
  | [] => []
  | item :: rest => item.canonical :: canonicalItems rest

/-- The fields with the canonical forms of their values. -/
def canonicalFields : List (String × Value) → List (String × Value)
  | [] => []
  | (name, value) :: rest => (name, value.canonical) :: canonicalFields rest

end

mutual

/-- Whether a float anywhere in the value is not a number. -/
def holdsNan : Value → Bool
  | .float value => value.isNan
  | .list items => anyItemHoldsNan items
  | .object fields => anyFieldHoldsNan fields
  | .variable _ | .int _ | .string _ | .boolean _ | .null | .enum _ => false

/-- Whether one is in one of the items. -/
def anyItemHoldsNan : List Value → Bool
  | [] => false
  | item :: rest => item.holdsNan || anyItemHoldsNan rest

/-- Whether one is in one of the fields. -/
def anyFieldHoldsNan : List (String × Value) → Bool
  | [] => false
  | (_, value) :: rest => value.holdsNan || anyFieldHoldsNan rest

end

mutual

/-- **Values are equal** just if they have the same canonical form and all floats in them are numbers. -/
theorem equals_iff (a b : Value) :
    a.equals b = true ↔ a.canonical = b.canonical ∧ a.holdsNan = false := by
  cases a with
  | float value =>
    cases b with
    | float other => simp only [equals, canonical, holdsNan, Value.float.injEq, Binary64.equals_iff]
    | _ => simp [equals, canonical]
  | list items =>
    cases b with
    | list others =>
      simp only [equals, canonical, holdsNan, Value.list.injEq, equalItems_iff items others]
    | _ => simp [equals, canonical]
  | object fields =>
    cases b with
    | object others =>
      simp only [equals, canonical, holdsNan, Value.object.injEq, equalFields_iff fields others]
    | _ => simp [equals, canonical]
  | _ => cases b <;> simp [equals, canonical, holdsNan]

/-- So it is with lists of values. -/
theorem equalItems_iff (as bs : List Value) :
    equalItems as bs = true ↔ canonicalItems as = canonicalItems bs ∧ anyItemHoldsNan as = false := by
  cases as with
  | nil => cases bs <;> simp [equalItems, canonicalItems, anyItemHoldsNan]
  | cons a as =>
    cases bs with
    | nil => simp [equalItems, canonicalItems]
    | cons b bs =>
      rw [equalItems, Bool.and_eq_true, equals_iff a b, equalItems_iff as bs, canonicalItems,
        canonicalItems, List.cons.injEq, anyItemHoldsNan, Bool.or_eq_false_iff, and_and_and_comm]

/-- So it is with named values. -/
theorem equalFields_iff (as bs : List (String × Value)) :
    equalFields as bs = true ↔
      canonicalFields as = canonicalFields bs ∧ anyFieldHoldsNan as = false := by
  cases as with
  | nil => cases bs <;> simp [equalFields, canonicalFields, anyFieldHoldsNan]
  | cons a as =>
    cases bs with
    | nil => simp [equalFields, canonicalFields]
    | cons b bs =>
      rw [equalFields, Bool.and_eq_true, Bool.and_eq_true, equals_iff a.2 b.2, equalFields_iff as bs,
        canonicalFields, canonicalFields, List.cons.injEq, Prod.mk.injEq, beq_iff_eq, anyFieldHoldsNan,
        Bool.or_eq_false_iff]
      simp only [and_assoc, and_left_comm]

end

mutual

@[simp]
theorem holdsNan_canonical (a : Value) : a.canonical.holdsNan = a.holdsNan := by
  cases a with
  | float value => simp only [canonical, holdsNan, Binary64.isNan_canonical]
  | list items => rw [canonical, holdsNan, holdsNan, anyItemHoldsNan_canonicalItems items]
  | object fields => rw [canonical, holdsNan, holdsNan, anyFieldHoldsNan_canonicalFields fields]
  | _ => rw [canonical]

theorem anyItemHoldsNan_canonicalItems (items : List Value) :
    anyItemHoldsNan (canonicalItems items) = anyItemHoldsNan items := by
  cases items with
  | nil => rw [canonicalItems]
  | cons item rest =>
    rw [canonicalItems, anyItemHoldsNan, anyItemHoldsNan, holdsNan_canonical item,
      anyItemHoldsNan_canonicalItems rest]

theorem anyFieldHoldsNan_canonicalFields (fields : List (String × Value)) :
    anyFieldHoldsNan (canonicalFields fields) = anyFieldHoldsNan fields := by
  cases fields with
  | nil => rw [canonicalFields]
  | cons field rest =>
    rw [canonicalFields, anyFieldHoldsNan, anyFieldHoldsNan, holdsNan_canonical field.2,
      anyFieldHoldsNan_canonicalFields rest]

end

end Value

namespace Arguments

/-- The arguments with the canonical forms of their values. -/
def canonical (arguments : Arguments) : Arguments := Value.canonicalFields arguments

/-- Whether a float anywhere in the arguments is not a number. -/
def holdNan (arguments : Arguments) : Bool := Value.anyFieldHoldsNan arguments

/-- **Arguments are equal** just if they have the same canonical form and all floats in them are
numbers. -/
theorem beq_iff (first second : Arguments) :
    (first == second) = true ↔ first.canonical = second.canonical ∧ first.holdNan = false := by
  rw [canonical, canonical, holdNan, ← Value.equalFields_iff]
  induction first generalizing second with
  | nil => cases second <;> simp [Value.equalFields]
  | cons argument rest ih =>
    cases second with
    | nil => simp [Value.equalFields]
    | cons other others =>
      have hhead : (argument == other) = (argument.1 == other.1 && argument.2.equals other.2) := rfl
      rw [List.cons_beq_cons, hhead, Value.equalFields]
      simp only [Bool.and_eq_true, ih]

@[simp]
theorem holdNan_canonical (arguments : Arguments) :
    arguments.canonical.holdNan = arguments.holdNan :=
  Value.anyFieldHoldsNan_canonicalFields arguments

/-- Arguments of one canonical form hold such a float together. -/
theorem holdNan_eq_of_canonical_eq {first second : Arguments} (h : first.canonical = second.canonical) :
    first.holdNan = second.holdNan := by
  rw [← first.holdNan_canonical, h, second.holdNan_canonical]

end Arguments

end SelectionRecall
