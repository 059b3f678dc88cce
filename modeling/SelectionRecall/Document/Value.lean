import SelectionRecall.Number.Binary64

/-!
# GraphQL values

The values that stand in arguments and defaults. The fields of an object are kept in ascending order
of their names, so that the order in which they were written is forgotten.

* `Value`: the type of values.
* `Value.mentionsVariable`: whether a variable occurs anywhere in a value.
* `Value.equals`: equality by variant and content, in which the two zeros of a float agree.
-/

namespace SelectionRecall

/-- A GraphQL value. -/
inductive Value where
  | variable (name : String)
  | int (value : Int)
  | float (value : Binary64)
  | string (text : String)
  | boolean (value : Bool)
  | null
  | enum (name : String)
  | list (items : List Value)
  | object (fields : List (String × Value))
  deriving Repr

/-- Arguments, in the order in which they were written. -/
abbrev Arguments := List (String × Value)

namespace Value

mutual

/-- Whether a variable occurs anywhere in the value. -/
def mentionsVariable : Value → Bool
  | .variable _ => true
  | .list items => anyItemMentions items
  | .object fields => anyFieldMentions fields
  | .int _ | .float _ | .string _ | .boolean _ | .null | .enum _ => false

/-- Whether a variable occurs in one of the items. -/
def anyItemMentions : List Value → Bool
  | [] => false
  | item :: rest => item.mentionsVariable || anyItemMentions rest

/-- Whether a variable occurs in one of the fields. -/
def anyFieldMentions : List (String × Value) → Bool
  | [] => false
  | (_, value) :: rest => value.mentionsVariable || anyFieldMentions rest

end

mutual

/-- Equality by variant and content. -/
def equals : Value → Value → Bool
  | .variable a, .variable b => a == b
  | .int a, .int b => a == b
  | .float a, .float b => a.equals b
  | .string a, .string b => a == b
  | .boolean a, .boolean b => a == b
  | .null, .null => true
  | .enum a, .enum b => a == b
  | .list a, .list b => equalItems a b
  | .object a, .object b => equalFields a b
  | _, _ => false

/-- Equality of lists of values, item by item. -/
def equalItems : List Value → List Value → Bool
  | [], [] => true
  | a :: as, b :: bs => a.equals b && equalItems as bs
  | _, _ => false

/-- Equality of named values, one by one. -/
def equalFields : List (String × Value) → List (String × Value) → Bool
  | [], [] => true
  | (name, a) :: as, (other, b) :: bs => name == other && a.equals b && equalFields as bs
  | _, _ => false

end

instance : BEq Value := ⟨equals⟩

end Value

namespace Arguments

/-- Whether a variable occurs in one of the arguments. -/
def mentionVariable (arguments : Arguments) : Bool :=
  arguments.any fun argument => argument.2.mentionsVariable

end Arguments

end SelectionRecall
