import SelectionRecall.Keyed
import SelectionRecall.Number.Binary64

/-!
# JSON values

Values of the data-interchange format. Whole numbers and floating-point numbers are told apart, and
the members of an object stand in ascending order of their keys.

* `Json`: the type of values.
* `Json.member?`: the value of a key of an object.
-/

namespace SelectionRecall

/-- A JSON value. -/
inductive Json where
  | null
  | boolean (value : Bool)
  | integer (value : Int)
  | float (value : Binary64)
  | string (value : String)
  | array (items : List Json)
  | object (members : List (String × Json))
  deriving Inhabited, Repr

namespace Json

/-- The value of a key, if the value is an object that has it. -/
def member? (key : String) : Json → Option Json
  | .object members => members.lookup key
  | _ => none

/-- A member of an object is smaller than the object. -/
theorem sizeOf_lookup {members : List (String × Json)} {key : String} {value : Json}
    (h : members.lookup key = some value) : sizeOf value < sizeOf (Json.object members) := by
  have hm : (key, value) ∈ members := by
    induction members with
    | nil => simp at h
    | cons head rest ih =>
      rw [List.lookup_cons] at h
      split at h
      · rename_i heq
        obtain rfl : head.2 = value := by simpa using h
        obtain rfl : key = head.1 := by simpa using heq
        simp
      · exact List.mem_cons_of_mem _ (ih h)
  have := List.sizeOf_lt_of_mem hm
  simp at this ⊢
  omega

/-- The value of a key is smaller than the object. -/
theorem sizeOf_member? {json value : Json} {key : String} (h : json.member? key = some value) :
    sizeOf value < sizeOf json := by
  cases json with
  | object members => exact sizeOf_lookup h
  | _ => simp [member?] at h

end Json

end SelectionRecall
