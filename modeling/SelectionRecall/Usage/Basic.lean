import SelectionRecall.Document.Value
import SelectionRecall.Keyed

/-!
# Usages

What has been selected on one type: fields with their arguments and with what was selected beneath
them, and parts that apply to a narrower type only. Fields and parts stand in the order in which
they were first seen.

* `Usage`, `FieldUse`: the usage of a type and of one of its fields.
* `Usage.merge`: the union of two usages. Nothing is lost, and newer arguments win.
* `Usage.covers`: whether everything in one usage is also in another.
* `Usage.equals`: equality without regard to order.
* `Usage.fields_addField`, `Usage.parts_addPart`: what is known is merged in its place, what is new
  comes last.
-/

namespace SelectionRecall

mutual

/-- A field that was selected, and what was selected beneath it if it is not a leaf. -/
inductive FieldUse where
  | mk (name : String) (arguments : Arguments) (nested? : Option Usage)

/-- What was selected on a type: its fields, and the parts for narrower types by their names. -/
inductive Usage where
  | mk (fields : List FieldUse) (parts : List (String × Usage))

end

namespace FieldUse

/-- The name of the field. -/
def name : FieldUse → String
  | .mk name _ _ => name

/-- The arguments of the field. -/
def arguments : FieldUse → Arguments
  | .mk _ arguments _ => arguments

/-- What was selected beneath the field, if it is not a leaf. -/
def nested? : FieldUse → Option Usage
  | .mk _ _ nested? => nested?

/-- A field without arguments and without anything beneath it. -/
def leaf (name : String) : FieldUse := .mk name [] none

/-- A field without arguments, with a usage beneath it. -/
def nested (name : String) (usage : Usage) : FieldUse := .mk name [] (some usage)

/-- The field with these arguments, unless one of them mentions a variable: variables belong to the
document in which they were seen. -/
def withArguments (field : FieldUse) (arguments : Arguments) : FieldUse :=
  if arguments.mentionVariable then field else .mk field.name arguments field.nested?

end FieldUse

namespace Usage

/-- The fields in the order in which they were first seen. -/
def fields : Usage → List FieldUse
  | .mk fields _ => fields

/-- The parts for narrower types in the order in which they were first seen. -/
def parts : Usage → List (String × Usage)
  | .mk _ parts => parts

/-- Nothing was selected. -/
def empty : Usage := .mk [] []

/-- One field was selected. -/
def ofField (field : FieldUse) : Usage := .mk [field] []

/-- Something was selected for a narrower type. -/
def ofPart (typeName : String) (part : Usage) : Usage := .mk [] [(typeName, part)]

/-- Whether nothing was selected. -/
def isEmpty (usage : Usage) : Bool := usage.fields.isEmpty && usage.parts.isEmpty

/-- The use of a field. -/
def field? (usage : Usage) (name : String) : Option FieldUse :=
  usage.fields.find? fun field => field.name = name

/-- The part for a narrower type. -/
def part? (usage : Usage) (typeName : String) : Option Usage := usage.parts.lookup typeName

/-- The usage without its parts. -/
def unconditional (usage : Usage) : Usage := .mk usage.fields []

end Usage

/-- The newer arguments, unless there are none. -/
def Arguments.newer (old new : Arguments) : Arguments := if new.isEmpty then old else new

mutual

/-- The union of two uses of a field. -/
def FieldUse.merge (old : FieldUse) : FieldUse → FieldUse
  | .mk _ arguments nested? =>
    .mk old.name (old.arguments.newer arguments) (Usage.mergeNested old.nested? nested?)

/-- The union of what was selected beneath a field. -/
def Usage.mergeNested (old? : Option Usage) : Option Usage → Option Usage
  | none => old?
  | some new =>
    match old? with
    | none => some new
    | some old => some (old.merge new)

/-- The union of two usages. -/
def Usage.merge (old : Usage) : Usage → Usage
  | .mk fields parts => .mk (Usage.mergeFields old.fields fields) (Usage.mergeParts old.parts parts)

/-- Adds fields one by one: a known one is merged in its place, a new one comes last. -/
def Usage.mergeFields (old : List FieldUse) : List FieldUse → List FieldUse
  | [] => old
  | new :: rest =>
    Usage.mergeFields (Keyed.upsert FieldUse.name new.name (fun known => known.merge new) new old) rest

/-- Adds parts one by one: a known one is merged in its place, a new one comes last. -/
def Usage.mergeParts (old : List (String × Usage)) :
    List (String × Usage) → List (String × Usage)
  | [] => old
  | (typeName, new) :: rest =>
    Usage.mergeParts
      (Keyed.upsert Prod.fst typeName (fun known => (known.1, known.2.merge new)) (typeName, new) old)
      rest

end

/-- A field keeps its name. -/
@[simp]
theorem FieldUse.name_merge (old new : FieldUse) : (old.merge new).name = old.name := by
  cases new
  simp [FieldUse.merge, FieldUse.name]

namespace Usage

/-- Adds a field. -/
def addField (usage : Usage) (field : FieldUse) : Usage := usage.merge (ofField field)

/-- Adds a part for a narrower type. -/
def addPart (usage : Usage) (typeName : String) (part : Usage) : Usage :=
  usage.merge (ofPart typeName part)

/-- An added field is merged into the one of its name, or comes last. -/
theorem fields_addField (usage : Usage) (field : FieldUse) :
    (usage.addField field).fields =
      Keyed.upsert FieldUse.name field.name (·.merge field) field usage.fields := by
  simp [addField, ofField, Usage.merge, Usage.mergeFields, fields]

/-- An added field leaves the parts alone. -/
@[simp]
theorem parts_addField (usage : Usage) (field : FieldUse) :
    (usage.addField field).parts = usage.parts := by
  simp [addField, ofField, Usage.merge, Usage.mergeParts, parts]

/-- An added part is merged into the one of its type, or comes last. -/
theorem parts_addPart (usage : Usage) (typeName : String) (part : Usage) :
    (usage.addPart typeName part).parts =
      Keyed.upsert Prod.fst typeName (fun known => (known.1, known.2.merge part)) (typeName, part)
        usage.parts := by
  simp [addPart, ofPart, Usage.merge, Usage.mergeParts, parts]

/-- An added part leaves the fields alone. -/
@[simp]
theorem fields_addPart (usage : Usage) (typeName : String) (part : Usage) :
    (usage.addPart typeName part).fields = usage.fields := by
  simp [addPart, ofPart, Usage.merge, Usage.mergeFields, fields]

mutual

/-- Whether everything in the second usage is also in the first one. Arguments do not matter. -/
def covers (usage : Usage) : Usage → Bool
  | .mk fields parts => coversFields usage fields && coversParts usage parts

/-- Whether all these fields are in the usage, with all that is beneath them. -/
def coversFields (usage : Usage) : List FieldUse → Bool
  | [] => true
  | .mk name _ nested? :: rest =>
    (match usage.field? name with
      | none => false
      | some known => coversNested known.nested? nested?) && coversFields usage rest

/-- Whether everything beneath a field is also beneath a known one. -/
def coversNested (known? : Option Usage) : Option Usage → Bool
  | none => true
  | some nested =>
    match known? with
    | none => false
    | some known => known.covers nested

/-- Whether all these parts are in the usage. -/
def coversParts (usage : Usage) : List (String × Usage) → Bool
  | [] => true
  | (typeName, part) :: rest =>
    (match usage.part? typeName with
      | none => false
      | some known => known.covers part) && coversParts usage rest

end

mutual

/-- Equality without regard to the order of fields and parts. Arguments count in their order. -/
def equals : Usage → Usage → Bool
  | .mk fields parts, other =>
    fields.length == other.fields.length && parts.length == other.parts.length
      && equalFields other fields && equalParts other parts

/-- Whether each of these fields is in the usage as it is. -/
def equalFields (other : Usage) : List FieldUse → Bool
  | [] => true
  | .mk name arguments nested? :: rest =>
    (match other.field? name with
      | none => false
      | some field => arguments == field.arguments && equalNested nested? field.nested?)
      && equalFields other rest

/-- Equality of what was selected beneath a field. -/
def equalNested : Option Usage → Option Usage → Bool
  | none, none => true
  | some nested, some other => nested.equals other
  | _, _ => false

/-- Whether each of these parts is in the usage as it is. -/
def equalParts (other : Usage) : List (String × Usage) → Bool
  | [] => true
  | (typeName, part) :: rest =>
    (match other.part? typeName with
      | none => false
      | some known => part.equals known) && equalParts other rest

end

instance : BEq Usage := ⟨equals⟩

end Usage

/-- Equality of two uses of a field, what is beneath them without regard to order. -/
def FieldUse.equals (field other : FieldUse) : Bool :=
  field.name == other.name && field.arguments == other.arguments
    && Usage.equalNested field.nested? other.nested?

instance : BEq FieldUse := ⟨FieldUse.equals⟩

end SelectionRecall
