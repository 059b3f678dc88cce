import SelectionRecall.Json.Printer
import SelectionRecall.Schema.Introspection
import SelectionRecall.Text.Quoted

/-!
# Introspection results as JSON

Reading and writing introspection results. A record is an object or the array of its values in the
order of its keys. The members of an object are looked at in ascending order of their keys, unknown
ones being skipped; required keys that are missing are noticed at the end.

* `ShapeError`: why a value is no introspection result.
* `RecordShape`: the keys of a record, and how they are found in a value.
* `Introspection.ofJson`, `Introspection.toJson`: reading and writing.
* `Introspection.locate?`: the place of the schema inside the answer of a server.
-/

namespace SelectionRecall

/-- A kind of record: its name and its keys in the order of an array. -/
structure RecordShape where
  name : String
  keys : List String
  deriving DecidableEq, Repr

/-- Why a value is no introspection result. -/
inductive ShapeError where
  | wrongType (found : Json) (expected : String)
  | missingKey (key : String)
  | tooShort (length : Nat) (record : RecordShape)
  | tooLong (length : Nat)
  | unknownKind (label : String)
  | severalKinds
  deriving Repr

namespace RecordShape

/-- How a record of this kind is called in messages. -/
def title (record : RecordShape) : String := "struct " ++ record.name

/-- How an array with all values of the record is called in messages. -/
def arrayTitle (record : RecordShape) : String :=
  let count := record.keys.length
  record.title ++ " with " ++ toString count ++ (if count = 1 then " element" else " elements")

end RecordShape

/-- How a value is called in messages. -/
def Json.title : Json → String
  | .null => "null"
  | .boolean value => "boolean `" ++ (if value then "true" else "false") ++ "`"
  | .integer value => "integer `" ++ toString value ++ "`"
  | .float value => "floating point `" ++ value.interchangeText ++ "`"
  | .string value => "string " ++ Text.quoted value
  | .array _ => "sequence"
  | .object _ => "map"

/-- The text of the error. -/
def ShapeError.message : ShapeError → String
  | .wrongType found expected => "invalid type: " ++ found.title ++ ", expected " ++ expected
  | .missingKey key => "missing field `" ++ key ++ "`"
  | .tooShort length record =>
    "invalid length " ++ toString length ++ ", expected " ++ record.arrayTitle
  | .tooLong length =>
    "invalid length " ++ toString length ++ ", expected fewer elements in array"
  | .unknownKind label =>
    "unknown variant `" ++ label ++ "`, expected one of "
      ++ ", ".intercalate (TypeKind.all.map fun kind => "`" ++ kind.label ++ "`")
  | .severalKinds => "invalid value: map, expected map with a single key"

namespace RecordShape

/-- The value of a key: by name in an object, by position in an array. -/
def slot? (record : RecordShape) (json : Json) (key : String) : Option Json :=
  match json with
  | .object members => members.lookup key
  | .array items => items[record.keys.idxOf key]?
  | _ => none

/-- Fails unless the value is an object or an array. -/
def check (record : RecordShape) : Json → Except ShapeError Unit
  | .object _ | .array _ => .ok ()
  | other => .error (.wrongType other record.title)

/-- Fails if the value is an array that is longer than the record. -/
def checkLength (record : RecordShape) : Json → Except ShapeError Unit
  | .array items => if record.keys.length < items.length then .error (.tooLong items.length) else .ok ()
  | _ => .ok ()

/-- The value of a key that may not be missing. -/
def require {α : Type} (record : RecordShape) (json : Json) (key : String) :
    Option α → Except ShapeError α
  | some value => .ok value
  | none =>
    match json with
    | .array _ => .error (.tooShort (record.keys.idxOf key) record)
    | _ => .error (.missingKey key)

end RecordShape

namespace Json

/-- The items of an array. -/
def asArray : Json → Except ShapeError (List Json)
  | .array items => .ok items
  | other => .error (.wrongType other "a sequence")

/-- The text of a string. -/
def asString : Json → Except ShapeError String
  | .string text => .ok text
  | other => .error (.wrongType other "a string")

/-- Nothing for a null, else what `decode` reads. -/
def asOption {α : Type} (decode : Json → Except ShapeError α) : Json → Except ShapeError (Option α)
  | .null => .ok none
  | other => (decode other).map some

/-- What `decode` reads from a value that may be missing or null. -/
def ofSlot {α : Type} (decode : Json → Except ShapeError α) :
    Option Json → Except ShapeError (Option α)
  | none => .ok none
  | some json => asOption decode json

/-- A value of a slot is smaller than the record. -/
theorem sizeOf_slot? {record : RecordShape} {json value : Json} {key : String}
    (h : record.slot? json key = some value) : sizeOf value < sizeOf json := by
  cases json with
  | object members => exact sizeOf_lookup h
  | array items =>
    have := List.sizeOf_lt_of_mem (List.mem_of_getElem? h)
    simp at this ⊢
    omega
  | _ => simp [RecordShape.slot?] at h

end Json

/-- The kind that a value gives: its label, or an object whose only key is the label and whose value
is null. -/
def TypeKind.ofJson : Json → Except ShapeError TypeKind
  | .string label => ofName label
  | .object [(label, value)] => do
    let kind ← ofName label
    match value with
    | .null => .ok kind
    | other => .error (.wrongType other "unit")
  | .object _ => .error .severalKinds
  | other => .error (.wrongType other "string or map")
where
  /-- The kind with this label. -/
  ofName (label : String) : Except ShapeError TypeKind :=
    match ofLabel? label with
    | some kind => .ok kind
    | none => .error (.unknownKind label)

namespace Introspection

/-- The record of a root type. -/
def rootRecord : RecordShape := ⟨"NamedTypeRef", ["name"]⟩

/-- The record of a reference to a type. -/
def referenceRecord : RecordShape := ⟨"IntrospectionTypeRef", ["kind", "name", "ofType"]⟩

/-- The record of a field. -/
def fieldRecord : RecordShape := ⟨"IntrospectionField", ["name", "type"]⟩

/-- The record of a type. -/
def typeRecord : RecordShape :=
  ⟨"IntrospectionType", ["kind", "name", "fields", "interfaces", "possibleTypes"]⟩

/-- The record of an introspection result. -/
def record : RecordShape :=
  ⟨"IntrospectionSchema", ["queryType", "mutationType", "subscriptionType", "types"]⟩

/-- The name of a root type. -/
def rootOfJson (json : Json) : Except ShapeError String := do
  rootRecord.check json
  let name? ← (rootRecord.slot? json "name").mapM Json.asString
  let name ← rootRecord.require json "name" name?
  rootRecord.checkLength json
  return name

/-- A reference to a type. -/
def Reference.ofJson (json : Json) : Except ShapeError Reference := do
  referenceRecord.check json
  let kind? ← (referenceRecord.slot? json "kind").mapM TypeKind.ofJson
  let name? ← Json.ofSlot Json.asString (referenceRecord.slot? json "name")
  let ofType? ← match _h : referenceRecord.slot? json "ofType" with
    | none | some .null => pure none
    | some inner => (Reference.ofJson inner).map some
  let kind ← referenceRecord.require json "kind" kind?
  referenceRecord.checkLength json
  return .mk kind name? ofType?
  termination_by sizeOf json
  decreasing_by exact Json.sizeOf_slot? _h

/-- A field of a type. -/
def Field.ofJson (json : Json) : Except ShapeError Field := do
  fieldRecord.check json
  let name? ← (fieldRecord.slot? json "name").mapM Json.asString
  let type? ← (fieldRecord.slot? json "type").mapM Reference.ofJson
  let name ← fieldRecord.require json "name" name?
  let type ← fieldRecord.require json "type" type?
  fieldRecord.checkLength json
  return ⟨name, type⟩

/-- What `decode` reads from each item of an array. -/
def listOfJson {α : Type} (decode : Json → Except ShapeError α) (json : Json) :
    Except ShapeError (List α) := do
  (← json.asArray).mapM decode

/-- Whether a value is an array. -/
def isArray : Json → Bool
  | .array _ => true
  | _ => false

/-- A type. In an array its kind and name come before its fields. -/
def TypeEntry.ofJson (json : Json) : Except ShapeError TypeEntry := do
  typeRecord.check json
  let kind := (typeRecord.slot? json "kind").mapM TypeKind.ofJson
  let name := (typeRecord.slot? json "name").mapM Json.asString
  if isArray json then
    let _ ← kind
    let _ ← name
  let fields? ← Json.ofSlot (listOfJson Field.ofJson) (typeRecord.slot? json "fields")
  let interfaces? ← Json.ofSlot (listOfJson Reference.ofJson) (typeRecord.slot? json "interfaces")
  let kind? ← kind
  let name? ← name
  let possibleTypes? ←
    Json.ofSlot (listOfJson Reference.ofJson) (typeRecord.slot? json "possibleTypes")
  let kind ← typeRecord.require json "kind" kind?
  let name ← typeRecord.require json "name" name?
  typeRecord.checkLength json
  return ⟨kind, name, fields?, interfaces?, possibleTypes?⟩

/-- An introspection result. In an array the query type comes first, and it may not be missing. -/
def ofJson (json : Json) : Except ShapeError Introspection := do
  record.check json
  let queryType := Json.ofSlot rootOfJson (record.slot? json "queryType")
  if isArray json then
    let _ ← queryType
  let mutationType? ← Json.ofSlot rootOfJson (record.slot? json "mutationType")
  let queryType? ← queryType
  let subscriptionType? ← Json.ofSlot rootOfJson (record.slot? json "subscriptionType")
  let types? ← (record.slot? json "types").mapM (listOfJson TypeEntry.ofJson)
  if isArray json then
    let _ ← record.require json "queryType" (record.slot? json "queryType")
  let types ← record.require json "types" types?
  record.checkLength json
  return ⟨queryType?, mutationType?, subscriptionType?, types⟩

/-- A value that may be missing, which is written as null. -/
def optionToJson {α : Type} (encode : α → Json) : Option α → Json
  | none => .null
  | some value => encode value

/-- A list, written as an array. -/
def listToJson {α : Type} (encode : α → Json) (items : List α) : Json := .array (items.map encode)

/-- The name of a root type as a record. -/
def rootToJson (name : String) : Json := .object [("name", .string name)]

/-- The record of a reference to a type. -/
def Reference.toJson : Reference → Json
  | .mk kind name? none =>
    .object [("kind", .string kind.label), ("name", optionToJson .string name?), ("ofType", .null)]
  | .mk kind name? (some inner) =>
    .object [("kind", .string kind.label), ("name", optionToJson .string name?),
      ("ofType", inner.toJson)]

/-- The record of a field. -/
def Field.toJson (field : Field) : Json :=
  .object [("name", .string field.name), ("type", field.type.toJson)]

/-- The record of a type. -/
def TypeEntry.toJson (entry : TypeEntry) : Json :=
  .object [("fields", optionToJson (listToJson Field.toJson) entry.fields?),
    ("interfaces", optionToJson (listToJson Reference.toJson) entry.interfaces?),
    ("kind", .string entry.kind.label), ("name", .string entry.name),
    ("possibleTypes", optionToJson (listToJson Reference.toJson) entry.possibleTypes?)]

/-- The record of an introspection result. -/
def toJson (introspection : Introspection) : Json :=
  .object [("mutationType", optionToJson rootToJson introspection.mutationType?),
    ("queryType", optionToJson rootToJson introspection.queryType?),
    ("subscriptionType", optionToJson rootToJson introspection.subscriptionType?),
    ("types", listToJson TypeEntry.toJson introspection.types)]

/-- The schema inside an answer: behind any number of `data` keys, the value of `__schema`, or the
object itself if it has a key `types`. -/
def locate? (json : Json) : Option Json :=
  match _h : json.member? "data" with
  | some inner => locate? inner
  | none =>
    match json.member? "__schema" with
    | some schema => some schema
    | none => (json.member? "types").map fun _ => json
  termination_by sizeOf json
  decreasing_by exact Json.sizeOf_member? _h

end Introspection

end SelectionRecall
