import SelectionRecall.Json.Parser
import SelectionRecall.Keyed
import SelectionRecall.Schema.Basic
import SelectionRecall.Schema.Decoding

/-!
# Building schemas

A schema is built from an introspection result whose references all lead to declared types. What
`possibleTypes` lists stands behind an abstract type; an abstract type that lists nothing has the
object types that name it among their interfaces.

* `ReferenceError`: a reference that leads nowhere.
* `SchemaError`: why there is no schema, with its message.
* `Introspection.referenceErrors`: all references that lead nowhere.
* `Schema.ofIntrospection`, `Schema.ofJson`, `Schema.ofText`: building.
-/

namespace SelectionRecall

/-- A reference that leads nowhere. -/
inductive ReferenceError where
  | unnamedFieldType (type field : String)
  | undefinedFieldType (type field returned : String)
  | undefinedPossibleType (type possible : String)
  | undefinedInterface (type interface : String)
  | invalidRoot (operation : OperationType) (type : String)
  deriving DecidableEq, Repr

/-- Why there is no schema. -/
inductive SchemaError where
  | notJson
  | wrongShape (cause : ShapeError)
  | noSchema
  | duplicateType (name : String)
  | noQueryType
  | brokenReferences (errors : List ReferenceError)
  deriving Repr

/-- The title of a kind of operation. -/
def OperationType.title : OperationType → String
  | .query => "Query"
  | .mutation => "Mutation"
  | .subscription => "Subscription"

/-- The text of the error. -/
def ReferenceError.message : ReferenceError → String
  | .unnamedFieldType type field =>
    "The return type of `" ++ type ++ "." ++ field ++ "` has no named type"
  | .undefinedFieldType type field returned =>
    "`" ++ type ++ "." ++ field ++ "` returns undefined type `" ++ returned ++ "`"
  | .undefinedPossibleType type possible =>
    "`" ++ type ++ "` lists undefined possible type `" ++ possible ++ "`"
  | .undefinedInterface type interface =>
    "`" ++ type ++ "` implements undefined interface `" ++ interface ++ "`"
  | .invalidRoot operation type =>
    "The " ++ operation.title ++ " root operation type `" ++ type
      ++ "` is not an object type defined in the schema"

/-- The text of the error. -/
def SchemaError.message : SchemaError → String
  | .notJson => "Introspection input does not have the expected shape"
  | .wrongShape cause =>
    "Introspection input does not have the expected shape: " ++ cause.message
  | .noSchema => "No `__schema` object was found in the introspection input"
  | .duplicateType name => "Multiple introspected types share the name `" ++ name ++ "`"
  | .noQueryType => "The introspected schema does not declare a `queryType`"
  | .brokenReferences errors =>
    "Encountered the following type-reference errors while indexing the schema:\n\n"
      ++ "\n".intercalate (errors.map fun error => "  * " ++ error.message)

namespace Introspection

namespace TypeEntry

/-- The fields of a type with the named types that they return. Of two fields with one name the later
one counts, at the place of the earlier. -/
def fieldTypes (entry : TypeEntry) : List (String × String) :=
  (entry.fields?.getD []).foldl (fun types field =>
    match field.type.namedType? with
    | some returned => Keyed.set field.name returned types
    | none => types) []

/-- The fields whose type has no name. -/
def unnamedFields (entry : TypeEntry) : List ReferenceError :=
  (entry.fields?.getD []).filterMap fun field =>
    match field.type.namedType? with
    | some _ => none
    | none => some (.unnamedFieldType entry.name field.name)

/-- Whether an object type names an interface. -/
def implements (entry : TypeEntry) (interface : String) : Bool :=
  entry.kind = .object
    && (entry.interfaces?.getD []).any fun reference => reference.namedType? = some interface

end TypeEntry

/-- Whether a type of this name is declared. -/
def declares (introspection : Introspection) (name : String) : Bool :=
  introspection.types.any fun entry => entry.name = name

/-- The first name that an earlier type already has. -/
def duplicate? (introspection : Introspection) : Option String :=
  go [] introspection.types
where
  /-- The first type whose name is among those seen or repeats one before it. -/
  go (seen : List String) : List TypeEntry → Option String
    | [] => none
    | entry :: rest =>
      if entry.name ∈ seen then some entry.name else go (entry.name :: seen) rest

/-- The types behind a type. -/
def implementersOf (introspection : Introspection) (entry : TypeEntry) : List String :=
  if entry.kind.isAbstract then
    match entry.possibleTypes? with
    | some references =>
      (references.filterMap Reference.namedType?).filter introspection.declares
    | none =>
      (introspection.types.filter fun other => other.implements entry.name).map TypeEntry.name
  else []

/-- A type as the schema holds it. -/
def schemaType (introspection : Introspection) (entry : TypeEntry) : SchemaType :=
  ⟨entry.name, entry.kind, entry.fieldTypes, introspection.implementersOf entry⟩

/-- The fields of a type that return no declared type. -/
def undefinedFields (introspection : Introspection) (entry : TypeEntry) : List ReferenceError :=
  entry.fieldTypes.filterMap fun (field, returned) =>
    if introspection.declares returned then none
    else some (.undefinedFieldType entry.name field returned)

/-- The possible types of an abstract type that are not declared. -/
def undefinedPossibleTypes (introspection : Introspection) (entry : TypeEntry) :
    List ReferenceError :=
  if entry.kind.isAbstract then
    ((entry.possibleTypes?.getD []).filterMap Reference.namedType?).filterMap fun possible =>
      if introspection.declares possible then none
      else some (.undefinedPossibleType entry.name possible)
  else []

/-- The interfaces of an object type that are not declared. -/
def undefinedInterfaces (introspection : Introspection) (entry : TypeEntry) :
    List ReferenceError :=
  if entry.kind = .object then
    ((entry.interfaces?.getD []).filterMap Reference.namedType?).filterMap fun interface =>
      if introspection.declares interface then none
      else some (.undefinedInterface entry.name interface)
  else []

/-- The root type of a kind of operation, if it is not a declared object type. -/
def invalidRoot (introspection : Introspection) (operation : OperationType) :
    Option String → List ReferenceError
  | none => []
  | some name =>
    if introspection.types.any fun entry => entry.name = name && entry.kind = .object then []
    else [.invalidRoot operation name]

/-- The types in ascending order of their names. -/
def sortedTypes (introspection : Introspection) : List TypeEntry :=
  introspection.types.mergeSort fun a b => a.name ≤ b.name

/-- All references that lead nowhere: field types without a name, undefined field types by the name
of their owner, undefined possible types, undefined interfaces, and root types. -/
def referenceErrors (introspection : Introspection) : List ReferenceError :=
  introspection.types.flatMap TypeEntry.unnamedFields
    ++ introspection.sortedTypes.flatMap introspection.undefinedFields
    ++ introspection.types.flatMap introspection.undefinedPossibleTypes
    ++ introspection.types.flatMap introspection.undefinedInterfaces
    ++ introspection.invalidRoot .query introspection.queryType?
    ++ introspection.invalidRoot .mutation introspection.mutationType?
    ++ introspection.invalidRoot .subscription introspection.subscriptionType?

end Introspection

namespace Schema

/-- The schema of an introspection result. A repeated type name is noticed first, then a missing
query type, then all references that lead nowhere. -/
def ofIntrospection (introspection : Introspection) : Except SchemaError Schema :=
  match introspection.duplicate?, introspection.queryType?, introspection.referenceErrors with
  | some name, _, _ => .error (.duplicateType name)
  | none, none, _ => .error .noQueryType
  | none, some queryType, [] =>
    .ok ⟨queryType, introspection.mutationType?, introspection.subscriptionType?,
      introspection.types.map introspection.schemaType⟩
  | none, some _, errors => .error (.brokenReferences errors)

/-- The schema inside an answer of a server. -/
def ofJson (json : Json) : Except SchemaError Schema :=
  match Introspection.locate? json with
  | none => .error .noSchema
  | some inner =>
    match Introspection.ofJson inner with
    | .error cause => .error (.wrongShape cause)
    | .ok introspection => ofIntrospection introspection

/-- The depth to which arrays and objects may nest in the text of an answer. -/
def maxDepth : Nat := 127

/-- The schema inside the text of an answer. -/
def ofText (text : String) : Except SchemaError Schema :=
  match Json.parse? maxDepth text with
  | none => .error .notJson
  | some json => ofJson json

end Schema

end SelectionRecall
