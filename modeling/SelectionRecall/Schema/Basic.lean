import SelectionRecall.Document.Basic
import SelectionRecall.Schema.Introspection

/-!
# Schemas

A schema as far as selections need it: the types by name, the named type that each field returns,
and the types that stand behind an abstract one.

* `SchemaType`: one type.
* `Schema.fieldType?`: the named type that a field returns.
* `Schema.implementers`: the types behind an abstract type.
* `Schema.root?`: the type that operations start from.
-/

namespace SelectionRecall

/-- A type of a schema. Each field goes with the named type that it returns; only abstract types have
implementers. -/
structure SchemaType where
  name : String
  kind : TypeKind
  fields : List (String × String)
  implementers : List String
  deriving DecidableEq, Repr

/-- A schema: its root types and its types in the order of their declaration. -/
structure Schema where
  queryType : String
  mutationType? : Option String
  subscriptionType? : Option String
  types : List SchemaType
  deriving DecidableEq, Repr

namespace Schema

/-- The field that every composite type has without declaring it. -/
def typenameField : String := "__typename"

/-- The type that this field returns. -/
def typenameType : String := "String"

/-- The type of a name. -/
def type? (schema : Schema) (name : String) : Option SchemaType :=
  schema.types.find? fun type => type.name = name

/-- Whether the schema has a type of this name. -/
def hasType (schema : Schema) (name : String) : Bool := (schema.type? name).isSome

/-- The kind of a type. -/
def kind? (schema : Schema) (name : String) : Option TypeKind :=
  (schema.type? name).map SchemaType.kind

/-- Whether the name is that of an interface or a union. -/
def isAbstract (schema : Schema) (name : String) : Bool :=
  (schema.kind? name).any TypeKind.isAbstract

/-- The types behind an abstract type; none for any other name. -/
def implementers (schema : Schema) (name : String) : List String :=
  ((schema.type? name).map SchemaType.implementers).getD []

/-- The named type that a field of a type returns. Objects, interfaces and unions have the field
`__typename` without declaring it. -/
def fieldType? (schema : Schema) (typeName fieldName : String) : Option String :=
  match schema.type? typeName with
  | none => none
  | some type =>
    match type.fields.lookup fieldName with
    | some returned => some returned
    | none =>
      if fieldName = typenameField ∧ (type.kind = .object ∨ type.kind.isAbstract) then
        some typenameType
      else none

/-- The type that operations start from. -/
def root? (schema : Schema) : OperationType → Option String
  | .query => some schema.queryType
  | .mutation => schema.mutationType?
  | .subscription => schema.subscriptionType?

end Schema

end SelectionRecall
