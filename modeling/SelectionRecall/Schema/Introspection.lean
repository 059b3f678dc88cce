/-!
# Introspection results

What a server tells about its schema, as far as it says which type a field returns and which types
stand behind an abstract one.

* `TypeKind`: the kinds of types, with their labels.
* `Introspection.Reference`: a type behind any number of list and non-null wrappers.
* `Introspection`: the root types and all types of a schema.
-/

namespace SelectionRecall

/-- The kind of a type. -/
inductive TypeKind where
  | enum
  | inputObject
  | interface
  | list
  | nonNull
  | object
  | scalar
  | union
  deriving DecidableEq, Repr

namespace TypeKind

/-- All kinds, in the order of their labels. -/
def all : List TypeKind :=
  [.enum, .inputObject, .interface, .list, .nonNull, .object, .scalar, .union]

/-- The label of a kind. -/
def label : TypeKind → String
  | .enum => "ENUM"
  | .inputObject => "INPUT_OBJECT"
  | .interface => "INTERFACE"
  | .list => "LIST"
  | .nonNull => "NON_NULL"
  | .object => "OBJECT"
  | .scalar => "SCALAR"
  | .union => "UNION"

/-- The kind with this label. -/
def ofLabel? (label : String) : Option TypeKind :=
  all.find? fun kind => kind.label = label

/-- Interfaces and unions stand for other types. -/
def isAbstract : TypeKind → Bool
  | .interface | .union => true
  | _ => false

/-- Lists and non-null types wrap another type. -/
def isWrapper : TypeKind → Bool
  | .list | .nonNull => true
  | _ => false

end TypeKind

namespace Introspection

/-- A reference to a type, possibly wrapped: `[Todo!]!` is a non-null list of non-null `Todo`. -/
inductive Reference where
  | mk (kind : TypeKind) (name? : Option String) (ofType? : Option Reference)
  deriving Repr

namespace Reference

/-- The kind of the outermost type. -/
def kind : Reference → TypeKind
  | .mk kind _ _ => kind

/-- The name of the type inside all wrappers, unless the chain of wrappers ends without one. -/
def namedType? : Reference → Option String
  | .mk kind name? none => if kind.isWrapper then none else name?
  | .mk kind name? (some inner) => if kind.isWrapper then inner.namedType? else name?

end Reference

/-- A field of a type. -/
structure Field where
  name : String
  type : Reference
  deriving Repr

/-- A type of the schema. -/
structure TypeEntry where
  kind : TypeKind
  name : String
  fields? : Option (List Field)
  interfaces? : Option (List Reference)
  possibleTypes? : Option (List Reference)
  deriving Repr

end Introspection

/-- An introspection result: the names of the root types, and all types. -/
structure Introspection where
  queryType? : Option String
  mutationType? : Option String
  subscriptionType? : Option String
  types : List Introspection.TypeEntry
  deriving Repr

end SelectionRecall
