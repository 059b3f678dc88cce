import SelectionRecall.Document.Value

/-!
# GraphQL documents

The syntax trees of executable documents: operations and fragments, made of selections.

* `Selection`: a field, the spread of a fragment, or an inline fragment.
* `OperationDefinition`: an operation; the shorthand `{ .. }` has no head and is a query.
* `FragmentDefinition`: a named fragment on a type.
* `Document`: the definitions in the order of the text.
-/

namespace SelectionRecall

/-- A directive such as `@include(if: true)`. -/
structure Directive where
  name : String
  arguments : Arguments
  deriving BEq, Repr

/-- A reference to a type, as a variable is declared with. -/
inductive TypeReference where
  | named (name : String)
  | list (item : TypeReference)
  | nonNull (inner : TypeReference)
  deriving DecidableEq, Repr

/-- The declaration of a variable of an operation. -/
structure VariableDefinition where
  name : String
  type : TypeReference
  default? : Option Value
  deriving BEq, Repr

/-- One selection of a selection set. A field without a selection set has no selections. -/
inductive Selection where
  | field (alias? : Option String) (name : String) (arguments : Arguments)
      (directives : List Directive) (selections : List Selection)
  | spread (fragment : String) (directives : List Directive)
  | inline (condition? : Option String) (directives : List Directive)
      (selections : List Selection)
  deriving BEq, Repr

/-- What an operation does. -/
inductive OperationType where
  | query
  | mutation
  | subscription
  deriving DecidableEq, Repr

/-- Everything that stands in front of the selection set of an operation. -/
structure OperationHead where
  type : OperationType
  name? : Option String
  variableDefinitions : List VariableDefinition
  directives : List Directive
  deriving BEq, Repr

/-- An operation. The shorthand form has a selection set only. -/
structure OperationDefinition where
  head? : Option OperationHead
  selections : List Selection
  deriving BEq, Repr

/-- A fragment on the type `condition`. -/
structure FragmentDefinition where
  name : String
  condition : String
  directives : List Directive
  selections : List Selection
  deriving BEq, Repr

/-- A definition of a document. -/
inductive Definition where
  | operation (definition : OperationDefinition)
  | fragment (definition : FragmentDefinition)
  deriving BEq, Repr

/-- An executable document. -/
structure Document where
  definitions : List Definition
  deriving BEq, Repr

namespace OperationDefinition

/-- What the operation does; the shorthand form is a query. -/
def type (operation : OperationDefinition) : OperationType :=
  match operation.head? with
  | none => .query
  | some head => head.type

end OperationDefinition

namespace Definition

/-- The operation that the definition is, if it is one. -/
def operation? : Definition → Option OperationDefinition
  | .operation definition => some definition
  | .fragment _ => none

/-- The fragment that the definition is, if it is one. -/
def fragment? : Definition → Option FragmentDefinition
  | .operation _ => none
  | .fragment definition => some definition

/-- The selections of the definition. -/
def selections : Definition → List Selection
  | .operation definition => definition.selections
  | .fragment definition => definition.selections

end Definition

namespace Document

/-- The operations of the document, in order. -/
def operations (document : Document) : List OperationDefinition :=
  document.definitions.filterMap Definition.operation?

/-- The fragments of the document, in order. -/
def fragments (document : Document) : List FragmentDefinition :=
  document.definitions.filterMap Definition.fragment?

/-- The fragment of a name. Of two fragments with one name the later one counts. -/
def fragment? (document : Document) (name : String) : Option FragmentDefinition :=
  document.fragments.reverse.find? fun fragment => fragment.name = name

/-- What the first operation does. A document without operations counts as a query. -/
def type (document : Document) : OperationType :=
  match document.operations with
  | [] => .query
  | first :: _ => first.type

end Document

end SelectionRecall
