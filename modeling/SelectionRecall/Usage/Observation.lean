import SelectionRecall.Schema.Basic
import SelectionRecall.Usage.Table

/-!
# Observing documents

What a document selects on each type. Selections are read against a schema: unknown fields and types
are skipped, and so is a field or fragment beneath which nothing is left. A fragment on the enclosing
type itself, or on an interface that it implements, belongs to the usage of that type; any other one
becomes a part. Fragment spreads are read in place, a spread inside its own fragment being skipped.

* `Observed`: the usage of a selection set, and the usages seen beneath it in the order of sight.
* `Schema.observe`: reads a selection set.
* `Document.observations`, `Document.usages`: what a document selects.
-/

namespace SelectionRecall

/-- What was read: the usage of the enclosing type, and the usages of the types of nested fields and
of fragments, inner ones before outer ones. -/
structure Observed where
  usage : Usage
  seen : List (String × Usage)

namespace Observed

/-- Nothing was read. -/
def nothing : Observed := ⟨.empty, []⟩

/-- A selection and those behind it. -/
def andThen (first rest : Observed) : Observed := ⟨rest.usage, first.seen ++ rest.seen⟩

/-- The usage of a field that returns a composite type, given what was read beneath it. -/
def field (returned name : String) (arguments : Arguments) (nested : Observed) : Observed :=
  if nested.usage.isEmpty then ⟨.empty, nested.seen⟩
  else
    ⟨.ofField ((FieldUse.nested name nested.usage).withArguments arguments),
      nested.seen ++ [(returned, nested.usage)]⟩

/-- The usage of a fragment on `condition` inside `typeName`, given what was read in it. -/
def fragment (schema : Schema) (typeName condition : String) (inner : Observed) : Observed :=
  if inner.usage.isEmpty then ⟨.empty, inner.seen⟩
  else if condition = typeName then inner
  else if typeName ∈ schema.implementers condition then
    ⟨inner.usage, inner.seen ++ [(condition, inner.usage)]⟩
  else ⟨.ofPart condition inner.usage, inner.seen ++ [(condition, inner.usage)]⟩

end Observed

/-- How a fragment spread is read, given the enclosing type and the name of the fragment. -/
abbrev SpreadReader := String → String → Observed

namespace Schema

variable (schema : Schema)

mutual

/-- Reads a selection inside a type. -/
def observeSelection (spread : SpreadReader) (typeName : String) : Selection → Observed
  | .field _ name arguments _ selections =>
    match schema.fieldType? typeName name with
    | none => .nothing
    | some returned =>
      if selections.isEmpty then ⟨.ofField ((FieldUse.leaf name).withArguments arguments), []⟩
      else .field returned name arguments (observeSelections spread returned .empty selections)
  | .inline condition? _ selections =>
    let condition := condition?.getD typeName
    if schema.hasType condition then
      .fragment schema typeName condition (observeSelections spread condition .empty selections)
    else .nothing
  | .spread fragment _ => spread typeName fragment

/-- Reads selections inside a type and adds them to a usage. -/
def observeSelections (spread : SpreadReader) (typeName : String) (usage : Usage) :
    List Selection → Observed
  | [] => ⟨usage, []⟩
  | selection :: rest =>
    let first := observeSelection spread typeName selection
    first.andThen (observeSelections spread typeName (usage.merge first.usage) rest)

end

/-- Reads the spread of a fragment that is defined and not being read already. Fragments are read
inside each other at most as often as there are fragments, so that `depth` need not exceed their
number. -/
def spreadReader (fragment? : String → Option FragmentDefinition) :
    (depth : Nat) → (reading : List String) → SpreadReader
  | 0, _, _, _ => .nothing
  | depth + 1, reading, typeName, name =>
    match fragment? name with
    | none => .nothing
    | some fragment =>
      if name ∈ reading then .nothing
      else if schema.hasType fragment.condition then
        .fragment schema typeName fragment.condition
          (schema.observeSelections (spreadReader fragment? depth (name :: reading))
            fragment.condition .empty fragment.selections)
      else .nothing

/-- Reads a selection set inside a type, with the fragments of a document. -/
def observe (document : Document) (typeName : String) (selections : List Selection) : Observed :=
  schema.observeSelections (schema.spreadReader document.fragment? document.fragments.length [])
    typeName .empty selections

end Schema

namespace Document

/-- The usages that an operation shows. Mutations, and operations without a root type, show none. -/
def operationObservations (document : Document) (schema : Schema)
    (operation : OperationDefinition) : List (String × Usage) :=
  if operation.type = .mutation then []
  else
    match schema.root? operation.type with
    | none => []
    | some root => (schema.observe document root operation.selections).seen

/-- The usages that a document shows, in the order of sight. -/
def observations (document : Document) (schema : Schema) : List (String × Usage) :=
  document.operations.flatMap (document.operationObservations schema)

/-- The usages that a document shows, by type. -/
def usages (document : Document) (schema : Schema) : UsageTable :=
  UsageTable.empty.mergeEntries (document.observations schema)

end Document

end SelectionRecall
