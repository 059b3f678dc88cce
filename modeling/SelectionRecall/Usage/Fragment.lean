import SelectionRecall.Document.Basic
import SelectionRecall.Usage.Table

/-!
# Usages as fragments

A usage written as selections again, and a table of usages as a document with one fragment a type.

* `Usage.toSelections`: the selections that a usage stands for.
* `Usage.toFragment`: a fragment with these selections.
* `UsageTable.toDocument`: the fragments of all types with a usage that is not empty.
-/

namespace SelectionRecall

namespace Usage

mutual

/-- The selections that a usage stands for: its fields, then an inline fragment for each part. -/
def toSelections : Usage → List Selection
  | .mk fields parts => fieldSelections fields ++ partSelections parts

/-- The selections of fields. -/
def fieldSelections : List FieldUse → List Selection
  | [] => []
  | .mk name arguments none :: rest => .field none name arguments [] [] :: fieldSelections rest
  | .mk name arguments (some nested) :: rest =>
    .field none name arguments [] nested.toSelections :: fieldSelections rest

/-- The inline fragments of parts. -/
def partSelections : List (String × Usage) → List Selection
  | [] => []
  | (typeName, part) :: rest =>
    .inline (some typeName) [] part.toSelections :: partSelections rest

end

/-- The fragment of this name on a type that selects what the usage holds. -/
def toFragment (usage : Usage) (name typeName : String) : FragmentDefinition :=
  ⟨name, typeName, [], usage.toSelections⟩

end Usage

/-- The fragments of all types whose usage is not empty. A fragment is named after its type, with a
suffix. -/
def UsageTable.toDocument (table : UsageTable) (suffix : String) : Document :=
  ⟨(table.entries.filter fun entry => !entry.2.isEmpty).map fun entry =>
    .fragment (entry.2.toFragment (entry.1 ++ suffix) entry.1)⟩

end SelectionRecall
