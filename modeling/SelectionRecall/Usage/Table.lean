import SelectionRecall.Usage.Basic

/-!
# Usage tables

The usage of each type that was seen, in the order in which the types were first seen. A table only
grows: what is merged into it is united with what it holds, and nothing is dropped.

* `UsageTable`: the usages by type.
* `UsageTable.merge`, `UsageTable.mergeAll`: adding a usage, or all of another table.
* `UsageTable.typeNames_merge`: a type that was seen keeps its place, and a new one comes last.
-/

namespace SelectionRecall

/-- The usages of types, in the order in which the types were first seen. -/
structure UsageTable where
  entries : List (String × Usage)

namespace UsageTable

/-- The table without entries. -/
def empty : UsageTable := ⟨[]⟩

/-- The usage of a type. -/
def get? (table : UsageTable) (typeName : String) : Option Usage := table.entries.lookup typeName

/-- The usage of a type, unless it is empty. -/
def getNonEmpty? (table : UsageTable) (typeName : String) : Option Usage :=
  (table.get? typeName).filter fun usage => !usage.isEmpty

/-- The names of the types, in order. -/
def typeNames (table : UsageTable) : List String := table.entries.map Prod.fst

/-- The number of types. -/
def size (table : UsageTable) : Nat := table.entries.length

/-- Whether no type was seen. -/
def isEmpty (table : UsageTable) : Bool := table.entries.isEmpty

/-- Adds a usage of a type. -/
def merge (table : UsageTable) (typeName : String) (usage : Usage) : UsageTable :=
  ⟨Keyed.upsert Prod.fst typeName (fun known => (known.1, known.2.merge usage)) (typeName, usage)
    table.entries⟩

/-- A type that was seen keeps its place, and a new one comes last. -/
theorem typeNames_merge (table : UsageTable) (typeName : String) (usage : Usage) :
    (table.merge typeName usage).typeNames =
      if typeName ∈ table.typeNames then table.typeNames else table.typeNames ++ [typeName] := by
  refine Keyed.map_upsert ?_ ?_ table.entries
  · exact fun _ h => h
  · rfl

/-- Adds usages of types one by one. -/
def mergeEntries (table : UsageTable) (entries : List (String × Usage)) : UsageTable :=
  entries.foldl (fun table entry => table.merge entry.1 entry.2) table

/-- Adds all entries of another table. -/
def mergeAll (table other : UsageTable) : UsageTable := table.mergeEntries other.entries

/-- Equality without regard to order. -/
def equals (table other : UsageTable) : Bool :=
  table.size == other.size && table.entries.all fun entry =>
    match other.get? entry.1 with
    | none => false
    | some usage => entry.2 == usage

instance : BEq UsageTable := ⟨equals⟩

end UsageTable

end SelectionRecall
