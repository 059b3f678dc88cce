import SelectionRecall.Proofs.Expansion.Sparing
import SelectionRecall.Proofs.Expansion.Variables
import SelectionRecall.Proofs.Usage.Stored

/-!
# What is built is orderly

Arguments come into usages by one way only, which none with a variable passes. From there they travel
through every union, beneath fields and into parts, and in the end into the fragments that are written and
generated. No variable can be in these, and at every depth each field stands under its own name.

* `UsageTable.VariableFree.variableNames_toDocument`,
  `Expansion.variableNames_of_mem_drop_expand`: fragments without variables.
* `UsageTable.Orderly`: a table in which each usage is orderly at every depth, and what comes of it.
* `UsageTable.Built.orderly`: tables that are built are such tables.
* `StoredUsage.orderly_of_built`: whatever the operations build.
* `StoredUsage.orderly_of_built_todos`: a variable inside an object in a list.
-/

namespace SelectionRecall

/-- No variable is in the fragments that a table without variables is written as. -/
theorem UsageTable.VariableFree.variableNames_toDocument {table : UsageTable} (h : table.VariableFree)
    (suffix : String) {definition : Definition}
    (hdefinition : definition ∈ (table.toDocument suffix).definitions) :
    definition.variableNames = [] := by
  obtain ⟨entry, hentry, rfl⟩ := List.mem_map.1 hdefinition
  exact (h entry (List.mem_filter.1 hentry).1).variableNames_toFragment _ _

/-- **No variable is in the fragments that are generated** from a table without variables. -/
theorem Expansion.variableNames_of_mem_drop_expand {expansion : Expansion}
    (htable : expansion.table.VariableFree) {document : Document} {added : Definition}
    (h : added ∈ (expansion.expand document).definitions.drop document.definitions.length) :
    added.variableNames = [] := by
  rw [drop_expand_eq] at h
  obtain ⟨fragment, hfragment, rfl⟩ := List.mem_map.1 h
  have hfree := variableFree_of_knows htable
    (expansion.generatesOnly_supplyAfter document fragment hfragment)
  exact hfree.variableNames_toFragment fragment.name fragment.typeName

/-- Each type stands in the table once, and its usage is orderly at every depth. So the name of a type
leads to the usage that stands beside it, and no variable is in the fragments that the table is written
as, or in those that are added to a document for its markers. -/
structure UsageTable.Orderly (table : UsageTable) : Prop where
  typeNames : table.typeNames.Nodup
  found : ∀ typeName usage, table.get? typeName = some usage ↔ (typeName, usage) ∈ table.entries
  usages : ∀ entry ∈ table.entries, entry.2.stored.Everywhere StoredUsage.Orderly
  written : ∀ suffix, ∀ definition ∈ (table.toDocument suffix).definitions,
    definition.variableNames = []
  added : ∀ options schema document,
    ∀ definition ∈ ((⟨options, schema, table⟩ : Expansion).expand document).definitions.drop
      document.definitions.length, definition.variableNames = []

/-- **Tables that are built are orderly.** -/
theorem UsageTable.Built.orderly {table : UsageTable} (h : table.Built) : table.Orderly := by
  have hfree : table.VariableFree := fun _ hentry => (Usage.Built.entry h hentry).variableFree
  have htypes : table.typeNames.Nodup := h.distinct.types
  refine ⟨htypes, fun _ _ => Keyed.lookup_eq_some_iff htypes, ?_, ?_, ?_⟩
  · intro entry hentry
    have hbuilt : entry.2.Built := .entry h hentry
    exact Usage.orderly_stored hbuilt.distinct hbuilt.variableFree
  · exact fun suffix _ hdefinition => hfree.variableNames_toDocument suffix hdefinition
  · intro options schema document definition hdefinition
    exact (⟨options, schema, table⟩ : Expansion).variableNames_of_mem_drop_expand hfree hdefinition

/-- **Whatever the operations build is orderly.**

* A usage that is kept in maps, with keys that could be others than the names of the fields, is orderly at
  every depth if the operations on maps build it: each field stands under its own name, no key stands
  twice, and no argument has a variable in it.
* A usage without keys that the operations build, the reading of documents among them, is built in maps by
  the same operations. In both forms the same is found under a name, and the same is written.
* So is what is read in any selections of a document, its fragments among them.
* Tables that are built are orderly, so that no variable is in any fragment that is written or
  generated. -/
theorem StoredUsage.orderly_of_built :
    (∀ kept : StoredUsage, kept.Built → kept.Everywhere StoredUsage.Orderly) ∧
      (∀ usage : Usage, usage.Built → usage.stored.Built ∧
        (∀ name, usage.stored.field? name = (usage.field? name).map FieldUse.stored) ∧
        (∀ typeName, usage.stored.part? typeName = (usage.part? typeName).map Usage.stored) ∧
        usage.stored.toSelections = usage.toSelections) ∧
      (∀ (schema : Schema) document typeName selections,
        (schema.observe document typeName selections).usage.stored.Built) ∧
      ∀ table : UsageTable, table.Built → table.Orderly := by
  refine ⟨?_, ?_, ?_, fun table h => h.orderly⟩
  · intro kept hkept
    obtain ⟨usage, husage, rfl⟩ := hkept.exists_stored
    exact Usage.orderly_stored husage.distinct husage.variableFree
  · exact fun usage h => ⟨h.stored, usage.field?_stored, usage.part?_stored, usage.toSelections_stored⟩
  · exact fun schema document typeName selections =>
      (schema.keptByReading_stored.observe document typeName selections).1

/-- A field with arguments to which others should be given later, with a variable inside an object in a
list. -/
def pagedField : FieldUse :=
  ((FieldUse.nested "todos" (.addField .empty (.leaf "id"))).withArguments
    [("first", .int 10)]).withArguments
      [("first", .int 20), ("after", .list [.object [("id", .variable "cursor")]])]

/-- The table in which it was seen twice. -/
def pagedTable : UsageTable :=
  (UsageTable.empty.merge "Query" (.addField .empty pagedField)).merge "Query"
    (.addField .empty pagedField)

/-- The arguments of the field stay what they were, and no variable is in what the table is written
as. -/
theorem StoredUsage.orderly_of_built_todos :
    (Usage.addField .empty pagedField).Built ∧ pagedTable.Built ∧
      ((Usage.addField .empty pagedField).stored.field? "todos").map StoredField.arguments =
        some [("first", .int 10)] ∧
      (pagedTable.toDocument "Fields").definitions.length = 1 ∧
      ∀ definition ∈ (pagedTable.toDocument "Fields").definitions, definition.variableNames = [] := by
  have hfield : pagedField.Built :=
    .withArguments _ (.withArguments _ (.nested _ (.addField .empty (.leaf "id"))))
  have husage : (Usage.addField .empty pagedField).Built := .addField .empty hfield
  have htable : pagedTable.Built := .merge _ (.merge _ .empty husage) husage
  obtain ⟨-, husages, -, htables⟩ := orderly_of_built
  obtain ⟨-, hfield?, -⟩ := husages _ husage
  have hfound : ((Usage.addField .empty pagedField).field? "todos").map FieldUse.arguments =
      some [("first", .int 10)] := by with_unfolding_all rfl
  refine ⟨husage, htable, ?_, by decide +kernel, (htables _ htable).written "Fields"⟩
  obtain ⟨field, hsome, harguments⟩ := Option.map_eq_some_iff.1 hfound
  rw [hfield?, hsome, Option.map_some, Option.map_some, FieldUse.arguments_stored, harguments]

end SelectionRecall
