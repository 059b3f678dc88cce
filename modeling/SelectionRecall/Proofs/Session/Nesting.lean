import SelectionRecall.Proofs.Session.History
import SelectionRecall.Proofs.Usage.Nesting

/-!
# Sessions record what they nest

In a session that starts with nothing learned, whatever is known beneath a field or in a part is known
of its own type too, after any run and at every depth.

* `Session.nested_table_run`: the table stays closed under nesting.
* `Session.nested_run`: what a usage contains, the entries of the types cover.
* `Session.nested_run_item`: a session with a part and a fragment on an interface.
-/

namespace SelectionRecall.Session

/-- The table is closed under nesting in any run that starts with nothing learned. -/
theorem nested_table_run {schema : Schema} (hschema : schema.KeepsFieldTypes)
    (options : MarkerOptions) (steps : List Step) :
    ((start schema options .empty).run steps).table.Nested schema := by
  have hempty : UsageTable.empty.Nested schema := by simp [UsageTable.Nested, UsageTable.empty]
  refine table_run_induction ?_ hempty steps
  exact fun table document htable => htable.mergeAll (document.nested_usages hschema)

/-- **What is nested is recorded.** If implementers have the fields of their abstract types with the same
return types, then after any run of a session that starts with nothing learned, and for each usage in
the entry of some type, at any depth,

* each of its fields with something beneath it returns a type with an entry, and that entry covers
  what is beneath the field;
* the type of each of its parts has an entry, and that entry covers the part. -/
theorem nested_run {schema : Schema} (hschema : schema.KeepsFieldTypes) (options : MarkerOptions)
    (steps : List Step) :
    let table := ((start schema options .empty).run steps).table
    ∀ typeName usage, table.get? typeName = some usage →
      ∀ innerType inner, usage.Contains schema typeName innerType inner →
        (∀ field ∈ inner.fields, ∀ nested, field.nested? = some nested →
          ∃ returned, schema.fieldType? innerType field.name = some returned ∧
            ∃ known, table.get? returned = some known ∧ known.covers nested = true) ∧
        ∀ part ∈ inner.parts,
          ∃ known, table.get? part.1 = some known ∧ known.covers part.2 = true := by
  intro table typeName usage hget innerType inner hinner
  have htable : table.Nested schema := nested_table_run hschema options steps
  have hrecorded := htable (typeName, usage) (Keyed.mem_of_lookup hget) innerType inner hinner
  exact ⟨hrecorded.fields, hrecorded.parts⟩

/-- The interface `Entity` with one implementer, which returns entities as the interface does. -/
def entitySchema : Schema :=
  ⟨"Query", none, none,
    [⟨"Query", .object, [("entity", "Entity")], []⟩,
      ⟨"Entity", .interface, [("id", "ID"), ("next", "Entity")], ["Item"]⟩,
      ⟨"Item", .object, [("id", "ID"), ("next", "Entity"), ("price", "Int")], []⟩,
      ⟨"ID", .scalar, [], []⟩, ⟨"Int", .scalar, [], []⟩]⟩

/-- A query that selects `next` of an item by way of the interface, and its answer. -/
def entitySteps : List Step :=
  [.forward ⟨1, .run .query, ⟨[.operation ⟨none,
      [.field none "entity" [] [] [.inline (some "Item") []
        [.field none "price" [] [] [], .inline (some "Entity") []
          [.field none "next" [] [] [.field none "id" [] [] []]]]]]⟩]⟩⟩,
    .receive ⟨1, some (.boolean true), []⟩]

/-- **A session with a part and a fragment on an interface**: the part on `Item` in the entry of
`Entity` is covered by the entry of `Item`, which has what was selected by way of the interface. -/
theorem nested_run_item :
    let table := ((start entitySchema {} .empty).run entitySteps).table
    entitySchema.KeepsFieldTypes ∧ table.typeNames = ["Entity", "Item"] ∧
      (table.get? "Entity").map Usage.partNames = some ["Item"] ∧
      (table.get? "Item").map Usage.fieldNames = some ["price", "next"] ∧
      ∃ usage, table.get? "Entity" = some usage ∧
        ∀ part ∈ usage.parts, ∃ known, table.get? part.1 = some known ∧
          known.covers part.2 = true := by
  intro table
  have hschema : entitySchema.KeepsFieldTypes := Schema.keepsFieldTypes_of_types (by decide)
  have hsome : (table.get? "Entity").isSome = true := by decide +kernel
  obtain ⟨usage, husage⟩ := Option.isSome_iff_exists.1 hsome
  obtain ⟨-, hparts⟩ := nested_run hschema {} entitySteps "Entity" usage husage "Entity" usage .self
  exact ⟨hschema, by decide +kernel, by decide +kernel, by decide +kernel, usage, husage, hparts⟩

end SelectionRecall.Session
