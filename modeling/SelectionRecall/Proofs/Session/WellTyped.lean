import SelectionRecall.Proofs.Expansion.Outcome
import SelectionRecall.Proofs.Session.History
import SelectionRecall.Proofs.Usage.WellTyped

/-!
# Sessions learn well-typed usages

Where implementers keep what their abstract types promise, a session that starts with nothing learned
holds well-typed usages after any run. So the fragments that it adds to mutations only select fields
that their types have.

* `Definition.IsWellTypedFragment`: a fragment of fields that the enclosing types have.
* `Session.wellTyped_table_run`: what a session has learned is well-typed.
* `Session.wellTyped_run`: so are the fragments that it generates.
* `Session.wellTyped_run_node`: a session with a fragment on an interface.
-/

namespace SelectionRecall

/-- The definition is a fragment that only selects what its type has. -/
def Definition.IsWellTypedFragment (schema : Schema) (definition : Definition) : Prop :=
  ∃ fragment, definition = .fragment fragment ∧
    ∀ selection ∈ fragment.selections, selection.WellTyped schema fragment.condition

/-- A well-typed usage is written as such a fragment. -/
theorem Usage.WellTyped.isWellTypedFragment {schema : Schema} {typeName : String} {usage : Usage}
    (h : usage.WellTyped schema typeName) (name : String) :
    (Definition.fragment (usage.toFragment name typeName)).IsWellTypedFragment schema :=
  ⟨_, rfl, h.toSelections⟩

/-- What is generated from well-typed usages only selects what its type has. -/
theorem Expansion.isWellTypedFragment_of_mem_drop_expand {schema : Schema} (expansion : Expansion)
    (htable : expansion.table.WellTyped schema) {document : Document} {added : Definition}
    (h : added ∈ (expansion.expand document).definitions.drop document.definitions.length) :
    added.IsWellTypedFragment schema := by
  obtain ⟨name, typeName, usage, rfl, ⟨known, hget, husage⟩, -⟩ :=
    expansion.exists_of_mem_drop_expand h
  have hknown := htable.of_get? hget
  rcases husage with rfl | rfl
  · exact hknown.isWellTypedFragment name
  · exact hknown.unconditional.isWellTypedFragment name

/-- So does what a well-typed table is written as. -/
theorem UsageTable.WellTyped.toDocument {schema : Schema} {table : UsageTable}
    (h : table.WellTyped schema) (suffix : String) :
    ∀ definition ∈ (table.toDocument suffix).definitions,
      definition.IsWellTypedFragment schema := by
  intro definition hdefinition
  obtain ⟨entry, hentry, rfl⟩ := List.mem_map.1 hdefinition
  exact (h entry (List.mem_filter.1 hentry).1).isWellTypedFragment _

namespace Session

/-- **What a session has learned is well-typed.** -/
theorem wellTyped_table_run {schema : Schema} (hschema : schema.Covariant)
    (options : MarkerOptions) (steps : List Step) :
    ((start schema options .empty).run steps).table.WellTyped schema := by
  refine table_run_induction ?_ UsageTable.wellTyped_empty steps
  intro table document htable
  exact htable.mergeAll (document.wellTyped_usages hschema)

/-- **A session only learns and writes what fits its schema.** If implementers have the fields of
their abstract types and return the same type or an implementer of it, then after any run of a session
that starts with nothing learned,

* the usage of each type fits it: the type has all its fields, what is beneath them fits the types
  that they return, and its parts are for types of the schema and fit them;
* each fragment that is added to an operation only selects what its type has;
* and so does each fragment that the table is written as. -/
theorem wellTyped_run {schema : Schema} (hschema : schema.Covariant) (options : MarkerOptions)
    (steps : List Step) :
    let session := (start schema options .empty).run steps
    (∀ entry ∈ session.table.entries, entry.2.WellTyped schema entry.1) ∧
      (∀ operation, ∀ added ∈ (session.forward operation).1.document.definitions.drop
          operation.document.definitions.length,
        added.IsWellTypedFragment schema) ∧
      ∀ suffix, ∀ definition ∈ (session.table.toDocument suffix).definitions,
        definition.IsWellTypedFragment schema := by
  intro session
  have htable := wellTyped_table_run hschema options steps
  refine ⟨htable, ?_, htable.toDocument⟩
  intro operation added hadded
  -- the markers are expanded with what is known once the queue is worked off
  have hdrained : session.drain.table.WellTyped schema := by
    have hrun : session.drain = _ := run_drain (start schema options .empty) steps
    rw [hrun]; exact wellTyped_table_run hschema options _
  obtain ⟨key, intent, document⟩ := operation
  have hunchanged : added ∈ document.definitions.drop document.definitions.length →
      added.IsWellTypedFragment schema := by
    rw [List.drop_length]; simp
  cases intent with
  | run type =>
    cases type with
    | mutation => exact session.drain.expansion.isWellTypedFragment_of_mem_drop_expand hdrained hadded
    | query => exact hunchanged hadded
    | subscription => exact hunchanged hadded
  | teardown => exact hunchanged hadded

/-- The interface `Node` with one implementer, which returns itself where the interface returns a
node. -/
def nodeSchema : Schema :=
  ⟨"Query", some "Mutation", none,
    [⟨"Query", .object, [("node", "Node")], []⟩, ⟨"Mutation", .object, [("touch", "Node")], []⟩,
      ⟨"Node", .interface, [("id", "ID"), ("next", "Node")], ["Item"]⟩,
      ⟨"Item", .object, [("id", "ID"), ("next", "Item"), ("price", "Int")], []⟩,
      ⟨"ID", .scalar, [], []⟩, ⟨"Int", .scalar, [], []⟩]⟩

/-- A query that selects `next` of an item by way of the interface, and its answer. -/
def nodeSteps : List Step :=
  [.forward ⟨1, .run .query, ⟨[.operation ⟨none,
      [.field none "node" [] [] [.inline (some "Item") []
        [.field none "price" [] [] [], .inline (some "Node") []
          [.field none "next" [] [] [.field none "id" [] [] []]]]]]⟩]⟩⟩,
    .receive ⟨1, some (.boolean true), []⟩]

/-- A mutation with a marker on a node. -/
def nodeMutation : Operation :=
  ⟨2, .run .mutation, ⟨[.operation ⟨some ⟨.mutation, none, [], []⟩,
    [.field none "touch" [] [⟨"populate", []⟩] []]⟩]⟩⟩

/-- **A session with a fragment on an interface**: what was selected on `Node` is learned for `Item`
too, and the mutation is given a fragment on `Item` that fits it. -/
theorem wellTyped_run_node :
    let session := (start nodeSchema {} .empty).run nodeSteps
    let added := (session.forward nodeMutation).1.document.definitions.drop 1
    nodeSchema.Covariant ∧ added.length = 1 ∧
      (∀ entry ∈ session.table.entries, entry.2.WellTyped nodeSchema entry.1) ∧
      ∀ fragment ∈ added, fragment.IsWellTypedFragment nodeSchema := by
  have hschema : nodeSchema.Covariant := Schema.covariant_of_types (by decide)
  obtain ⟨htable, hadded, -⟩ := wellTyped_run hschema {} nodeSteps
  exact ⟨hschema, by decide +kernel, htable, hadded nodeMutation⟩

end Session

end SelectionRecall
