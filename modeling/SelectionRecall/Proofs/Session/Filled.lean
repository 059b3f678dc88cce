import SelectionRecall.Proofs.Expansion.Sparing
import SelectionRecall.Proofs.Session.History
import SelectionRecall.Proofs.Usage.Filled

/-!
# Nothing empty is learned or written

What a document shows is nowhere empty, and neither is what a session has learned from any run. So it
makes no difference whether a table is asked for a usage or for one that is not empty, each type in it
gets a fragment, and in each fragment that is written or generated something is selected: at the top,
beneath each field that is not a leaf, and in each inline fragment.

* `Definition.SelectsThroughout`: a fragment in which no selection set is empty.
* `Expansion.MayRequest.nowhereEmpty`: nothing empty is requested.
* `UsageTable.SelectsThroughout`: a table in which nothing is empty, and what comes of it.
* `UsageTable.NowhereEmpty.selectsThroughout`: what comes of it follows.
* `Session.selectsThroughout_run`: tables of documents and of sessions are such tables.
-/

namespace SelectionRecall

open Selection

/-- What holds at every depth of a usage holds of what is written in an inline fragment. -/
theorem Usage.Everywhere.of_mem_nodesOf {Local : Usage → Prop} {usage : Usage}
    (h : usage.Everywhere Local) {condition? : Option String} {directives : List Directive}
    {selections : List Selection}
    (hmem : .inline condition? directives selections ∈ nodesOf usage.toSelections) :
    ∃ part : Usage, part.Everywhere Local ∧ selections = part.toSelections := by
  induction usage using Usage.induction with
  | step usage ihFields ihParts =>
    obtain ⟨-, hfields, hparts⟩ := everywhere_iff.1 h
    rcases mem_nodesOf_toSelections.1 hmem with
      ⟨field, hfield, hown | ⟨nested, hnested, hbeneath⟩⟩ | ⟨part, hpart, hown | hbeneath⟩
    · cases hown
    · exact ihFields field hfield nested hnested (hfields field hfield nested hnested) hbeneath
    · cases hown
      exact ⟨part.2, hparts part hpart, rfl⟩
    · exact ihParts part hpart (hparts part hpart) hbeneath

/-- The definition is the fragment of a usage, something is written for the usage and for each one in
it, beneath a field or in a part, and no inline fragment in it is empty. -/
def Definition.SelectsThroughout (definition : Definition) : Prop :=
  ∃ name typeName, ∃ usage : Usage, definition = .fragment (usage.toFragment name typeName) ∧
    (usage.Everywhere fun inner => inner.toSelections ≠ []) ∧
    ∀ condition? directives selections,
      .inline condition? directives selections ∈ nodesOf definition.selections → selections ≠ []

/-- So it is with the fragment of a usage that is nowhere empty. -/
theorem Usage.NowhereEmpty.selectsThroughout {usage : Usage} (h : usage.NowhereEmpty)
    (name typeName : String) :
    (Definition.fragment (usage.toFragment name typeName)).SelectsThroughout := by
  have hwritten : usage.Everywhere fun inner => inner.toSelections ≠ [] := by
    refine Everywhere.mono ?_ h
    intro inner hinner
    rwa [← List.isEmpty_eq_false_iff, isEmpty_toSelections]
  refine ⟨name, typeName, usage, rfl, hwritten, ?_⟩
  intro condition? directives selections hmem
  obtain ⟨part, hpart, rfl⟩ := hwritten.of_mem_nodesOf hmem
  exact (Usage.everywhere_iff.1 hpart).1

/-- **Nothing empty is requested**, if nothing in the table is empty. -/
theorem Expansion.MayRequest.nowhereEmpty {expansion : Expansion} {typeName : String} {usage : Usage}
    (h : expansion.MayRequest typeName usage) (htable : expansion.table.NowhereEmpty) :
    usage.NowhereEmpty := by
  cases h with
  | concrete _ hget => exact htable.of_get? (Option.filter_eq_some_iff.1 hget).1
  | implementer _ _ hget => exact htable.of_get? (Option.filter_eq_some_iff.1 hget).1
  | shared _ hget hleft =>
    exact Usage.nowhereEmpty_iff.2 ⟨hleft, (htable.of_get? hget).filled.unconditional⟩

/-- Nor is anything empty in what is generated. -/
theorem Expansion.selectsThroughout_of_mem_drop_expand {expansion : Expansion}
    (htable : expansion.table.NowhereEmpty) {document : Document} {added : Definition}
    (h : added ∈ (expansion.expand document).definitions.drop document.definitions.length) :
    added.SelectsThroughout := by
  have hgenerated : (expansion.supplyAfter document).GeneratesOnly fun _ usage =>
      usage.NowhereEmpty :=
    expansion.generatesOnly_of_requests fun _ hrequest =>
      (mayRequest_of_mem_requests hrequest).nowhereEmpty htable
  rw [drop_expand_eq] at h
  obtain ⟨fragment, hfragment, rfl⟩ := List.mem_map.1 h
  exact (hgenerated fragment hfragment).selectsThroughout fragment.name fragment.typeName

namespace UsageTable

/-- **Nothing in the table is empty**, and this shows: it may be asked for any usage or for one that is
not empty, it is written as one fragment for each entry, and no selection set is empty in these
fragments or in those that are added to a document for its markers. -/
structure SelectsThroughout (table : UsageTable) (schema : Schema) : Prop where
  entries : ∀ entry ∈ table.entries, entry.2.Everywhere fun inner => inner.isEmpty = false
  getNonEmpty? : ∀ typeName, table.getNonEmpty? typeName = table.get? typeName
  toDocument : ∀ suffix, (table.toDocument suffix).definitions =
    table.entries.map fun entry => .fragment (entry.2.toFragment (entry.1 ++ suffix) entry.1)
  written : ∀ suffix, ∀ definition ∈ (table.toDocument suffix).definitions,
    definition.SelectsThroughout
  added : ∀ options document,
    ∀ definition ∈ ((⟨options, schema, table⟩ : Expansion).expand document).definitions.drop
      document.definitions.length, definition.SelectsThroughout

/-- What shows follows. -/
theorem NowhereEmpty.selectsThroughout {table : UsageTable} (h : table.NowhereEmpty)
    (schema : Schema) : table.SelectsThroughout schema := by
  have hleft : ∀ entry ∈ table.entries, entry.2.isEmpty = false :=
    fun entry hentry => (Usage.nowhereEmpty_iff.1 (h entry hentry)).1
  have hdocument : ∀ suffix, (table.toDocument suffix).definitions =
      table.entries.map fun entry => .fragment (entry.2.toFragment (entry.1 ++ suffix) entry.1) := by
    intro suffix
    unfold toDocument
    rw [List.filter_eq_self.2 fun entry hentry => by rw [hleft entry hentry]; rfl]
  refine ⟨h, ?_, hdocument, ?_, ?_⟩
  · intro typeName
    unfold getNonEmpty?
    cases hget : table.get? typeName with
    | none => rfl
    | some usage => simpa using hleft (typeName, usage) (Keyed.mem_of_lookup hget)
  · intro suffix definition hdefinition
    rw [hdocument] at hdefinition
    obtain ⟨entry, hentry, rfl⟩ := List.mem_map.1 hdefinition
    exact (h entry hentry).selectsThroughout _ _
  · exact fun options document definition =>
      (⟨options, schema, table⟩ : Expansion).selectsThroughout_of_mem_drop_expand h

end UsageTable

/-- **Nothing empty is learned or written.** For every schema, nothing is empty at any depth

* in what any document shows, whether the schema knows what it selects or not;
* in what a session that starts with nothing learned holds after any run;
* and in the fragments that it adds to operations that pass then. -/
theorem Session.selectsThroughout_run (schema : Schema) (options : MarkerOptions) (document : Document)
    (steps : List Step) :
    let session := (start schema options .empty).run steps
    (document.usages schema).SelectsThroughout schema ∧ session.table.SelectsThroughout schema ∧
      ∀ operation, ∀ added ∈ (session.forward operation).1.document.definitions.drop
        operation.document.definitions.length, added.SelectsThroughout := by
  intro session
  have hlearn : ∀ table : UsageTable, ∀ document : Document, table.NowhereEmpty →
      (table.mergeAll (document.usages schema)).NowhereEmpty :=
    fun _ document htable => htable.mergeAll (document.nowhereEmpty_usages schema)
  have htable : session.table.NowhereEmpty :=
    @table_run_induction UsageTable.NowhereEmpty (start schema options .empty) hlearn
      UsageTable.nowhereEmpty_empty steps
  -- the markers are expanded with what is known once the queue is worked off
  have hdrained : session.drain.table.NowhereEmpty :=
    @table_drain_run_induction UsageTable.NowhereEmpty (start schema options .empty) hlearn
      UsageTable.nowhereEmpty_empty steps
  refine ⟨(document.nowhereEmpty_usages schema).selectsThroughout schema,
    htable.selectsThroughout schema, ?_⟩
  intro operation added hadded
  exact session.drain.expansion.selectsThroughout_of_mem_drop_expand hdrained
    (session.mem_drop_expand_of_forward hadded)

end SelectionRecall
