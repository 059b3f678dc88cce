import SelectionRecall.Proofs.Session.Growth
import SelectionRecall.Proofs.Usage.Parts

/-!
# Learned parts that can apply

A table that was learned from documents holds a part on each fragment that the documents carry, for its
owner. Where each fragment is on a type that overlaps the type that it stands in, the parts in the
table overlap their owners just if no fragment is carried to an owner that it does not overlap.

* `UsageTable.distinct_learnAll`: names in a table that was learned are distinct.
* `UsageTable.partsOverlap_learnAll_iff`: the parts in a table that was learned.
* `UsageTable.partsOverlap_learnAll_iff_item`: a fragment that is taken over where it cannot apply.
-/

namespace SelectionRecall.UsageTable

variable {schema : Schema} {documents : List Document}

/-- Names in a table that was learned from documents are distinct. -/
theorem distinct_learnAll (schema : Schema) (documents : List Document) :
    (UsageTable.empty.learnAll schema documents).Distinct :=
  distinct_empty.learnAll documents

/-- The parts in a table can apply after documents are learned just if those before can, and each
fragment that the documents carry. -/
theorem partsOverlap_learnAll_iff_carries {table : UsageTable} :
    (table.learnAll schema documents).PartsOverlap schema ↔
      table.PartsOverlap schema ∧ ∀ document ∈ documents, ∀ carried,
        document.Carries schema carried → schema.Overlap carried.owner carried.condition := by
  induction documents generalizing table with
  | nil => simp [learnAll]
  | cons document rest ih =>
    have hlearn : table.learnAll schema (document :: rest) =
        (table.mergeAll (document.usages schema)).learnAll schema rest := rfl
    rw [hlearn, ih, partsOverlap_mergeAll_iff, and_assoc, List.forall_mem_cons]

/-- **The parts in a table that was learned.** Let each fragment of the documents be on a type that
overlaps the type that it stands in. Then in each usage in the entry of some type, at any depth, all
parts are on types that overlap the type of the usage, just if each fragment that the documents carry to
another owner than the type that it stands in overlaps that owner. -/
theorem partsOverlap_learnAll_iff (hdocuments : ∀ document ∈ documents, document.Overlapping schema) :
    let table := UsageTable.empty.learnAll schema documents
    (∀ typeName usage, table.get? typeName = some usage →
        ∀ innerType inner, usage.Contains schema typeName innerType inner →
          ∀ part ∈ inner.parts, schema.Overlap innerType part.1) ↔
      ∀ document ∈ documents, ∀ carried, document.Carries schema carried →
        carried.owner ≠ carried.enclosing → schema.Overlap carried.owner carried.condition := by
  intro table
  have hdistinct : table.Distinct := distinct_learnAll schema documents
  have hentries : table.PartsOverlap schema ↔ _ := partsOverlap_learnAll_iff_carries
  rw [and_iff_right partsOverlap_empty] at hentries
  constructor
  · intro h document hdocument carried hcarries _
    refine hentries.1 ?_ document hdocument carried hcarries
    intro entry hentry
    refine h entry.1 entry.2 ?_
    unfold get?
    rw [Keyed.lookup_eq_map_find?, Keyed.find?_of_mem hdistinct.types hentry]; rfl
  · intro h typeName usage hget
    refine hentries.2 ?_ (typeName, usage) (Keyed.mem_of_lookup hget)
    intro document hdocument carried hcarries
    -- at the type that it stands in, a fragment overlaps its owner anyway
    by_cases hown : carried.owner = carried.enclosing
    · rw [hown]
      exact hcarries.overlap (hdocuments document hdocument)
    · exact h document hdocument carried hcarries hown

/-- Items and users are nodes. -/
def ownerSchema : Schema :=
  ⟨"Query", none, none,
    [⟨"Query", .object, [("item", "Item")], []⟩,
      ⟨"Node", .interface, [("id", "ID")], ["Item", "User"]⟩,
      ⟨"Item", .object, [("id", "ID")], []⟩, ⟨"User", .object, [("id", "ID"), ("name", "String")], []⟩,
      ⟨"ID", .scalar, [], []⟩, ⟨"String", .scalar, [], []⟩]⟩

/-- The fragment on users in a fragment on the interface, which is read inside an item. -/
def ownerSelections : List Selection :=
  [.inline (some "Node") [] [.field none "id" [] [] [],
    .inline (some "User") [] [.field none "name" [] [] []]]]

/-- A query for an item with it. -/
def ownerDocument : Document :=
  ⟨[.operation ⟨none, [.field none "item" [] [] ownerSelections]⟩]⟩

/-- **A fragment that is taken over where it cannot apply.** Inside the interface a fragment on users can
apply. An item takes over what is selected there, and so the entry of items has a part on users. -/
theorem partsOverlap_learnAll_iff_item :
    let table := UsageTable.empty.learnAll ownerSchema [ownerDocument]
    ownerSchema.ListsObjects ∧ ownerDocument.Overlapping ownerSchema ∧
      ownerDocument.Carries ownerSchema ⟨"Item", "Node", "User"⟩ ∧
      ¬ ownerSchema.Overlap "Item" "User" ∧
      (table.get? "Item").map Usage.partNames = some ["User"] ∧
      ¬ ∀ typeName usage, table.get? typeName = some usage →
        ∀ innerType inner, usage.Contains ownerSchema typeName innerType inner →
          ∀ part ∈ inner.parts, ownerSchema.Overlap innerType part.1 := by
  intro table
  have hdocument : ownerDocument.Overlapping ownerSchema := by decide
  have himpossible : ¬ ownerSchema.Overlap "Item" "User" := by decide
  have hstring : ownerSchema.fieldType? "User" "name" = some "String" := by decide
  have hitem : ownerSchema.fieldType? "Query" "item" = some "Item" := by decide
  have huser : (Selection.inline (some "User") [] [.field none "name" [] [] []]).Carries ownerSchema
      "Item" "Node" ⟨"Item", "Node", "User"⟩ :=
    .part (by decide) (by decide) List.mem_cons_self (.leaf hstring)
  have hnode : (Selection.inline (some "Node") [] [.field none "id" [] [] [],
      .inline (some "User") [] [.field none "name" [] [] []]]).Carries ownerSchema "Item" "Item"
        ⟨"Item", "Node", "User"⟩ :=
    .taken (by decide) (by decide) (List.mem_cons_of_mem _ List.mem_cons_self) huser
  have hcarries : ownerDocument.Carries ownerSchema ⟨"Item", "Node", "User"⟩ :=
    ⟨_, List.mem_cons_self, by decide, "Query", rfl, _, List.mem_cons_self, "Item", _,
      .field hitem, _, List.mem_cons_self, hnode⟩
  refine ⟨by decide, hdocument, hcarries, himpossible, by decide +kernel, ?_⟩
  intro hall
  have hdocuments : ∀ document ∈ [ownerDocument], document.Overlapping ownerSchema := by
    simpa using hdocument
  have hoverlap := (partsOverlap_learnAll_iff hdocuments).1 hall ownerDocument List.mem_cons_self
    ⟨"Item", "Node", "User"⟩ hcarries (by decide)
  exact himpossible hoverlap

end SelectionRecall.UsageTable
