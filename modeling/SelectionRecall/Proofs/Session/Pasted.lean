import SelectionRecall.Proofs.Expansion.Sparing
import SelectionRecall.Proofs.Session.History
import SelectionRecall.Proofs.Usage.Filled
import SelectionRecall.Proofs.Usage.Recognised

/-!
# Fragments that come back

A fragment that was generated for a usage may be pasted into a document, and then the markers of this
document should be served with it. They are if it is recognised, which means that what is read in it
covers the usage again. For a usage that was learned this is so just if it is normal for its type, which
in a schema that keeps its promises means that no part of it, at any depth, belongs to the type around
the part. Else another fragment with the same selections is added, unless something else in the document
serves.

* `UsageTable.Built.learnAll`, `Expansion.built_of_knows`: what was learned is built by the operations.
* `Expansion.normal_iff_of_knows`: which of the usages that were learned are normal.
* `Expansion.Adds`: a fragment is added for a request.
* `Expansion.adds_iff_of_mem_requests`: a fragment is added just if no authored one serves.
* `Expansion.recognised_learnAll_iff`: generated fragments that are pasted into documents.
* `Expansion.recognised_learnAll_iff_item`: one that is generated again.
-/

namespace SelectionRecall

/-- What is learned is built by the operations. -/
theorem UsageTable.Built.learnAll {table : UsageTable} (h : table.Built) (schema : Schema)
    (documents : List Document) : (table.learnAll schema documents).Built :=
  Session.learnAll_induction (fun _ document htable => .mergeAll htable (.shown document schema)) h
    documents

namespace Expansion

variable {expansion : Expansion} {document : Document} {typeName : String} {usage : Usage}

/-- So is what is known. -/
theorem built_of_knows (htable : expansion.table.Built) (h : expansion.Knows typeName usage) :
    usage.Built := by
  obtain ⟨known, hget, rfl | rfl⟩ := h
  · exact .entry htable (Keyed.mem_of_lookup hget)
  · exact .unconditional (.entry htable (Keyed.mem_of_lookup hget))

/-- What is known from documents that were learned is normal just if no part in it belongs to its own
type, in a schema in which implementers keep what their abstract types promise. -/
theorem normal_iff_of_knows {documents : List Document}
    (htable : expansion.table = UsageTable.empty.learnAll expansion.schema documents)
    (hschema : expansion.schema.Covariant) (h : expansion.Knows typeName usage) :
    usage.Normal expansion.schema typeName ↔
      usage.Throughout expansion.schema (fun typeName usage => ∀ part ∈ usage.parts,
        ¬ expansion.schema.MayBe part.1 typeName) typeName := by
  have htyped : expansion.table.WellTyped expansion.schema := by
    rw [htable]
    exact Session.learnAll_induction (fun _ document htable => htable.mergeAll
      (document.wellTyped_usages hschema)) UsageTable.wellTyped_empty documents
  have hnowhere : expansion.table.NowhereEmpty := by
    rw [htable]
    exact Session.learnAll_induction (fun _ document htable => htable.mergeAll
      (document.nowhereEmpty_usages _)) UsageTable.nowhereEmpty_empty documents
  obtain ⟨known, hget, rfl | rfl⟩ := h
  · have hfilled := (hnowhere.of_get? hget).filled
    exact (htyped.of_get? hget).normal_iff hfilled
  · have hfilled := (hnowhere.of_get? hget).filled
    exact (htyped.of_get? hget).unconditional.normal_iff hfilled.unconditional

/-- A fragment with the selections of this usage is added to the document. -/
def Adds (expansion : Expansion) (document : Document) (typeName : String) (usage : Usage) : Prop :=
  ∃ name, .fragment (usage.toFragment name typeName) ∈
    (expansion.expand document).definitions.drop document.definitions.length

/-- Known usages of one type are the same if the same is written for them. -/
theorem eq_of_toSelections_of_knows {other : Usage} (h : expansion.Knows typeName usage)
    (h' : expansion.Knows typeName other) (hsame : usage.toSelections = other.toSelections) :
    usage = other := by
  obtain ⟨known, hget, hknown⟩ := h
  obtain ⟨known', hget', hknown'⟩ := h'
  obtain rfl : known = known' := Option.some.inj (hget.symm.trans hget')
  -- the usage and its fields alone stand for as many selections only if there are no parts
  have hparts : known.toSelections = known.unconditional.toSelections → known.unconditional = known := by
    intro hselections
    have hlength := congrArg List.length hselections
    simp only [Usage.toSelections_eq_append, List.length_append, List.length_map] at hlength
    refine unconditional_eq_of_parts_eq_nil (List.eq_nil_of_length_eq_zero ?_)
    exact Nat.add_left_cancel hlength
  rcases hknown with rfl | rfl
  · rcases hknown' with rfl | rfl
    · rfl
    · exact (hparts hsame).symm
  · rcases hknown' with rfl | rfl
    · exact hparts hsame.symm
    · rfl

/-- No fragment is added for what an authored one serves. -/
theorem not_adds_of_isSome_find? (hknows : expansion.Knows typeName usage)
    (h : ((expansion.supplyOf document).authored.find? (·.covers typeName usage)).isSome = true) :
    ¬ expansion.Adds document typeName usage := by
  rintro ⟨name, hadded⟩
  cases hmarked : expansion.isMarked document with
  | false =>
    rw [expand_of_isMarked_eq_false expansion hmarked, List.drop_length] at hadded
    cases hadded
  | true =>
    rw [drop_expand expansion hmarked] at hadded
    obtain ⟨supplied, hsupplied, hdefinition⟩ := List.mem_map.1 hadded
    have hnone := find?_authored_of_generated hsupplied
    have hknowsSupplied := expansion.generatesOnly_supplyAfter document supplied hsupplied
    simp only [SuppliedFragment.definition, Usage.toFragment, Definition.fragment.injEq,
      FragmentDefinition.mk.injEq, true_and] at hdefinition
    obtain ⟨-, rfl, hselections⟩ := hdefinition
    obtain rfl := eq_of_toSelections_of_knows hknowsSupplied hknows hselections
    rw [hnone] at h
    cases h

/-- A fragment is added for what is requested and no authored one serves. -/
theorem adds_of_find?_eq_none (hrequest : (typeName, usage) ∈ expansion.requests document)
    (h : (expansion.supplyOf document).authored.find? (·.covers typeName usage) = none) :
    expansion.Adds document typeName usage := by
  have hmarked : expansion.isMarked document = true := by
    by_contra hunmarked
    rw [Bool.not_eq_true] at hunmarked
    rw [expansion.requests_of_isMarked_eq_false hunmarked] at hrequest
    cases hrequest
  have hall : expansion.requests document = [] ++ expansion.requests document ++ [] := by simp
  obtain ⟨name, -, hserves⟩ := expansion.exists_answer_of_request hall hrequest
  unfold FragmentSupply.Serves at hserves
  rw [authored_supplyAfter, h] at hserves
  refine ⟨name, ?_⟩
  rw [drop_expand expansion hmarked]
  exact List.mem_map.2 ⟨_, hserves, rfl⟩

/-- **A fragment is added for a request** just if no authored fragment serves it. -/
theorem adds_iff_of_mem_requests (hrequest : (typeName, usage) ∈ expansion.requests document) :
    expansion.Adds document typeName usage ↔
      (expansion.supplyOf document).authored.find? (·.covers typeName usage) = none := by
  constructor
  · intro hadds
    by_contra hsome
    rw [← ne_eq, ← Option.isSome_iff_ne_none] at hsome
    exact not_adds_of_isSome_find? (knows_of_mem_requests hrequest) hsome hadds
  · exact adds_of_find?_eq_none hrequest

/-- **Generated fragments that come back.** Let a usage be known of a type, from documents that were
learned. What is written for it is read as something that covers it, whatever fragments stand around
it, just if it is normal for the type. Then it serves wherever it is pasted: each request for the usage
is served with a fragment of the document, and none is added. If the usage is not normal, then another
fragment is added for each request of a document that has nothing else on this type. Where implementers
keep what their abstract types promise, the usage is normal just if no part in it, at any depth,
belongs to the type around the part. -/
theorem recognised_learnAll_iff {documents : List Document}
    (htable : expansion.table = UsageTable.empty.learnAll expansion.schema documents)
    (hknows : expansion.Knows typeName usage) :
    (∀ document, (expansion.schema.observe document typeName usage.toSelections).usage.covers usage =
        true ↔ usage.Normal expansion.schema typeName) ∧
      (usage.Normal expansion.schema typeName → expansion.schema.hasType typeName = true →
        ∀ document : Document, ∀ fragment ∈ document.fragments, fragment.condition = typeName →
          fragment.selections = usage.toSelections →
            ¬ expansion.Adds document typeName usage ∧
              ∀ name, (expansion.supplyAfter document).Serves typeName usage name →
                name ∈ document.fragmentNames) ∧
      (¬ usage.Normal expansion.schema typeName → ∀ document : Document,
        (∀ fragment ∈ document.fragments, fragment.condition = typeName →
          fragment.selections = usage.toSelections) →
        (typeName, usage) ∈ expansion.requests document → expansion.Adds document typeName usage) ∧
      (expansion.schema.Covariant → (usage.Normal expansion.schema typeName ↔
        ∀ innerType inner, usage.Contains expansion.schema typeName innerType inner →
          ∀ part ∈ inner.parts, ¬ expansion.schema.MayBe part.1 innerType)) := by
  have hbuilt : usage.Built := by
    refine built_of_knows ?_ hknows
    rw [htable]
    exact UsageTable.Built.empty.learnAll expansion.schema documents
  have hrecognised : ∀ document : Document,
      (expansion.schema.observe document typeName usage.toSelections).usage.covers usage = true ↔
        usage.Normal expansion.schema typeName :=
    Usage.covers_observe_iff hbuilt.distinct hbuilt.variableFree
  refine ⟨hrecognised, ?_, ?_, fun hschema => normal_iff_of_knows htable hschema hknows⟩
  · rintro hnormal hknown document fragment hfragment rfl hselections
    have hcovers := (hrecognised document).2 hnormal
    rw [← hselections] at hcovers
    have hserved := isSome_find?_authored hfragment
      (by rw [hselections]; exact expansion.anyMarks_toSelections usage) hknown hcovers
    refine ⟨not_adds_of_isSome_find? hknows hserved, ?_⟩
    intro name hserves
    obtain ⟨supplied, hfind⟩ := Option.isSome_iff_exists.1 hserved
    obtain ⟨serving, hserving, hname, -⟩ := exists_of_find?_authored hfind
    rw [← authored_supplyAfter] at hfind
    rw [← hserves.name_eq hfind, ← hname]
    exact List.mem_map_of_mem hserving
  · intro hnot document honly hrequest
    refine adds_of_find?_eq_none hrequest ?_
    by_contra hsome
    obtain ⟨supplied, hfind⟩ := Option.ne_none_iff_exists'.1 hsome
    obtain ⟨serving, hserving, -, hcondition, -, hcovers⟩ := exists_of_find?_authored hfind
    rw [honly serving hserving hcondition] at hcovers
    exact hnot ((hrecognised document).1 hcovers)

/-- Items are nodes, and the only ones. -/
def pastedSchema : Schema :=
  ⟨"Query", some "Mutation", none,
    [⟨"Query", .object, [("item", "Item")], []⟩, ⟨"Mutation", .object, [("addItem", "Item")], []⟩,
      ⟨"Node", .interface, [("id", "ID")], ["Item"]⟩,
      ⟨"Item", .object, [("id", "ID"), ("name", "String")], []⟩]⟩

/-- A query for an item, with a fragment on items in the fragment on the interface. -/
def pastedQuery : Document :=
  ⟨[.operation ⟨none, [.field none "item" [] [] [.inline (some "Node") []
    [.field none "id" [] [] [], .inline (some "Item") [] [.field none "name" [] [] []]]]]⟩]⟩

/-- What was learned from the query. -/
def pastedExpansion : Expansion :=
  ⟨{}, pastedSchema, UsageTable.empty.learnAll pastedSchema [pastedQuery]⟩

/-- What an item takes over from the interface has a part on items. -/
def pastedUsage : Usage := .mk [.leaf "name", .leaf "id"] [("Item", .mk [.leaf "name"] [])]

/-- A mutation with a marker, beside the fragment that is generated for it. -/
def pastedDocument : Document :=
  ⟨[.operation ⟨some ⟨.mutation, none, [], []⟩, [.field none "addItem" [] [⟨"populate", []⟩] []]⟩,
    .fragment (pastedUsage.toFragment "ItemFragment" "Item")]⟩

/-- **A fragment that is not recognised**: the entry of items has a part on items, which is read as a
selection of the item itself. So the same selections are generated again, under another name. -/
theorem recognised_learnAll_iff_item :
    pastedExpansion.Knows "Item" pastedUsage ∧ ¬ pastedUsage.Normal pastedSchema "Item" ∧
      pastedExpansion.Adds pastedDocument "Item" pastedUsage ∧
      (pastedExpansion.expand pastedDocument).fragmentNames = ["ItemFragment", "ItemFragment2"] := by
  have hcovariant : pastedSchema.Covariant := Schema.covariant_of_types (by decide)
  have hknows : pastedExpansion.Knows "Item" pastedUsage :=
    ⟨pastedUsage, by with_unfolding_all rfl, Or.inl rfl⟩
  have hrequests : pastedExpansion.requests pastedDocument = [("Item", pastedUsage)] := by
    with_unfolding_all rfl
  obtain ⟨-, -, hadds, hnormal⟩ :=
    @recognised_learnAll_iff pastedExpansion "Item" pastedUsage [pastedQuery] rfl hknows
  have hnot : ¬ pastedUsage.Normal pastedSchema "Item" := by
    intro h
    exact (hnormal hcovariant).1 h "Item" pastedUsage .self _ List.mem_cons_self (Or.inl rfl)
  have honly : pastedDocument.fragments = [pastedUsage.toFragment "ItemFragment" "Item"] := rfl
  refine ⟨hknows, hnot, hadds hnot pastedDocument ?_ ?_, by decide +kernel⟩
  · rw [honly]
    exact List.forall_mem_singleton.2 fun _ => rfl
  · rw [hrequests]
    exact List.mem_singleton_self _

end Expansion

end SelectionRecall
