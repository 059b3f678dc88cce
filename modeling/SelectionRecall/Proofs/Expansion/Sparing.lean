import SelectionRecall.Proofs.Expansion.Unmarked
import SelectionRecall.Proofs.Schema.Possible
import SelectionRecall.Proofs.Usage.Congruence

/-!
# No fragment is generated in excess

A fragment is only generated for a request that nothing serves. So no two generated fragments of one
type are equal, and no fragment is generated that an unmarked one of the document could stand for. What
a type is asked for does not change while a document is expanded: all that is known of a concrete type
or of an implementer, or the fields alone of an abstract type. Where no implementer is abstract these
never meet at one type, so that each type gets one generated fragment at most. There is one exception:
what is known of a type may hold a float that is not a number. Then it is not equal to itself, and each
request for it gets a fragment of its own.

* `FragmentSupply.Sparing`: what a supply keeps when it only generates what nothing serves.
* `Expansion.sparing_supplyAfter`: the supply of a document keeps it.
* `Expansion.find?_authored_of_generated`: nothing is generated that an authored fragment serves.
* `Schema.ListsConcrete`: no implementer is itself abstract.
* `Expansion.MayRequest.unique`: what a type is asked for.
* `Expansion.pairwise_differ_supplyAfter`, `Expansion.covers_eq_false_of_generated`,
  `Expansion.pairwise_typeName_supplyAfter`, `Expansion.nodup_typeName_supplyAfter`: the fragments that are
  generated.
* `Expansion.sparing_expand`: the fragments that are added to a document.
* `Expansion.sparing_expand_shelf`: requests of several markers that two fragments serve.
-/

namespace SelectionRecall

namespace FragmentSupply

/-- A request is served by what serves it already, or else a fragment is generated for it. -/
theorem request_snd_cases (supply : FragmentSupply) (typeName : String) (usage : Usage) :
    (supply.request typeName usage).2 = supply ∨
      supply.serving? typeName usage = none ∧
        ∃ name, (supply.request typeName usage).2 = supply.generate ⟨name, typeName, usage⟩ := by
  unfold request
  cases supply.serving? typeName usage with
  | some fragment => exact Or.inl rfl
  | none => exact Or.inr ⟨rfl, _, rfl⟩

/-- Nothing serves a request if no authored fragment covers it and no generated one selects just it. -/
theorem serving?_eq_none_iff {supply : FragmentSupply} {typeName : String} {usage : Usage} :
    supply.serving? typeName usage = none ↔
      supply.authored.find? (·.covers typeName usage) = none ∧
        ∀ fragment ∈ supply.generated, fragment.selects typeName usage = false := by
  unfold serving?
  cases supply.authored.find? (·.covers typeName usage) with
  | some fragment => simp
  | none => simp [List.find?_eq_none]

/-- **Nothing is generated in excess**: when a fragment was generated no older one selected the same,
and no authored fragment covers it. -/
structure Sparing (supply : FragmentSupply) : Prop where
  apart : supply.generated.Pairwise fun old new => old.selects new.typeName new.usage = false
  needed : ∀ fragment ∈ supply.generated,
    supply.authored.find? (·.covers fragment.typeName fragment.usage) = none

/-- A request keeps it so. -/
theorem Sparing.request {supply : FragmentSupply} (h : supply.Sparing) (typeName : String)
    (usage : Usage) : (supply.request typeName usage).2.Sparing := by
  rcases supply.request_snd_cases typeName usage with hsame | ⟨hnone, name, hgenerate⟩
  · rw [hsame]; exact h
  · obtain ⟨hauthored, hgenerated⟩ := serving?_eq_none_iff.1 hnone
    rw [hgenerate]
    constructor
    · refine List.pairwise_append.2 ⟨h.apart, List.pairwise_singleton _ _, ?_⟩
      intro old hold new hnew
      rw [List.mem_singleton.1 hnew]
      exact hgenerated old hold
    · intro fragment hfragment
      rcases List.mem_append.1 hfragment with hold | hnew
      · exact h.needed fragment hold
      · rw [List.mem_singleton.1 hnew]; exact hauthored

end FragmentSupply

namespace Schema

variable {schema : Schema}

/-- No implementer is itself an interface or a union. -/
def ListsConcrete (schema : Schema) : Prop :=
  ∀ typeName, ∀ implementer ∈ schema.implementers typeName, schema.isAbstract implementer = false

/-- It is enough to look at what the types of the schema list. -/
theorem listsConcrete_of_types
    (h : ∀ type ∈ schema.types, ∀ implementer ∈ type.implementers,
      schema.isAbstract implementer = false) : schema.ListsConcrete := by
  intro typeName implementer hmem
  obtain ⟨type, -, htype, hlisted⟩ := exists_type_of_mem_implementers hmem
  exact h type htype implementer hlisted

end Schema

namespace Expansion

variable {expansion : Expansion} {document : Document} {typeName : String} {usage other : Usage}

/-! ## What is generated for a document -/

/-- **The requests of a document keep it so.** -/
theorem sparing_supplyAfter (document : Document) : (expansion.supplyAfter document).Sparing := by
  have hstart : (expansion.supplyOf document).Sparing := by
    constructor
    · rw [generated_supplyOf]; exact List.Pairwise.nil
    · rw [generated_supplyOf]; simp
  exact FragmentSupply.requestAll_induction (fun _ request _ h => h.request request.1 request.2) hstart

/-- **Nothing is generated that an authored fragment serves.** -/
theorem find?_authored_of_generated {fragment : SuppliedFragment}
    (h : fragment ∈ (expansion.supplyAfter document).generated) :
    (expansion.supplyOf document).authored.find? (·.covers fragment.typeName fragment.usage) = none := by
  rw [← authored_supplyAfter]
  exact (sparing_supplyAfter document).needed fragment h

/-- An unmarked fragment on a known type that covers a usage serves requests for it. -/
theorem isSome_find?_authored {fragment : FragmentDefinition}
    (hfragment : fragment ∈ document.fragments)
    (hunmarked : expansion.anyMarks fragment.selections = false)
    (hknown : expansion.schema.hasType fragment.condition = true)
    (hcovers : (expansion.schema.observe document fragment.condition fragment.selections).usage.covers
      usage = true) :
    ((expansion.supplyOf document).authored.find? (·.covers fragment.condition usage)).isSome = true := by
  rw [List.find?_isSome, authored_supplyOf]
  refine ⟨⟨fragment.name, fragment.condition,
    (expansion.schema.observe document fragment.condition fragment.selections).usage⟩, ?_, ?_⟩
  · refine List.mem_filterMap.2 ⟨fragment, hfragment, ?_⟩
    unfold offered?
    rw [hunmarked, hknown]; rfl
  · unfold SuppliedFragment.covers
    simpa using hcovers

/-- The fragments behind the definitions of the document are those that were generated, of which there
are none if it has no marker. -/
theorem drop_expand_eq (document : Document) :
    (expansion.expand document).definitions.drop document.definitions.length =
      (expansion.supplyAfter document).generated.map SuppliedFragment.definition := by
  cases hmarked : expansion.isMarked document with
  | true => exact expansion.drop_expand hmarked
  | false =>
    unfold supplyAfter
    rw [expansion.expand_of_isMarked_eq_false hmarked, List.drop_length,
      expansion.requests_of_isMarked_eq_false hmarked, FragmentSupply.requestAll, generated_supplyOf]
    rfl

/-! ## What a type is asked for -/

/-- Where no implementer is abstract, an abstract type is asked for the fields alone, and any other type
for all that is known of it. -/
theorem MayRequest.cases
    (hconcrete : expansion.schema.ListsConcrete)
    (h : expansion.MayRequest typeName usage) :
    expansion.schema.isAbstract typeName = false ∧
        expansion.table.getNonEmpty? typeName = some usage ∨
      expansion.schema.isAbstract typeName = true ∧
        ∃ known, expansion.table.get? typeName = some known ∧ usage = known.unconditional := by
  cases h with
  | concrete htype hget => exact Or.inl ⟨htype, hget⟩
  | implementer _ hmem hget => exact Or.inl ⟨hconcrete _ _ hmem, hget⟩
  | shared habstract hget _ => exact Or.inr ⟨habstract, _, hget, rfl⟩

/-- **A type is always asked for the same**, where no implementer is abstract. -/
theorem MayRequest.unique
    (hconcrete : expansion.schema.ListsConcrete)
    (h : expansion.MayRequest typeName usage) (h' : expansion.MayRequest typeName other) :
    usage = other := by
  rcases h.cases hconcrete with ⟨htype, hget⟩ | ⟨htype, known, hget, rfl⟩
  · rcases h'.cases hconcrete with ⟨-, hget'⟩ | ⟨htype', -⟩
    · exact Option.some.inj (hget.symm.trans hget')
    · rw [htype] at htype'; cases htype'
  · rcases h'.cases hconcrete with ⟨htype', -⟩ | ⟨-, known', hget', rfl⟩
    · rw [htype] at htype'; cases htype'
    · rw [Option.some.inj (hget.symm.trans hget')]

/-- What is known is equal to itself, in a table in which no names repeat, if all floats in it are
numbers. -/
theorem Knows.beq_self (htable : expansion.table.Distinct) (h : expansion.Knows typeName usage)
    (hnumbers : usage.NanFree) : (usage == usage) = true := by
  obtain ⟨known, hget, rfl | rfl⟩ := h
  · exact (Usage.Same.refl (htable.of_get? hget) hnumbers).equal
  · exact (Usage.Same.refl (htable.of_get? hget).unconditional hnumbers).equal

/-- All floats in what is known are numbers, if those in the table are. -/
theorem Knows.nanFree (htable : expansion.table.NanFree) (h : expansion.Knows typeName usage) :
    usage.NanFree := by
  obtain ⟨known, hget, rfl | rfl⟩ := h
  · exact htable _ (Keyed.mem_of_lookup hget)
  · exact (htable _ (Keyed.mem_of_lookup hget)).unconditional

/-! ## The fragments that are added -/

/-- No two generated fragments of one type are equal, whichever is compared with the other. -/
theorem pairwise_differ_supplyAfter (document : Document) :
    (expansion.supplyAfter document).generated.Pairwise fun old new => old.typeName = new.typeName →
      (old.usage == new.usage) = false ∧ (new.usage == old.usage) = false := by
  have hknows := expansion.generatesOnly_supplyAfter document
  refine (sparing_supplyAfter document).apart.imp_of_mem ?_
  intro old new hold hnew hselects htype
  have hdiffers : (old.usage == new.usage) = false := by
    unfold SuppliedFragment.selects at hselects
    simpa [htype] using hselects
  refine ⟨hdiffers, ?_⟩
  -- known usages of one type that are found equal are the same, and then the order does not matter
  by_contra hequal
  rw [Bool.not_eq_false] at hequal
  have hknown := hknows old hold
  rw [htype] at hknown
  have hsame := eq_of_beq_of_knows (hknows new hnew) hknown hequal
  rw [hsame] at hdiffers hequal
  rw [hdiffers] at hequal
  cases hequal

/-- No unmarked fragment of the document covers a generated one of its type. -/
theorem covers_eq_false_of_generated {fragment : SuppliedFragment}
    (h : fragment ∈ (expansion.supplyAfter document).generated)
    (hknown : expansion.schema.hasType fragment.typeName = true) {authored : FragmentDefinition}
    (hauthored : authored ∈ document.fragments) (hcondition : authored.condition = fragment.typeName)
    (hunmarked : expansion.anyMarks authored.selections = false) :
    (expansion.schema.observe document fragment.typeName authored.selections).usage.covers
      fragment.usage = false := by
  by_contra hcovers
  rw [Bool.not_eq_false, ← hcondition] at hcovers
  rw [← hcondition] at hknown
  have hserved := isSome_find?_authored hauthored hunmarked hknown hcovers
  rw [hcondition, find?_authored_of_generated h] at hserved
  cases hserved

/-- Where no implementer is abstract, two fragments are only generated for one type if they are for the
same usage, and a float in it is not a number. -/
theorem pairwise_typeName_supplyAfter (htable : expansion.table.Distinct)
    (hconcrete : expansion.schema.ListsConcrete) (document : Document) :
    (expansion.supplyAfter document).generated.Pairwise fun old new => old.typeName = new.typeName →
      old.usage = new.usage ∧ ¬ new.usage.NanFree := by
  have hrequested : (expansion.supplyAfter document).GeneratesOnly expansion.MayRequest :=
    expansion.generatesOnly_of_requests fun _ hrequest => mayRequest_of_mem_requests hrequest
  refine (pairwise_differ_supplyAfter document).imp_of_mem ?_
  intro old new hold hnew hdiffer htype
  have hasked := hrequested old hold
  rw [htype] at hasked
  have hsame : old.usage = new.usage := hasked.unique hconcrete (hrequested new hnew)
  refine ⟨hsame, fun hnumbers => ?_⟩
  have hfound := (hdiffer htype).1
  rw [hsame, (hrequested new hnew).knows.beq_self htable hnumbers] at hfound
  cases hfound

/-- **One fragment a type is generated**, where no implementer is abstract and all floats in the table are
numbers. -/
theorem nodup_typeName_supplyAfter (htable : expansion.table.Distinct)
    (hnumbers : expansion.table.NanFree) (hconcrete : expansion.schema.ListsConcrete)
    (document : Document) :
    ((expansion.supplyAfter document).generated.map SuppliedFragment.typeName).Nodup := by
  have hknows := expansion.generatesOnly_supplyAfter document
  refine List.pairwise_map.2 ((pairwise_typeName_supplyAfter htable hconcrete document).imp_of_mem ?_)
  exact fun _ hnew hsame htype => (hsame htype).2 ((hknows _ hnew).nanFree hnumbers)

/-- **No fragment is added in excess.** For every schema, table and options, consider the fragments that
are added to a document for its markers, in order, each with the usage that it was generated for.

* No two of them are on the same type with equal usages, whichever is compared with the other.
* None of them is on a known type on which the document has an unmarked fragment that covers it.
* In a table in which no names repeat, as in a map, and in a schema in which no implementer is itself
  abstract, no two of them are on the same type, whatever markers ask for it, if all floats in the table
  are numbers.
* In such a schema and with whatever floats, two of them are only on the same type if they were generated
  for one usage in which a float is not a number, so that it is not equal to itself. -/
theorem sparing_expand (expansion : Expansion) (document : Document) :
    let generated :=
      (expansion.expandDefinitions (expansion.supplyOf document) document.definitions).2.generated
    (expansion.expand document).definitions.drop document.definitions.length =
        generated.map SuppliedFragment.definition ∧
      (generated.Pairwise fun old new => old.typeName = new.typeName →
        (old.usage == new.usage) = false ∧ (new.usage == old.usage) = false) ∧
      (∀ fragment ∈ generated, expansion.schema.hasType fragment.typeName = true →
        ∀ authored ∈ document.fragments, authored.condition = fragment.typeName →
          expansion.anyMarks authored.selections = false →
            (expansion.schema.observe document fragment.typeName authored.selections).usage.covers
              fragment.usage = false) ∧
      (expansion.table.Distinct → expansion.schema.ListsConcrete →
        (expansion.table.NanFree → (generated.map SuppliedFragment.typeName).Nodup) ∧
          generated.Pairwise fun old new => old.typeName = new.typeName →
            old.usage = new.usage ∧ ¬ new.usage.NanFree) := by
  intro generated
  have hgenerated : generated = (expansion.supplyAfter document).generated := by
    show (expansion.expandDefinitions _ _).2.generated = _
    rw [expandDefinitions_snd]; rfl
  rw [hgenerated]
  refine ⟨drop_expand_eq document, pairwise_differ_supplyAfter document, ?_, ?_⟩
  · exact fun fragment hfragment hknown authored hauthored hcondition hunmarked =>
      covers_eq_false_of_generated hfragment hknown hauthored hcondition hunmarked
  · exact fun htable hconcrete =>
      ⟨fun hnumbers => nodup_typeName_supplyAfter htable hnumbers hconcrete document,
        pairwise_typeName_supplyAfter htable hconcrete document⟩

/-- Books and films are items, and nothing else is. -/
def shelfSchema : Schema :=
  ⟨"Query", some "Mutation", none,
    [⟨"Query", .object, [("item", "Item"), ("book", "Book")], []⟩,
      ⟨"Mutation", .object, [("lend", "Item"), ("bind", "Book")], []⟩,
      ⟨"Item", .interface, [("title", "String")], ["Book", "Film"]⟩,
      ⟨"Book", .object, [("title", "String"), ("pages", "Int")], []⟩,
      ⟨"Film", .object, [("title", "String")], []⟩]⟩

/-- A query for the title of an item and for the pages of a book. -/
def shelfQuery : Document :=
  ⟨[.operation ⟨none, [.field none "item" [] [] [.field none "title" [] [] []],
    .field none "book" [] [] [.field none "pages" [] [] []]]⟩]⟩

/-- What was learned from the query. -/
def shelfExpansion : Expansion := ⟨{}, shelfSchema, shelfQuery.usages shelfSchema⟩

/-- Two mutations with markers on an item and on a book, and a fragment for the title of a book. -/
def shelfDocument : Document :=
  ⟨[.operation ⟨some ⟨.mutation, some "Lend", [], []⟩,
      [.field none "lend" [] [⟨"populate", []⟩] []]⟩,
    .fragment ⟨"Titled", "Book", [], [.field none "title" [] [] []]⟩,
    .operation ⟨some ⟨.mutation, some "Bind", [], []⟩,
      [.field none "bind" [] [⟨"populate", []⟩] [], .field none "lend" [] [⟨"populate", []⟩] []]⟩]⟩

/-- **Five requests, two fragments**: two for films and three for books, none of which the fragment of
the document serves. -/
theorem sparing_expand_shelf :
    let generated := (shelfExpansion.expandDefinitions (shelfExpansion.supplyOf shelfDocument)
      shelfDocument.definitions).2.generated
    shelfExpansion.table.Distinct ∧ shelfExpansion.schema.ListsConcrete ∧
      shelfExpansion.table.NanFree ∧
      (shelfExpansion.requests shelfDocument).map Prod.fst = ["Book", "Item", "Book", "Book", "Item"] ∧
      generated.map SuppliedFragment.typeName = ["Book", "Item"] ∧
      (generated.map SuppliedFragment.typeName).Nodup := by
  have htable : shelfExpansion.table.Distinct := shelfQuery.distinct_usages shelfSchema
  have hconcrete : shelfExpansion.schema.ListsConcrete := Schema.listsConcrete_of_types (by decide)
  have hnumbers : shelfExpansion.table.NanFree :=
    (UsageTable.nanFree_iff_beq_self htable).2 (by decide +kernel)
  obtain ⟨-, -, -, hapart⟩ := sparing_expand shelfExpansion shelfDocument
  exact ⟨htable, hconcrete, hnumbers, by decide +kernel, by decide +kernel,
    (hapart htable hconcrete).1 hnumbers⟩

/-- With a float that is not a number among the arguments of a book there are three fragments for books. -/
example :
    let unit : Usage := .ofField ((FieldUse.leaf "pages").withArguments [("unit", .float .nan)])
    let expansion := { shelfExpansion with table := shelfExpansion.table.merge "Book" unit }
    (expansion.expandDefinitions (expansion.supplyOf shelfDocument)
      shelfDocument.definitions).2.generated.map SuppliedFragment.typeName =
        ["Book", "Item", "Book", "Book"] := by decide +kernel

end Expansion

end SelectionRecall
