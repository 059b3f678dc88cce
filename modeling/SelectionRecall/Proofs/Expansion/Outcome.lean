import SelectionRecall.Proofs.Expansion.Requests

/-!
# The supply before and after expansion

The markers of a document start from a supply that offers its unmarked fragments and has all of its
names taken. What the markers request is known: the usage of a type, or its fields alone. So the
supply after them serves each request with an authored fragment or with a fragment of just what was
requested, and all fragment names of the document stay apart.

* `Expansion.MayRequest`, `Expansion.Knows`: what may be requested, and that it is known.
* `Expansion.authored_supplyOf`, `Expansion.wellNamed_supplyOf`: the supply before expansion.
* `Expansion.supplyAfter`, `Expansion.expand_eq`: the supply and the document after expansion.
* `Expansion.supplyAfter_serves`, `Expansion.serves_cases`: what the requests are served with.
* `Expansion.exists_of_mem_drop_expand`: what is added to a document.
* `Expansion.nodup_fragmentNames_expand`: fragment names stay distinct.
-/

namespace SelectionRecall

namespace Expansion

open Selection

variable (expansion : Expansion)

/-! ## What may be requested -/

/-- What may be requested of a type: its usage, or the fields of its usage alone. -/
def Knows (typeName : String) (usage : Usage) : Prop :=
  ∃ known, expansion.table.get? typeName = some known ∧
    (usage = known ∨ usage = known.unconditional)

variable {expansion}

/-- Equal usages have equally many parts. -/
theorem length_parts_eq_of_beq {old new : Usage} (h : (old == new) = true) :
    old.parts.length = new.parts.length := by
  cases old with
  | mk fields parts =>
    have hequals : Usage.equals (.mk fields parts) new = true := h
    simp only [Usage.equals, Bool.and_eq_true, beq_iff_eq] at hequals
    exact hequals.1.1.2

/-- A usage without parts is what it holds unconditionally. -/
theorem unconditional_eq_of_parts_eq_nil {usage : Usage} (h : usage.parts = []) :
    usage.unconditional = usage := by
  cases usage with
  | mk fields parts =>
    simp only [Usage.parts] at h
    rw [h]; rfl

/-- **Known usages of one type that are found equal are the same.** They differ in their parts at
most, and then not in the count of them. -/
theorem eq_of_beq_of_knows {typeName : String} {old new : Usage}
    (hold : expansion.Knows typeName old) (hnew : expansion.Knows typeName new)
    (h : (old == new) = true) : old = new := by
  have hlength := length_parts_eq_of_beq h
  obtain ⟨known, hget, hold⟩ := hold
  obtain ⟨known', hget', hnew⟩ := hnew
  have hknown : known = known' := Option.some.inj (hget.symm.trans hget')
  subst hknown
  -- a usage and its fields alone are only found equal if it has no parts
  rcases hold with rfl | rfl
  · rcases hnew with rfl | rfl
    · rfl
    · exact (unconditional_eq_of_parts_eq_nil (List.eq_nil_of_length_eq_zero hlength)).symm
  · rcases hnew with rfl | rfl
    · exact unconditional_eq_of_parts_eq_nil (List.eq_nil_of_length_eq_zero hlength.symm)
    · rfl

/-- **What markers may request**: all that is known of a concrete type or of an implementer, or the
fields alone of an abstract type. Nothing empty is requested. -/
inductive MayRequest (expansion : Expansion) : String → Usage → Prop
  | concrete {typeName usage} :
    expansion.schema.isAbstract typeName = false →
    expansion.table.getNonEmpty? typeName = some usage → MayRequest expansion typeName usage
  | implementer {abstractName implementer usage} :
    expansion.schema.isAbstract abstractName = true →
    implementer ∈ expansion.schema.implementers abstractName →
    expansion.table.getNonEmpty? implementer = some usage → MayRequest expansion implementer usage
  | shared {abstractName known} :
    expansion.schema.isAbstract abstractName = true →
    expansion.table.get? abstractName = some known → known.unconditional.isEmpty = false →
    MayRequest expansion abstractName known.unconditional

/-- What a marker requests, it may request. -/
theorem mayRequest_of_mem_requestsFor {typeName : String} {request : String × Usage}
    (h : request ∈ expansion.requestsFor typeName) :
    expansion.MayRequest request.1 request.2 := by
  unfold requestsFor at h
  split at h
  · rename_i habstract
    obtain ⟨implementer, himplementer, hrequest⟩ := List.mem_filterMap.1 h
    unfold requestFor? at hrequest
    split at hrequest
    · rename_i usage hget
      rw [← Option.some.inj hrequest]
      exact .implementer habstract himplementer hget
    · obtain ⟨usage, hfilter, rfl⟩ := Option.map_eq_some_iff.1 hrequest
      obtain ⟨hmap, hleft⟩ := Option.filter_eq_some_iff.1 hfilter
      obtain ⟨known, hget, rfl⟩ := Option.map_eq_some_iff.1 hmap
      exact .shared habstract hget (by simpa using hleft)
  · rename_i hconcrete
    split at h
    · simp at h
    · rename_i usage hget
      rw [List.mem_singleton.1 h]
      exact .concrete (by simpa using hconcrete) hget

/-- What the markers of a field request, they may request. -/
theorem mayRequest_of_mem_fieldRequests {directives : List Directive} {type? : Option String}
    {request : String × Usage} (h : request ∈ expansion.fieldRequests directives type?) :
    expansion.MayRequest request.1 request.2 := by
  unfold fieldRequests at h
  cases type? with
  | none => simp at h
  | some typeName =>
    simp only at h
    split at h
    · exact mayRequest_of_mem_requestsFor h
    · simp at h

mutual

/-- What the markers of a selection request, they may request. -/
theorem mayRequest_of_mem_requestsOf (parent? : Option String) (selection : Selection)
    {request : String × Usage} (h : request ∈ expansion.requestsOf parent? selection) :
    expansion.MayRequest request.1 request.2 := by
  cases selection with
  | field alias? name arguments directives selections =>
    rw [requestsOf, List.mem_append] at h
    rcases h with hinner | hown
    · exact mayRequest_of_mem_requestsIn _ selections hinner
    · exact mayRequest_of_mem_fieldRequests hown
  | inline condition? directives selections =>
    rw [requestsOf] at h; exact mayRequest_of_mem_requestsIn _ selections h
  | spread fragment directives => simp [requestsOf] at h

/-- What the markers of selections request, they may request. -/
theorem mayRequest_of_mem_requestsIn (parent? : Option String) (selections : List Selection)
    {request : String × Usage} (h : request ∈ expansion.requestsIn parent? selections) :
    expansion.MayRequest request.1 request.2 := by
  cases selections with
  | nil => simp [requestsIn] at h
  | cons selection rest =>
    rw [requestsIn, List.mem_append] at h
    rcases h with hfirst | hrest
    · exact mayRequest_of_mem_requestsOf parent? selection hfirst
    · exact mayRequest_of_mem_requestsIn parent? rest hrest

end

/-- **A document only requests what markers may request.** -/
theorem mayRequest_of_mem_requests {document : Document} {request : String × Usage}
    (h : request ∈ expansion.requests document) : expansion.MayRequest request.1 request.2 := by
  obtain ⟨definition, -, hrequest⟩ := List.mem_flatMap.1 h
  exact mayRequest_of_mem_requestsIn _ definition.selections hrequest

/-- What may be requested is known. -/
theorem MayRequest.knows {typeName : String} {usage : Usage}
    (h : expansion.MayRequest typeName usage) : expansion.Knows typeName usage := by
  cases h with
  | concrete _ hget => exact ⟨usage, (Option.filter_eq_some_iff.1 hget).1, Or.inl rfl⟩
  | implementer _ _ hget => exact ⟨usage, (Option.filter_eq_some_iff.1 hget).1, Or.inl rfl⟩
  | shared _ hget _ => exact ⟨_, hget, Or.inr rfl⟩

/-- **Only what is known is requested.** -/
theorem knows_of_mem_requests {document : Document} {request : String × Usage}
    (h : request ∈ expansion.requests document) : expansion.Knows request.1 request.2 :=
  (mayRequest_of_mem_requests h).knows

/-! ## The supply before expansion -/

/-- What a fragment of the document is offered as: its usage, if it has no marker and its type is
known. -/
def offered? (expansion : Expansion) (document : Document) (fragment : FragmentDefinition) :
    Option SuppliedFragment :=
  if expansion.anyMarks fragment.selections || !expansion.schema.hasType fragment.condition then
    none
  else
    some ⟨fragment.name, fragment.condition,
      (expansion.schema.observe document fragment.condition fragment.selections).usage⟩

/-- Taking a fragment into a supply offers it or reserves its name. -/
theorem register_eq (document : Document) (supply : FragmentSupply)
    (fragment : FragmentDefinition) :
    expansion.register document supply fragment =
      match expansion.offered? document fragment with
      | none => supply.reserve fragment.name
      | some supplied => supply.offer supplied := by
  unfold register offered?
  split <;> rfl

/-- An offered fragment has no marker, and is offered as it stands. -/
theorem offered?_eq_some {document : Document} {fragment : FragmentDefinition}
    {supplied : SuppliedFragment} (h : expansion.offered? document fragment = some supplied) :
    expansion.anyMarks fragment.selections = false ∧
      supplied = ⟨fragment.name, fragment.condition,
        (expansion.schema.observe document fragment.condition fragment.selections).usage⟩ := by
  unfold offered? at h
  split at h
  · simp at h
  · rename_i hcondition
    rw [Bool.or_eq_true, not_or, Bool.not_eq_true] at hcondition
    exact ⟨hcondition.1, (Option.some.inj h).symm⟩

/-- Fragments are offered in order. -/
theorem authored_foldl_register (document : Document) (fragments : List FragmentDefinition)
    (supply : FragmentSupply) :
    (fragments.foldl (expansion.register document) supply).authored =
      supply.authored ++ fragments.filterMap (expansion.offered? document) := by
  induction fragments generalizing supply with
  | nil => simp
  | cons fragment rest ih =>
    rw [List.foldl_cons, ih, register_eq]
    cases hoffered : expansion.offered? document fragment with
    | none => rw [List.filterMap_cons_none hoffered]; rfl
    | some supplied =>
      rw [List.filterMap_cons_some hoffered]
      unfold FragmentSupply.offer
      rw [List.append_assoc]; rfl

/-- Taking fragments into a supply generates none, and takes all their names. -/
theorem foldl_register_taken (document : Document) (fragments : List FragmentDefinition)
    (supply : FragmentSupply) :
    (fragments.foldl (expansion.register document) supply).generated = supply.generated ∧
      ∀ name, name ∈ supply.taken ∨ name ∈ fragments.map FragmentDefinition.name →
        name ∈ (fragments.foldl (expansion.register document) supply).taken := by
  induction fragments generalizing supply with
  | nil => simp
  | cons fragment rest ih =>
    obtain ⟨hgenerated, htaken⟩ := ih (expansion.register document supply fragment)
    have hstep : (expansion.register document supply fragment).generated = supply.generated ∧
        (expansion.register document supply fragment).taken = fragment.name :: supply.taken := by
      unfold register; split <;> exact ⟨rfl, rfl⟩
    rw [hstep.1] at hgenerated
    rw [hstep.2] at htaken
    refine ⟨hgenerated, ?_⟩
    intro name hname
    apply htaken
    simp only [List.map_cons, List.mem_cons] at hname ⊢
    tauto

/-- **The authored fragments of a supply** are the unmarked fragments of the document. -/
theorem authored_supplyOf (document : Document) :
    (expansion.supplyOf document).authored =
      document.fragments.filterMap (expansion.offered? document) := by
  rw [supplyOf, authored_foldl_register]; rfl

/-- A supply starts without generated fragments. -/
theorem generated_supplyOf (document : Document) :
    (expansion.supplyOf document).generated = [] :=
  (foldl_register_taken document document.fragments _).1

/-- What is generated at the start has any property. -/
theorem generatesOnly_supplyOf {Holds : String → Usage → Prop} (document : Document) :
    (expansion.supplyOf document).GeneratesOnly Holds := by
  intro fragment hfragment
  rw [generated_supplyOf] at hfragment
  simp at hfragment

/-- A supply starts with the fragment names of the document reserved. -/
theorem wellNamed_supplyOf (document : Document) :
    (expansion.supplyOf document).WellNamed document.fragmentNames where
  reserved_taken name hname :=
    (foldl_register_taken document document.fragments _).2 name (Or.inr hname)
  generated_taken := by rw [generated_supplyOf]; simp
  generated_not_reserved := by rw [generated_supplyOf]; simp
  generated_nodup := by rw [generated_supplyOf]; simp

/-- An authored fragment that covers a request is an unmarked fragment of the document. -/
theorem exists_of_find?_authored {document : Document} {typeName : String} {usage : Usage}
    {supplied : SuppliedFragment}
    (h : (expansion.supplyOf document).authored.find? (·.covers typeName usage) = some supplied) :
    ∃ fragment ∈ document.fragments, fragment.name = supplied.name ∧
      fragment.condition = typeName ∧ expansion.anyMarks fragment.selections = false ∧
      (expansion.schema.observe document typeName fragment.selections).usage.covers usage =
        true := by
  have hmem := List.mem_of_find?_eq_some h
  have hcovers := List.find?_some h
  rw [authored_supplyOf] at hmem
  obtain ⟨fragment, hfragment, hoffered⟩ := List.mem_filterMap.1 hmem
  obtain ⟨hunmarked, rfl⟩ := offered?_eq_some hoffered
  simp only [SuppliedFragment.covers, Bool.and_eq_true, decide_eq_true_eq] at hcovers
  obtain ⟨rfl, hcovers⟩ := hcovers
  exact ⟨fragment, hfragment, rfl, rfl, hunmarked, hcovers⟩

/-! ## The supply and the document after expansion -/

variable (expansion)

/-- The supply after the requests of all markers of the document. -/
def supplyAfter (document : Document) : FragmentSupply :=
  ((expansion.supplyOf document).requestAll (expansion.requests document)).2

/-- The definitions of the document without their markers. -/
def expandedDefinitions (document : Document) : List Definition :=
  (expansion.expandDefinitions (expansion.supplyOf document) document.definitions).1

/-- **The document after expansion**, if it had a marker: its definitions without their markers, and
the fragments that were generated. -/
theorem expand_eq {document : Document} (h : expansion.isMarked document = true) :
    expansion.expand document =
      ⟨expansion.expandedDefinitions document ++
        (expansion.supplyAfter document).generated.map SuppliedFragment.definition⟩ := by
  have hsupply := expansion.expandDefinitions_snd (expansion.supplyOf document) document.definitions
  unfold expand supplyAfter requests
  rw [if_pos h, ← hsupply]; rfl

/-- A document without markers is left as it is. -/
theorem expand_of_isMarked_eq_false {document : Document}
    (h : expansion.isMarked document = false) : expansion.expand document = document := by
  unfold expand
  rw [if_neg (by rw [h]; exact Bool.false_ne_true)]

/-- The expanded definitions are the definitions of the document, each expanded with the supply that
the requests before it leave. -/
theorem expandedDefinitions_getElem? {document : Document} {index : ℕ} {definition : Definition}
    (h : document.definitions[index]? = some definition) :
    ∃ before after,
      expansion.requests document = before ++ expansion.definitionRequests definition ++ after ∧
      (expansion.expandedDefinitions document)[index]? =
        some (expansion.expandDefinition ((expansion.supplyOf document).requestAll before).2
          definition).1 :=
  expansion.expandDefinitions_getElem? (expansion.supplyOf document) h

/-- Each expanded definition comes from a definition of the document. -/
theorem exists_of_mem_expandedDefinitions {document : Document} {expanded : Definition}
    (h : expanded ∈ expansion.expandedDefinitions document) :
    ∃ definition ∈ document.definitions, ∃ before after,
      expansion.requests document = before ++ expansion.definitionRequests definition ++ after ∧
      expanded = (expansion.expandDefinition ((expansion.supplyOf document).requestAll before).2
        definition).1 := by
  obtain ⟨index, hindex⟩ := List.mem_iff_getElem?.1 h
  have hlt : index < document.definitions.length := by
    rw [← expansion.length_expandDefinitions (expansion.supplyOf document)]
    exact (List.getElem?_eq_some_iff.1 hindex).1
  obtain ⟨before, after, hrequests, hget⟩ :=
    expansion.expandedDefinitions_getElem? (List.getElem?_eq_getElem hlt)
  rw [hindex] at hget
  exact ⟨_, List.getElem_mem hlt, before, after, hrequests, Option.some.inj hget⟩

/-- Each definition of the document has its expanded one. -/
theorem exists_expanded_of_mem {document : Document} {definition : Definition}
    (h : definition ∈ document.definitions) :
    ∃ before after,
      expansion.requests document = before ++ expansion.definitionRequests definition ++ after ∧
      (expansion.expandDefinition ((expansion.supplyOf document).requestAll before).2
        definition).1 ∈ expansion.expandedDefinitions document := by
  obtain ⟨index, hindex⟩ := List.mem_iff_getElem?.1 h
  obtain ⟨before, after, hrequests, hget⟩ := expansion.expandedDefinitions_getElem? hindex
  exact ⟨before, after, hrequests, List.mem_of_getElem? hget⟩

@[simp]
theorem length_expandedDefinitions (document : Document) :
    (expansion.expandedDefinitions document).length = document.definitions.length :=
  expansion.length_expandDefinitions _ _

/-- The first definitions after expansion are those that were there before. -/
theorem take_expand {document : Document} (h : expansion.isMarked document = true) :
    (expansion.expand document).definitions.take document.definitions.length =
      expansion.expandedDefinitions document := by
  rw [expand_eq expansion h]
  exact List.take_left' (expansion.length_expandedDefinitions document)

/-- The definitions behind them are the generated fragments. -/
theorem drop_expand {document : Document} (h : expansion.isMarked document = true) :
    (expansion.expand document).definitions.drop document.definitions.length =
      (expansion.supplyAfter document).generated.map SuppliedFragment.definition := by
  rw [expand_eq expansion h]
  exact List.drop_left' (expansion.length_expandedDefinitions document)

/-- Names are kept apart by all requests. -/
theorem wellNamed_supplyAfter (document : Document) :
    (expansion.supplyAfter document).WellNamed document.fragmentNames :=
  (wellNamed_supplyOf document).requestAll _

/-- The authored fragments stay those of the document. -/
theorem authored_supplyAfter (document : Document) :
    (expansion.supplyAfter document).authored = (expansion.supplyOf document).authored :=
  (FragmentSupply.requestAll_extends _ _).authored

/-- **All requests are served** by the supply after them, each under the name that answered it. -/
theorem supplyAfter_serves (document : Document) :
    (expansion.supplyOf document).AnswersAll (expansion.supplyAfter document).Serves
      (expansion.requests document) :=
  FragmentSupply.requestAll_serves expansion.Knows eq_of_beq_of_knows
    (generatesOnly_supplyOf document) fun _ hrequest => knows_of_mem_requests hrequest

/-- So is any part of the requests, wherever in the document they are made. -/
theorem supplyAfter_serves_of_append {document : Document}
    {before requests after : List (String × Usage)}
    (h : expansion.requests document = before ++ requests ++ after) :
    ((expansion.supplyOf document).requestAll before).2.AnswersAll
      (expansion.supplyAfter document).Serves requests := by
  have hall := expansion.supplyAfter_serves document
  rw [h, FragmentSupply.answersAll_append, FragmentSupply.answersAll_append] at hall
  exact hall.1.2

/-- What holds of all requests of the document holds of all that is generated for them. -/
theorem generatesOnly_of_requests {Holds : String → Usage → Prop} {document : Document}
    (h : ∀ request ∈ expansion.requests document, Holds request.1 request.2) :
    (expansion.supplyAfter document).GeneratesOnly Holds := by
  refine FragmentSupply.requestAll_induction ?_ (generatesOnly_supplyOf document)
  intro supply request hrequest hsupply
  exact hsupply.request (h request hrequest)

/-- Only what is known is generated. -/
theorem generatesOnly_supplyAfter (document : Document) :
    (expansion.supplyAfter document).GeneratesOnly expansion.Knows :=
  expansion.generatesOnly_of_requests fun _ hrequest => knows_of_mem_requests hrequest

/-- **What is added to a document**: fragments that select known usages of their types, under names
that the document does not have. -/
theorem exists_of_mem_drop_expand {document : Document} {added : Definition}
    (h : added ∈ (expansion.expand document).definitions.drop document.definitions.length) :
    ∃ name typeName usage, added = .fragment (usage.toFragment name typeName) ∧
      expansion.Knows typeName usage ∧ name ∉ document.fragmentNames := by
  cases hmarked : expansion.isMarked document with
  | false =>
    rw [expand_of_isMarked_eq_false expansion hmarked, List.drop_length] at h
    simp at h
  | true =>
    rw [drop_expand expansion hmarked] at h
    obtain ⟨supplied, hsupplied, rfl⟩ := List.mem_map.1 h
    exact ⟨supplied.name, supplied.typeName, supplied.usage, rfl,
      expansion.generatesOnly_supplyAfter document supplied hsupplied,
      (expansion.wellNamed_supplyAfter document).generated_not_reserved supplied hsupplied⟩

/-- Each name that answers a part of the requests serves one of them. -/
theorem exists_request_of_answer {document : Document}
    {before requests after : List (String × Usage)}
    (h : expansion.requests document = before ++ requests ++ after) {name : String}
    (hname : name ∈ (((expansion.supplyOf document).requestAll before).2.requestAll requests).1) :
    ∃ request ∈ requests, (expansion.supplyAfter document).Serves request.1 request.2 name :=
  exists_mem_of_forall₂ (expansion.supplyAfter_serves_of_append h) hname

/-- Each of the requests is served by one of the names that answer them. -/
theorem exists_answer_of_request {document : Document}
    {before requests after : List (String × Usage)}
    (h : expansion.requests document = before ++ requests ++ after) {request : String × Usage}
    (hrequest : request ∈ requests) :
    ∃ name ∈ (((expansion.supplyOf document).requestAll before).2.requestAll requests).1,
      (expansion.supplyAfter document).Serves request.1 request.2 name :=
  exists_mem_of_forall₂ (List.Forall₂.flip (expansion.supplyAfter_serves_of_append h)) hrequest

variable {expansion}

/-- What serves a request is an unmarked fragment of the document that covers it, or a fragment that
was generated for it. -/
theorem serves_cases {document : Document} {typeName : String} {usage : Usage} {name : String}
    (h : (expansion.supplyAfter document).Serves typeName usage name) :
    (∃ fragment ∈ document.fragments, fragment.name = name ∧ fragment.condition = typeName ∧
      expansion.anyMarks fragment.selections = false ∧
      (expansion.schema.observe document typeName fragment.selections).usage.covers usage =
        true) ∨
    ⟨name, typeName, usage⟩ ∈ (expansion.supplyAfter document).generated := by
  rcases h.cases with ⟨supplied, hfind, hname⟩ | hgenerated
  · rw [authored_supplyAfter] at hfind
    obtain ⟨fragment, hfragment, hsame, hrest⟩ := exists_of_find?_authored hfind
    exact Or.inl ⟨fragment, hfragment, hsame.trans hname, hrest⟩
  · exact Or.inr hgenerated

variable (expansion)

/-- Expansion keeps the names of fragments. -/
theorem names_expandDefinitions (supply : FragmentSupply) (definitions : List Definition) :
    ((expansion.expandDefinitions supply definitions).1.filterMap Definition.fragment?).map
        FragmentDefinition.name =
      (definitions.filterMap Definition.fragment?).map FragmentDefinition.name := by
  induction definitions generalizing supply with
  | nil => rfl
  | cons definition rest ih =>
    have hrest := ih (expansion.expandDefinition supply definition).2
    rw [expandDefinitions]
    cases definition with
    | operation operation =>
      simp only [List.filterMap_cons, expandDefinition, Definition.fragment?] at hrest ⊢
      exact hrest
    | fragment fragment =>
      simp only [List.filterMap_cons, expandDefinition, Definition.fragment?, List.map_cons]
        at hrest ⊢
      rw [hrest]

/-- The fragments after expansion: those of the document, and the generated ones. -/
theorem fragments_expand {document : Document} (h : expansion.isMarked document = true) :
    (expansion.expand document).fragments =
      (expansion.expandedDefinitions document).filterMap Definition.fragment? ++
        (expansion.supplyAfter document).generated.map fun fragment =>
          fragment.usage.toFragment fragment.name fragment.typeName := by
  have hgenerated : ∀ generated : List SuppliedFragment,
      (generated.map SuppliedFragment.definition).filterMap Definition.fragment? =
        generated.map fun fragment =>
          fragment.usage.toFragment fragment.name fragment.typeName := by
    intro generated
    rw [List.filterMap_map, ← List.filterMap_eq_map]; rfl
  rw [expand_eq expansion h]
  unfold Document.fragments
  rw [List.filterMap_append, hgenerated]

/-- The fragments after expansion that were there before. -/
theorem mem_fragments_expand {document : Document} (h : expansion.isMarked document = true)
    {fragment : FragmentDefinition} (hfragment : fragment ∈ document.fragments) :
    ∃ before after,
      expansion.requests document =
        before ++ expansion.requestsIn (some fragment.condition) fragment.selections ++ after ∧
      { fragment with
        selections := (expansion.expandSelections (some fragment.condition)
          ((expansion.supplyOf document).requestAll before).2 fragment.selections).1 } ∈
        (expansion.expand document).fragments := by
  obtain ⟨before, after, hrequests, hmem⟩ :=
    expansion.exists_expanded_of_mem (Document.mem_fragments.1 hfragment)
  refine ⟨before, after, hrequests, ?_⟩
  rw [fragments_expand expansion h]
  exact List.mem_append_left _ (List.mem_filterMap.2 ⟨_, hmem, rfl⟩)

/-- The fragment names after expansion: those of the document, and the generated ones. -/
theorem fragmentNames_expand {document : Document} (h : expansion.isMarked document = true) :
    (expansion.expand document).fragmentNames =
      document.fragmentNames ++
        (expansion.supplyAfter document).generated.map SuppliedFragment.name := by
  have hold := expansion.names_expandDefinitions (expansion.supplyOf document) document.definitions
  unfold Document.fragmentNames
  rw [fragments_expand expansion h, List.map_append, List.map_map]
  exact congrArg (· ++ _) hold

/-- **Fragment names stay distinct**: none is given twice or to a fragment beside an authored one.
-/
theorem nodup_fragmentNames_expand {document : Document} (hnames : document.fragmentNames.Nodup) :
    (expansion.expand document).fragmentNames.Nodup := by
  cases h : expansion.isMarked document with
  | false => rw [expand_of_isMarked_eq_false expansion h]; exact hnames
  | true =>
    have hnamed := expansion.wellNamed_supplyAfter document
    rw [fragmentNames_expand expansion h, List.nodup_append]
    refine ⟨hnames, hnamed.generated_nodup, ?_⟩
    intro name hname other hother heq
    obtain ⟨fragment, hfragment, rfl⟩ := List.mem_map.1 hother
    rw [heq] at hname
    exact hnamed.generated_not_reserved fragment hfragment hname

end Expansion

end SelectionRecall
