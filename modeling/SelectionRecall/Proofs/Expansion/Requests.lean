import SelectionRecall.Expansion.Marker
import SelectionRecall.Proofs.Document.Nodes
import SelectionRecall.Proofs.Expansion.Supply

/-!
# Expansion as a run of requests

Which requests the markers of a document make does not depend on the supply, only the names that
answer them do. So expansion is the run of a list of requests that is known beforehand.

* `Expansion.requestsIn`, `Expansion.definitionRequests`, `Expansion.requests`: the requests of the
  markers in selections, in a definition and in a document, in the order in which they are made.
* `Expansion.expandSelections_snd`, `Expansion.expandDefinitions_snd`: the supply after expansion.
* `Expansion.mem_spreadsOf_expandSelections`: what is spread after expansion.
* `Expansion.expandDefinitions_getElem?`: the part of one definition in the run.
-/

namespace SelectionRecall

/-- The type that the selections of a definition are read in. -/
def Schema.typeOf? (schema : Schema) : Definition → Option String
  | .operation operation => schema.root? operation.type
  | .fragment fragment => some fragment.condition

namespace Expansion

open Selection

variable (expansion : Expansion)

/-! ## The requests -/

/-- The requests of a marker on a field of this type. -/
def requestsFor (typeName : String) : List (String × Usage) :=
  if expansion.schema.isAbstract typeName then
    (expansion.schema.implementers typeName).filterMap (expansion.requestFor? typeName)
  else
    match expansion.table.getNonEmpty? typeName with
    | none => []
    | some usage => [(typeName, usage)]

/-- The requests of the markers among the directives of a field. -/
def fieldRequests (directives : List Directive) : Option String → List (String × Usage)
  | some typeName =>
    if directives.any expansion.isMarker then expansion.requestsFor typeName else []
  | none => []

mutual

/-- The requests of the markers in a selection, those beneath a field before its own. -/
def requestsOf (parent? : Option String) : Selection → List (String × Usage)
  | .field _ name _ directives selections =>
    let type? := parent?.bind fun parent => expansion.schema.fieldType? parent name
    requestsIn type? selections ++ expansion.fieldRequests directives type?
  | .inline condition? _ selections => requestsIn (condition?.or parent?) selections
  | .spread _ _ => []

/-- The requests of the markers in selections. -/
def requestsIn (parent? : Option String) : List Selection → List (String × Usage)
  | [] => []
  | selection :: rest => requestsOf parent? selection ++ requestsIn parent? rest

end

/-- The requests of the markers in a definition. -/
def definitionRequests (definition : Definition) : List (String × Usage) :=
  expansion.requestsIn (expansion.schema.typeOf? definition) definition.selections

/-- The requests of the markers in a document. -/
def requests (document : Document) : List (String × Usage) :=
  document.definitions.flatMap expansion.definitionRequests

/-! ## Expansion makes them -/

/-- Filling a marker on an abstract type makes the requests of its implementers, and spreads what
answers them. -/
theorem fillAbstract_eq (abstractName : String) (implementers : List String)
    (supply : FragmentSupply) :
    (expansion.fillAbstract abstractName implementers supply).2 =
        (supply.requestAll (implementers.filterMap (expansion.requestFor? abstractName))).2 ∧
      spreadsOf (expansion.fillAbstract abstractName implementers supply).1 =
        (supply.requestAll (implementers.filterMap (expansion.requestFor? abstractName))).1 := by
  induction implementers generalizing supply with
  | nil => exact ⟨rfl, rfl⟩
  | cons implementer rest ih =>
    unfold fillAbstract
    cases hrequest : expansion.requestFor? abstractName implementer with
    | none => rw [List.filterMap_cons_none hrequest]; exact ih supply
    | some request =>
      obtain ⟨typeName, usage⟩ := request
      rw [List.filterMap_cons_some hrequest]
      -- the others are filled with the supply that this request leaves
      obtain ⟨hsupply, hspreads⟩ := ih (supply.request typeName usage).2
      refine ⟨hsupply, ?_⟩
      rw [spreadsOf_cons, spreadsOf_inline, spreadsOf_spread, hspreads]
      rfl

/-- Filling a marker makes its requests, and spreads what answers them. -/
theorem fill_eq (typeName : String) (supply : FragmentSupply) :
    (expansion.fill typeName supply).2 =
        (supply.requestAll (expansion.requestsFor typeName)).2 ∧
      spreadsOf (expansion.fill typeName supply).1 =
        (supply.requestAll (expansion.requestsFor typeName)).1 := by
  unfold fill requestsFor
  split
  · exact expansion.fillAbstract_eq typeName _ supply
  · cases expansion.table.getNonEmpty? typeName with
    | none => exact ⟨rfl, rfl⟩
    | some usage => exact ⟨rfl, spreadsOf_spread _ _⟩

/-- What is added to a field makes the requests of its markers, and spreads what answers them. -/
theorem fillField_eq (directives : List Directive) (type? : Option String)
    (supply : FragmentSupply) :
    (expansion.fillField directives type? supply).2 =
        (supply.requestAll (expansion.fieldRequests directives type?)).2 ∧
      spreadsOf (expansion.fillField directives type? supply).1 =
        (supply.requestAll (expansion.fieldRequests directives type?)).1 := by
  unfold fillField fieldRequests
  cases type? with
  | none => exact ⟨rfl, rfl⟩
  | some typeName =>
    by_cases hmarked : directives.any expansion.isMarker = true
    · simp only [hmarked, if_true]; exact expansion.fill_eq typeName supply
    · simp only [hmarked]; exact ⟨rfl, rfl⟩

mutual

/-- Expanding a selection makes the requests of its markers. -/
theorem expandSelection_snd (parent? : Option String) (supply : FragmentSupply)
    (selection : Selection) :
    (expansion.expandSelection parent? supply selection).2 =
      (supply.requestAll (expansion.requestsOf parent? selection)).2 := by
  cases selection with
  | field alias? name arguments directives selections =>
    -- the selections beneath a field come first, then its own markers
    rw [expandSelection, requestsOf, FragmentSupply.requestAll_append]
    rw [(expansion.fillField_eq directives _ _).1, expandSelections_snd]
  | inline condition? directives selections =>
    rw [expandSelection, requestsOf]; exact expandSelections_snd _ supply selections
  | spread fragment directives => rfl

/-- **The supply after expansion** is the one after the requests of the markers. -/
theorem expandSelections_snd (parent? : Option String) (supply : FragmentSupply)
    (selections : List Selection) :
    (expansion.expandSelections parent? supply selections).2 =
      (supply.requestAll (expansion.requestsIn parent? selections)).2 := by
  cases selections with
  | nil => rfl
  | cons selection rest =>
    rw [expandSelections, requestsIn, FragmentSupply.requestAll_append]
    rw [expandSelections_snd, expandSelection_snd]

end

mutual

/-- What a selection spreads after expansion: what it spread before, and what answers its markers.
-/
theorem mem_spreadsOf_expandSelection (parent? : Option String) (supply : FragmentSupply)
    (selection : Selection) (name : String) :
    name ∈ spreadsOf [(expansion.expandSelection parent? supply selection).1] ↔
      name ∈ spreadsOf [selection] ∨
        name ∈ (supply.requestAll (expansion.requestsOf parent? selection)).1 := by
  cases selection with
  | field alias? fieldName arguments directives selections =>
    rw [expandSelection, requestsOf, FragmentSupply.requestAll_append]
    simp only [spreadsOf_field, spreadsOf_append, List.mem_append]
    rw [mem_spreadsOf_expandSelections, (expansion.fillField_eq directives _ _).2,
      expandSelections_snd, or_assoc]
  | inline condition? directives selections =>
    rw [expandSelection, requestsOf]
    simp only [spreadsOf_inline]
    exact mem_spreadsOf_expandSelections _ supply selections name
  | spread fragment directives => simp [expandSelection, requestsOf, FragmentSupply.requestAll]

/-- **What is spread after expansion**: what was spread before, and what answers the markers. -/
theorem mem_spreadsOf_expandSelections (parent? : Option String) (supply : FragmentSupply)
    (selections : List Selection) (name : String) :
    name ∈ spreadsOf (expansion.expandSelections parent? supply selections).1 ↔
      name ∈ spreadsOf selections ∨
        name ∈ (supply.requestAll (expansion.requestsIn parent? selections)).1 := by
  cases selections with
  | nil => simp [expandSelections, requestsIn, FragmentSupply.requestAll]
  | cons selection rest =>
    rw [expandSelections, requestsIn, FragmentSupply.requestAll_append, spreadsOf_cons,
      spreadsOf_cons selection rest, ← expandSelection_snd]
    simp only [List.mem_append]
    rw [mem_spreadsOf_expandSelection, mem_spreadsOf_expandSelections]
    tauto

end

/-- Expanding a definition makes its requests. -/
theorem expandDefinition_snd (supply : FragmentSupply) (definition : Definition) :
    (expansion.expandDefinition supply definition).2 =
      (supply.requestAll (expansion.definitionRequests definition)).2 := by
  cases definition with
  | operation operation => exact expansion.expandSelections_snd _ supply operation.selections
  | fragment fragment => exact expansion.expandSelections_snd _ supply fragment.selections

/-- The selections of an expanded definition. -/
theorem selections_expandDefinition (supply : FragmentSupply) (definition : Definition) :
    (expansion.expandDefinition supply definition).1.selections =
      (expansion.expandSelections (expansion.schema.typeOf? definition) supply
        definition.selections).1 := by
  cases definition with
  | operation operation => rfl
  | fragment fragment => rfl

/-- Expanding definitions makes the requests of all of them. -/
theorem expandDefinitions_snd (supply : FragmentSupply) (definitions : List Definition) :
    (expansion.expandDefinitions supply definitions).2 =
      (supply.requestAll (definitions.flatMap expansion.definitionRequests)).2 := by
  induction definitions generalizing supply with
  | nil => rfl
  | cons definition rest ih =>
    rw [expandDefinitions, List.flatMap_cons, FragmentSupply.requestAll_append, ih,
      expandDefinition_snd]

@[simp]
theorem length_expandDefinitions (supply : FragmentSupply) (definitions : List Definition) :
    (expansion.expandDefinitions supply definitions).1.length = definitions.length := by
  induction definitions generalizing supply with
  | nil => rfl
  | cons definition rest ih => rw [expandDefinitions, List.length_cons, ih, List.length_cons]

/-- The definition at an index is expanded with the supply that the requests before it leave. -/
theorem expandDefinitions_getElem? (supply : FragmentSupply) {definitions : List Definition}
    {index : ℕ} {definition : Definition} (h : definitions[index]? = some definition) :
    ∃ before after,
      definitions.flatMap expansion.definitionRequests =
        before ++ expansion.definitionRequests definition ++ after ∧
      (expansion.expandDefinitions supply definitions).1[index]? =
        some (expansion.expandDefinition (supply.requestAll before).2 definition).1 := by
  induction definitions generalizing supply index with
  | nil => simp at h
  | cons head rest ih =>
    rw [List.flatMap_cons, expandDefinitions]
    cases index with
    | zero =>
      rw [List.getElem?_cons_zero, Option.some.injEq] at h
      subst h
      exact ⟨[], rest.flatMap expansion.definitionRequests, rfl, rfl⟩
    | succ index =>
      rw [List.getElem?_cons_succ] at h
      obtain ⟨before, after, hrequests, hget⟩ := ih (expansion.expandDefinition supply head).2 h
      refine ⟨expansion.definitionRequests head ++ before, after, ?_, ?_⟩
      · rw [hrequests]; simp only [List.append_assoc]
      · rw [List.getElem?_cons_succ, hget, expandDefinition_snd, FragmentSupply.requestAll_append]

/-- What expanded definitions spread: what they spread before, and what answers their markers. -/
theorem mem_spreadsOf_expandDefinitions (supply : FragmentSupply) (definitions : List Definition)
    (name : String) :
    (∃ expanded ∈ (expansion.expandDefinitions supply definitions).1,
        name ∈ spreadsOf expanded.selections) ↔
      (∃ definition ∈ definitions, name ∈ spreadsOf definition.selections) ∨
        name ∈ (supply.requestAll (definitions.flatMap expansion.definitionRequests)).1 := by
  induction definitions generalizing supply with
  | nil => simp [expandDefinitions, FragmentSupply.requestAll]
  | cons definition rest ih =>
    rw [expandDefinitions, List.flatMap_cons, FragmentSupply.requestAll_append]
    simp only [List.exists_mem_cons_iff, List.mem_append]
    rw [ih, selections_expandDefinition, mem_spreadsOf_expandSelections, expandDefinition_snd]
    exact or_or_or_comm

end Expansion

end SelectionRecall
