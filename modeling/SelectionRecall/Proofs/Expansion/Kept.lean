import SelectionRecall.Proofs.Expansion.Unmarked

/-!
# What expansion keeps

Expansion as a relation that knows neither of schemas nor of usages: markers are gone from fields,
fields that had one may have gained spreads behind their own selections, and nothing else has
changed. Behind the definitions of the document stand the fragments that were generated.

* `Selection.IsAdded`: a spread, or an inline fragment that holds one.
* `Selection.Keeps`, `Selection.KeepsAll`, `Definition.Keeps`: the second one is the first one
  without its markers, and with spreads added behind the selections of marked fields.
* `Expansion.keepsAll_expandSelections`: expanded selections keep what was there.
* `Expansion.keeps_expand`: so does an expanded document, definition by definition.
-/

namespace SelectionRecall

/-! ## Kept selections -/

/-- A spread without directives, or an inline fragment on some type that holds just one. -/
inductive Selection.IsAdded : Selection → Prop
  | spread {name} : IsAdded (.spread name [])
  | inline {condition name} : IsAdded (.inline (some condition) [] [.spread name []])

section

variable (marker : String)

mutual

/-- The second selection is the first one without directives of this name on fields, where fields
that had one may have gained spreads. -/
inductive Selection.Keeps : Selection → Selection → Prop
  /-- A field with a marker loses it. What it gains stands behind its own selections. -/
  | marked {alias? name arguments directives selections kept added} :
    (∃ directive ∈ directives, directive.name = marker) →
    Selection.KeepsAll selections kept →
    (∀ selection ∈ added, Selection.IsAdded selection) →
    Selection.Keeps (.field alias? name arguments directives selections)
      (.field alias? name arguments
        (directives.filter fun directive => directive.name ≠ marker) (kept ++ added))
  /-- Any other field gains nothing. -/
  | unmarked {alias? name arguments directives selections kept} :
    (∀ directive ∈ directives, directive.name ≠ marker) →
    Selection.KeepsAll selections kept →
    Selection.Keeps (.field alias? name arguments directives selections)
      (.field alias? name arguments directives kept)
  | inline {condition? directives selections kept} :
    Selection.KeepsAll selections kept →
    Selection.Keeps (.inline condition? directives selections) (.inline condition? directives kept)
  | spread {name directives} :
    Selection.Keeps (.spread name directives) (.spread name directives)

/-- So it is with selections, one by one and in order. -/
inductive Selection.KeepsAll : List Selection → List Selection → Prop
  | nil : Selection.KeepsAll [] []
  | cons {selection kept rest others} :
    Selection.Keeps selection kept →
    Selection.KeepsAll rest others →
    Selection.KeepsAll (selection :: rest) (kept :: others)

end

/-- So it is with the selections of a definition, all else of which is the same. -/
inductive Definition.Keeps : Definition → Definition → Prop
  | operation {head? selections kept} :
    Selection.KeepsAll marker selections kept →
    Definition.Keeps (.operation ⟨head?, selections⟩) (.operation ⟨head?, kept⟩)
  | fragment {name condition directives selections kept} :
    Selection.KeepsAll marker selections kept →
    Definition.Keeps (.fragment ⟨name, condition, directives, selections⟩)
      (.fragment ⟨name, condition, directives, kept⟩)

end

namespace Expansion

variable (expansion : Expansion)

/-! ## Expansion keeps them -/

/-- What fills a marker on an abstract type is one inline fragment with a spread for each implementer
that is served. -/
theorem isAdded_fillAbstract (abstractName : String) (implementers : List String)
    (supply : FragmentSupply) :
    ∀ selection ∈ (expansion.fillAbstract abstractName implementers supply).1,
      selection.IsAdded := by
  induction implementers generalizing supply with
  | nil => simp [fillAbstract]
  | cons implementer rest ih =>
    unfold fillAbstract
    split
    · exact ih supply
    · exact List.forall_mem_cons.2 ⟨.inline, ih _⟩

/-- What is added to a field are spreads. -/
theorem isAdded_fillField (directives : List Directive) (type? : Option String)
    (supply : FragmentSupply) :
    ∀ selection ∈ (expansion.fillField directives type? supply).1, selection.IsAdded := by
  unfold fillField
  split
  · split
    · unfold fill
      split
      · exact expansion.isAdded_fillAbstract _ _ supply
      · split
        · simp
        · exact List.forall_mem_singleton.2 .spread
    · simp
  · simp

/-- The markers among directives are those of the marker's name. -/
theorem any_isMarker_iff (directives : List Directive) :
    directives.any expansion.isMarker = true ↔
      ∃ directive ∈ directives, directive.name = expansion.options.directive := by
  simp only [List.any_eq_true, isMarker, decide_eq_true_eq]

mutual

/-- An expanded selection keeps what was there. -/
theorem keeps_expandSelection (parent? : Option String) (supply : FragmentSupply)
    (selection : Selection) :
    selection.Keeps expansion.options.directive
      (expansion.expandSelection parent? supply selection).1 := by
  cases selection with
  | field alias? name arguments directives selections =>
    rw [expandSelection]
    dsimp only
    have hkept := keepsAll_expandSelections
      (parent?.bind fun parent => expansion.schema.fieldType? parent name) supply selections
    cases hmarked : directives.any expansion.isMarker with
    | true =>
      have hfilter : (directives.filter fun directive => !expansion.isMarker directive) =
          directives.filter fun directive => directive.name ≠ expansion.options.directive := by
        simp only [isMarker, decide_not]
      rw [hfilter]
      exact .marked ((expansion.any_isMarker_iff directives).1 hmarked) hkept
        (expansion.isAdded_fillField directives _ _)
    | false =>
      have hnone : ∀ directive ∈ directives, directive.name ≠ expansion.options.directive := by
        intro directive hdirective hname
        have htrue := (expansion.any_isMarker_iff directives).2 ⟨directive, hdirective, hname⟩
        rw [hmarked] at htrue
        exact Bool.false_ne_true htrue
      rw [expansion.fillField_of_any_eq_false hmarked,
        expansion.filter_isMarker_of_any_eq_false hmarked, List.append_nil]
      exact .unmarked hnone hkept
  | inline condition? directives selections =>
    rw [expandSelection]
    exact .inline (keepsAll_expandSelections _ supply selections)
  | spread name directives => exact .spread

/-- **Expanded selections keep what was there.** -/
theorem keepsAll_expandSelections (parent? : Option String) (supply : FragmentSupply)
    (selections : List Selection) :
    Selection.KeepsAll expansion.options.directive selections
      (expansion.expandSelections parent? supply selections).1 := by
  cases selections with
  | nil => exact .nil
  | cons selection rest =>
    rw [expandSelections]
    exact .cons (keeps_expandSelection parent? supply selection)
      (keepsAll_expandSelections parent? _ rest)

end

/-- An expanded definition keeps what was there, and is the same if no marker was. -/
theorem keeps_expandDefinition (supply : FragmentSupply) (definition : Definition) :
    definition.Keeps expansion.options.directive
        (expansion.expandDefinition supply definition).1 ∧
      (expansion.anyMarks definition.selections = false →
        (expansion.expandDefinition supply definition).1 = definition) := by
  constructor
  · cases definition with
    | operation operation =>
      exact .operation (expansion.keepsAll_expandSelections _ supply operation.selections)
    | fragment fragment =>
      exact .fragment (expansion.keepsAll_expandSelections _ supply fragment.selections)
  · intro hunmarked
    rw [expansion.expandDefinition_of_anyMarks_eq_false hunmarked]

/-- So do expanded definitions, one by one and in order. -/
theorem forall₂_keeps_expandDefinitions (supply : FragmentSupply) (definitions : List Definition) :
    List.Forall₂
      (fun definition kept => definition.Keeps expansion.options.directive kept ∧
        (expansion.anyMarks definition.selections = false → kept = definition))
      definitions (expansion.expandDefinitions supply definitions).1 := by
  induction definitions generalizing supply with
  | nil => exact .nil
  | cons definition rest ih =>
    rw [expandDefinitions]
    exact .cons (expansion.keeps_expandDefinition supply definition) (ih _)

/-- The expanded document begins with the expanded definitions, whether it has a marker or not. -/
theorem take_expand_eq (document : Document) :
    (expansion.expand document).definitions.take document.definitions.length =
      expansion.expandedDefinitions document := by
  cases h : expansion.isMarked document with
  | true => exact take_expand expansion h
  | false =>
    rw [expand_of_isMarked_eq_false expansion h, List.take_length]
    unfold expandedDefinitions
    rw [expansion.expandDefinitions_of_unmarked ((expansion.isMarked_eq_false_iff document).1 h)]

/-- **Expansion keeps what was there.** The definitions of an expanded document begin with those of
the document, one by one and in order, each without its markers, with spreads added behind the
selections of fields that had one, and otherwise the same, so that a definition without a marker
comes out as it went in. Each of the others is a fragment that selects a known usage of its type,
under a name that the document does not have. -/
theorem keeps_expand (document : Document) :
    List.Forall₂
        (fun definition kept => definition.Keeps expansion.options.directive kept ∧
          (expansion.anyMarks definition.selections = false → kept = definition))
        document.definitions
        ((expansion.expand document).definitions.take document.definitions.length) ∧
      ∀ added ∈ (expansion.expand document).definitions.drop document.definitions.length,
        ∃ name typeName usage, added = .fragment (usage.toFragment name typeName) ∧
          expansion.Knows typeName usage ∧ name ∉ document.fragmentNames := by
  constructor
  · rw [take_expand_eq]
    exact expansion.forall₂_keeps_expandDefinitions _ document.definitions
  · intro added hadded
    exact expansion.exists_of_mem_drop_expand hadded

end Expansion

end SelectionRecall
