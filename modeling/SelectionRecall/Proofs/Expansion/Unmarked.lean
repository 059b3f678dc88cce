import SelectionRecall.Proofs.Expansion.Outcome

/-!
# No marker is left

Whether a document is marked is decided by a walk of its own, which agrees with what stands on its
fields. After expansion no field is marked, neither of the definitions that were there before nor of
the fragments that were added, and expanding once more changes nothing.

* `Expansion.anyMarks_iff`, `Expansion.isMarked_iff`: a document is marked if a field of it is.
* `Expansion.anyMarks_expandSelections`: expanded selections are unmarked.
* `Expansion.expandSelections_of_anyMarks_eq_false`: unmarked selections stay as they are.
* `Expansion.isMarked_expand`, `Expansion.unmarked_and_expand_expand`: no marker is left.
-/

namespace SelectionRecall

namespace Expansion

open Selection

variable (expansion : Expansion)

/-! ## What a marked document is -/

mutual

/-- A selection is marked if a field in it is. -/
theorem marks_iff (selection : Selection) :
    expansion.marks selection = true ↔
      ∃ node ∈ selection.nodes, ∃ directive ∈ node.fieldDirectives,
        directive.name = expansion.options.directive := by
  cases selection with
  | field alias? name arguments directives selections =>
    rw [marks, Bool.or_eq_true, anyMarks_iff, nodes, List.exists_mem_cons_iff]
    simp only [List.any_eq_true, isMarker, decide_eq_true_eq, fieldDirectives]
  | inline condition? directives selections =>
    rw [marks, anyMarks_iff, nodes, List.exists_mem_cons_iff]
    simp only [fieldDirectives, List.not_mem_nil, false_and, exists_false, false_or]
  | spread fragment directives => simp [marks, nodes, fieldDirectives]

/-- **Selections are marked** if a field in them is. -/
theorem anyMarks_iff (selections : List Selection) :
    expansion.anyMarks selections = true ↔
      ∃ node ∈ nodesOf selections, ∃ directive ∈ node.fieldDirectives,
        directive.name = expansion.options.directive := by
  cases selections with
  | nil => simp [anyMarks, nodesOf]
  | cons selection rest =>
    rw [anyMarks, Bool.or_eq_true, marks_iff, anyMarks_iff, nodesOf]
    simp only [List.mem_append, or_and_right, exists_or]

end

/-- **A document is marked** if a field of one of its definitions is. -/
theorem isMarked_iff (document : Document) :
    expansion.isMarked document = true ↔
      ∃ definition ∈ document.definitions, ∃ node ∈ nodesOf definition.selections,
        ∃ directive ∈ node.fieldDirectives, directive.name = expansion.options.directive := by
  unfold isMarked
  simp only [List.any_eq_true, anyMarks_iff]

/-- A document is unmarked if the selections of all its definitions are. -/
theorem isMarked_eq_false_iff (document : Document) :
    expansion.isMarked document = false ↔
      ∀ definition ∈ document.definitions, expansion.anyMarks definition.selections = false := by
  unfold isMarked
  simp only [List.any_eq_false, Bool.not_eq_true]

theorem anyMarks_append (first second : List Selection) :
    expansion.anyMarks (first ++ second) =
      (expansion.anyMarks first || expansion.anyMarks second) := by
  induction first with
  | nil => rfl
  | cons selection rest ih => rw [List.cons_append, anyMarks, anyMarks, ih, Bool.or_assoc]

/-! ## Expanded selections -/

/-- What fills a marker on an abstract type is unmarked. -/
theorem anyMarks_fillAbstract (abstractName : String) (implementers : List String)
    (supply : FragmentSupply) :
    expansion.anyMarks (expansion.fillAbstract abstractName implementers supply).1 = false := by
  induction implementers generalizing supply with
  | nil => rfl
  | cons implementer rest ih =>
    unfold fillAbstract
    split
    · exact ih supply
    · rw [anyMarks, ih]; rfl

/-- What is added to a field is unmarked. -/
theorem anyMarks_fillField (directives : List Directive) (type? : Option String)
    (supply : FragmentSupply) :
    expansion.anyMarks (expansion.fillField directives type? supply).1 = false := by
  unfold fillField
  split
  · split
    · unfold fill
      split
      · exact expansion.anyMarks_fillAbstract _ _ supply
      · split <;> rfl
    · rfl
  · rfl

/-- The directives that stay on a field are no markers. -/
theorem any_isMarker_filter (directives : List Directive) :
    (directives.filter fun directive => !expansion.isMarker directive).any expansion.isMarker =
      false := by
  rw [List.any_eq_false]
  intro directive hdirective
  have hkept := (List.mem_filter.1 hdirective).2
  rw [Bool.not_eq_true'] at hkept
  rw [hkept]; exact Bool.false_ne_true

mutual

/-- An expanded selection is unmarked. -/
theorem marks_expandSelection (parent? : Option String) (supply : FragmentSupply)
    (selection : Selection) :
    expansion.marks (expansion.expandSelection parent? supply selection).1 = false := by
  cases selection with
  | field alias? name arguments directives selections =>
    rw [expandSelection, marks, any_isMarker_filter, anyMarks_append, anyMarks_expandSelections,
      anyMarks_fillField]
    rfl
  | inline condition? directives selections =>
    rw [expandSelection, marks, anyMarks_expandSelections]
  | spread fragment directives => rfl

/-- **Expanded selections are unmarked.** -/
theorem anyMarks_expandSelections (parent? : Option String) (supply : FragmentSupply)
    (selections : List Selection) :
    expansion.anyMarks (expansion.expandSelections parent? supply selections).1 = false := by
  cases selections with
  | nil => rfl
  | cons selection rest =>
    rw [expandSelections, anyMarks, marks_expandSelection, anyMarks_expandSelections]; rfl

end

/-- The selections of a usage are unmarked. -/
theorem anyMarks_toSelections (usage : Usage) :
    expansion.anyMarks usage.toSelections = false := by
  rw [Bool.eq_false_iff, ne_eq, anyMarks_iff]
  rintro ⟨node, hnode, directive, hdirective, -⟩
  have hplain := usage.isPlain_of_mem_toSelections node hnode
  cases node with
  | field alias? name arguments directives selections =>
    have hnone : directives = [] := hplain
    rw [fieldDirectives, hnone] at hdirective
    simp at hdirective
  | inline condition? directives selections => simp [fieldDirectives] at hdirective
  | spread fragment directives => exact hplain

/-! ## Unmarked selections -/

/-- A field without a marker keeps its directives. -/
theorem filter_isMarker_of_any_eq_false {directives : List Directive}
    (h : directives.any expansion.isMarker = false) :
    (directives.filter fun directive => !expansion.isMarker directive) = directives := by
  rw [List.filter_eq_self]
  intro directive hdirective
  have hplain := List.any_eq_false.1 h directive hdirective
  rw [Bool.not_eq_true] at hplain
  rw [hplain]; rfl

/-- A field without a marker is given nothing. -/
theorem fillField_of_any_eq_false {directives : List Directive}
    (h : directives.any expansion.isMarker = false) (type? : Option String)
    (supply : FragmentSupply) : expansion.fillField directives type? supply = ([], supply) := by
  unfold fillField
  rw [h]
  cases type? with
  | none => rfl
  | some typeName => rfl

mutual

/-- An unmarked selection stays as it is. -/
theorem expandSelection_of_marks_eq_false {selection : Selection}
    (h : expansion.marks selection = false) (parent? : Option String) (supply : FragmentSupply) :
    expansion.expandSelection parent? supply selection = (selection, supply) := by
  cases selection with
  | field alias? name arguments directives selections =>
    rw [marks, Bool.or_eq_false_iff] at h
    rw [expandSelection, expandSelections_of_anyMarks_eq_false h.2,
      expansion.fillField_of_any_eq_false h.1, expansion.filter_isMarker_of_any_eq_false h.1,
      List.append_nil]
  | inline condition? directives selections =>
    rw [marks] at h
    rw [expandSelection, expandSelections_of_anyMarks_eq_false h]
  | spread fragment directives => rfl

/-- **Unmarked selections stay as they are.** -/
theorem expandSelections_of_anyMarks_eq_false {selections : List Selection}
    (h : expansion.anyMarks selections = false) (parent? : Option String)
    (supply : FragmentSupply) :
    expansion.expandSelections parent? supply selections = (selections, supply) := by
  cases selections with
  | nil => rfl
  | cons selection rest =>
    rw [anyMarks, Bool.or_eq_false_iff] at h
    rw [expandSelections, expandSelection_of_marks_eq_false h.1,
      expandSelections_of_anyMarks_eq_false h.2]

end

mutual

/-- An unmarked selection requests nothing. -/
theorem requestsOf_of_marks_eq_false {selection : Selection}
    (h : expansion.marks selection = false) (parent? : Option String) :
    expansion.requestsOf parent? selection = [] := by
  cases selection with
  | field alias? name arguments directives selections =>
    rw [marks, Bool.or_eq_false_iff] at h
    have hown : ∀ type? : Option String, expansion.fieldRequests directives type? = [] := by
      intro type?
      unfold fieldRequests
      cases type? with
      | none => rfl
      | some typeName => rw [h.1]; rfl
    rw [requestsOf, requestsIn_of_anyMarks_eq_false h.2, hown]; rfl
  | inline condition? directives selections =>
    rw [marks] at h
    rw [requestsOf]; exact requestsIn_of_anyMarks_eq_false h _
  | spread fragment directives => rfl

/-- Unmarked selections request nothing. -/
theorem requestsIn_of_anyMarks_eq_false {selections : List Selection}
    (h : expansion.anyMarks selections = false) (parent? : Option String) :
    expansion.requestsIn parent? selections = [] := by
  cases selections with
  | nil => rfl
  | cons selection rest =>
    rw [anyMarks, Bool.or_eq_false_iff] at h
    rw [requestsIn, requestsOf_of_marks_eq_false h.1, requestsIn_of_anyMarks_eq_false h.2]; rfl

end

/-! ## Expanded documents -/

/-- An unmarked definition stays as it is. -/
theorem expandDefinition_of_anyMarks_eq_false {definition : Definition}
    (h : expansion.anyMarks definition.selections = false) (supply : FragmentSupply) :
    expansion.expandDefinition supply definition = (definition, supply) := by
  have hkept : ∀ parent?, expansion.expandSelections parent? supply definition.selections =
      (definition.selections, supply) :=
    fun parent? => expansion.expandSelections_of_anyMarks_eq_false h parent? supply
  cases definition with
  | operation operation =>
    simp only [expandDefinition, Definition.selections] at hkept ⊢
    rw [hkept]
  | fragment fragment =>
    simp only [expandDefinition, Definition.selections] at hkept ⊢
    rw [hkept]

/-- Unmarked definitions stay as they are. -/
theorem expandDefinitions_of_unmarked {definitions : List Definition}
    (h : ∀ definition ∈ definitions, expansion.anyMarks definition.selections = false)
    (supply : FragmentSupply) :
    expansion.expandDefinitions supply definitions = (definitions, supply) := by
  induction definitions with
  | nil => rfl
  | cons definition rest ih =>
    obtain ⟨hfirst, hrest⟩ := List.forall_mem_cons.1 h
    rw [expandDefinitions, expansion.expandDefinition_of_anyMarks_eq_false hfirst, ih hrest]

/-- An unmarked document requests nothing. -/
theorem requests_of_isMarked_eq_false {document : Document}
    (h : expansion.isMarked document = false) : expansion.requests document = [] := by
  unfold requests
  rw [List.flatMap_eq_nil_iff]
  intro definition hdefinition
  exact expansion.requestsIn_of_anyMarks_eq_false
    ((expansion.isMarked_eq_false_iff document).1 h definition hdefinition) _

/-- Expanded definitions are unmarked. -/
theorem anyMarks_expandDefinitions (supply : FragmentSupply) (definitions : List Definition) :
    ∀ expanded ∈ (expansion.expandDefinitions supply definitions).1,
      expansion.anyMarks expanded.selections = false := by
  induction definitions generalizing supply with
  | nil => simp [expandDefinitions]
  | cons definition rest ih =>
    intro expanded hexpanded
    rw [expandDefinitions] at hexpanded
    rcases List.mem_cons.1 hexpanded with rfl | hrest
    · rw [selections_expandDefinition]; exact expansion.anyMarks_expandSelections _ _ _
    · exact ih _ expanded hrest

/-- An expanded document is unmarked. -/
theorem isMarked_expand (document : Document) :
    expansion.isMarked (expansion.expand document) = false := by
  cases h : expansion.isMarked document with
  | false => rw [expand_of_isMarked_eq_false expansion h]; exact h
  | true =>
    rw [isMarked_eq_false_iff, expand_eq expansion h]
    intro definition hdefinition
    rcases List.mem_append.1 hdefinition with hold | hnew
    · exact expansion.anyMarks_expandDefinitions _ _ definition hold
    · obtain ⟨fragment, -, rfl⟩ := List.mem_map.1 hnew
      exact expansion.anyMarks_toSelections fragment.usage

/-- **No marker is left**: an expanded document is not marked, no directive of a field anywhere in
its definitions is a marker, and expanding it again leaves it as it is. -/
theorem unmarked_and_expand_expand (document : Document) :
    expansion.isMarked (expansion.expand document) = false ∧
      (∀ definition ∈ (expansion.expand document).definitions,
        ∀ node ∈ nodesOf definition.selections, ∀ directive ∈ node.fieldDirectives,
          directive.name ≠ expansion.options.directive) ∧
      expansion.expand (expansion.expand document) = expansion.expand document := by
  have hunmarked := expansion.isMarked_expand document
  refine ⟨hunmarked, ?_, expand_of_isMarked_eq_false expansion hunmarked⟩
  intro definition hdefinition node hnode directive hdirective hname
  rw [Bool.eq_false_iff, ne_eq, isMarked_iff] at hunmarked
  exact hunmarked ⟨definition, hdefinition, node, hnode, directive, hdirective, hname⟩

end Expansion

end SelectionRecall
