import Mathlib.Data.List.Forall2
import SelectionRecall.Proofs.Document.Nodes

/-!
# Documents without spreads

Selections are unfolded from the outside to the inside: a spread becomes an inline fragment on the type
of its fragment, with the selections of that unfolded in turn, and a spread that is undefined or lies in
its own fragment is left out. A field that had selections may lose all of them in this way. As a field
without selections is a leaf, it is not the same field any more, and it is left out too; unfolding may
also keep it, which is what leaving out spreads alone does.

The recursion does not follow the syntax, since a spread leads to another part of the document. But the
fragments around it are distinct, so that it can enter a fragment only as long as one is left.

* `Document.Inside`: fragments that are entered inside each other, and how many can be entered still.
* `Document.unfolding_induction`: what unfolding keeps holds of all selections.
* `Document.Unfolds`: what stays of selections.
* `Document.exists_unfolds`, `Document.Unfolds.unique`: each selection set has one unfolding.
* `Document.Unfolds.spreadsOf_eq_nil`: no spread is left.
* `Document.UnfoldsTo`: the document without fragments and spreads.
-/

namespace SelectionRecall

/-- What holds of selections if it holds of all that is beneath the first one and of those behind it,
holds of all selections. -/
theorem Selection.list_induction {Holds : List Selection → Prop} (nil : Holds [])
    (field : ∀ alias? name arguments directives selections rest,
      Holds selections → Holds rest →
        Holds (.field alias? name arguments directives selections :: rest))
    (inline : ∀ condition? directives selections rest,
      Holds selections → Holds rest → Holds (.inline condition? directives selections :: rest))
    (spread : ∀ name directives rest, Holds rest → Holds (.spread name directives :: rest)) :
    ∀ selections, Holds selections
  | [] => nil
  | .field alias? name arguments directives selections :: rest =>
    field alias? name arguments directives selections rest
      (list_induction nil field inline spread selections)
      (list_induction nil field inline spread rest)
  | .inline condition? directives selections :: rest =>
    inline condition? directives selections rest
      (list_induction nil field inline spread selections)
      (list_induction nil field inline spread rest)
  | .spread name directives :: rest =>
    spread name directives rest (list_induction nil field inline spread rest)

namespace Document

/-! ## Fragments inside each other -/

/-- The fragments around a selection are distinct fragments of the document, and of the others no more
than `depth` are left. -/
structure Inside (document : Document) (depth : Nat) (around : List String) : Prop where
  nodup : around.Nodup
  defined : around ⊆ document.fragmentNames
  length_le : document.fragments.length ≤ depth + around.length

variable {document : Document}

theorem inside_nil (document : Document) : document.Inside document.fragments.length [] :=
  ⟨List.nodup_nil, List.nil_subset _, Nat.le_refl _⟩

/-- A fragment that is not entered yet can be entered. -/
theorem Inside.enter {depth : Nat} {around : List String} (h : document.Inside depth around)
    {name : String} {fragment : FragmentDefinition} (hfragment : document.fragment? name = some fragment)
    (hnew : name ∉ around) :
    ∃ rest, depth = rest + 1 ∧ document.Inside rest (name :: around) := by
  have hroom := length_lt_of_fragment? h.nodup h.defined hfragment hnew
  have hlength := h.length_le
  obtain ⟨rest, rfl⟩ : ∃ rest, depth = rest + 1 := ⟨depth - 1, by omega⟩
  obtain ⟨hmem, rfl⟩ := mem_of_fragment? hfragment
  refine ⟨rest, rfl, ?_, ?_, ?_⟩
  · exact List.nodup_cons.2 ⟨hnew, h.nodup⟩
  · exact List.cons_subset.2 ⟨List.mem_map_of_mem hmem, h.defined⟩
  · rw [List.length_cons]
    omega

/-- **What unfolding keeps holds of all selections**: if it holds of selections when it holds of all that
is beneath the first one, in its fragment and behind it. -/
theorem unfolding_induction {Holds : List String → List Selection → Prop}
    (nil : ∀ around, Holds around [])
    (field : ∀ around alias? name arguments directives selections rest,
      Holds around selections → Holds around rest →
        Holds around (.field alias? name arguments directives selections :: rest))
    (inline : ∀ around condition? directives selections rest,
      Holds around selections → Holds around rest →
        Holds around (.inline condition? directives selections :: rest))
    (undefined : ∀ around name directives rest, document.fragment? name = none →
      Holds around rest → Holds around (.spread name directives :: rest))
    (cyclic : ∀ around name directives rest, name ∈ around →
      Holds around rest → Holds around (.spread name directives :: rest))
    (spread : ∀ around name directives rest fragment, document.fragment? name = some fragment →
      name ∉ around → Holds (name :: around) fragment.selections → Holds around rest →
        Holds around (.spread name directives :: rest))
    {depth : Nat} {around : List String} (h : document.Inside depth around)
    (selections : List Selection) : Holds around selections := by
  -- the induction is on the fragments that are left, and on the syntax between two of them
  induction depth using Nat.strongRecOn generalizing around selections with
  | ind depth ih =>
    induction selections using Selection.list_induction with
    | nil => exact nil around
    | field alias? name arguments directives selections rest ihSelections ihRest =>
      exact field around alias? name arguments directives selections rest ihSelections ihRest
    | inline condition? directives selections rest ihSelections ihRest =>
      exact inline around condition? directives selections rest ihSelections ihRest
    | spread name directives rest ihRest =>
      cases hfragment : document.fragment? name with
      | none => exact undefined around name directives rest hfragment ihRest
      | some fragment =>
        by_cases hmem : name ∈ around
        · exact cyclic around name directives rest hmem ihRest
        · obtain ⟨left, rfl, hinside⟩ := h.enter hfragment hmem
          have hinner := ih left (Nat.lt_succ_self left) hinside fragment.selections
          exact spread around name directives rest fragment hfragment hmem hinner ihRest

/-! ## Unfolding -/

/-- What stays of selections that lie inside these fragments. A field that loses all its selections is
left out if `dropsEmptied`, and else it is kept. -/
inductive Unfolds (document : Document) (dropsEmptied : Bool) :
    List String → List Selection → List Selection → Prop
  | nil {around} : Unfolds document dropsEmptied around [] []
  | field {around alias? name arguments directives selections rest inner result} :
    Unfolds document dropsEmptied around selections inner →
    Unfolds document dropsEmptied around rest result →
    (dropsEmptied = true → inner = [] → selections = []) →
    Unfolds document dropsEmptied around (.field alias? name arguments directives selections :: rest)
      (.field alias? name arguments directives inner :: result)
  | emptied {around alias? name arguments directives selections rest result} :
    dropsEmptied = true → selections ≠ [] →
    Unfolds document dropsEmptied around selections [] →
    Unfolds document dropsEmptied around rest result →
    Unfolds document dropsEmptied around (.field alias? name arguments directives selections :: rest)
      result
  | inline {around condition? directives selections rest inner result} :
    Unfolds document dropsEmptied around selections inner →
    Unfolds document dropsEmptied around rest result →
    Unfolds document dropsEmptied around (.inline condition? directives selections :: rest)
      (.inline condition? directives inner :: result)
  | undefined {around name directives rest result} :
    document.fragment? name = none → Unfolds document dropsEmptied around rest result →
    Unfolds document dropsEmptied around (.spread name directives :: rest) result
  | cyclic {around name directives rest result} :
    name ∈ around → Unfolds document dropsEmptied around rest result →
    Unfolds document dropsEmptied around (.spread name directives :: rest) result
  | spread {around name directives rest fragment inner result} :
    document.fragment? name = some fragment → name ∉ around →
    Unfolds document dropsEmptied (name :: around) fragment.selections inner →
    Unfolds document dropsEmptied around rest result →
    Unfolds document dropsEmptied around (.spread name directives :: rest)
      (.inline (some fragment.condition) [] inner :: result)

variable {dropsEmptied : Bool}

/-- **Selections can be unfolded**, though fragments may lead back to themselves. -/
theorem exists_unfolds (dropsEmptied : Bool) {depth : Nat} {around : List String}
    (h : document.Inside depth around) (selections : List Selection) :
    ∃ result, document.Unfolds dropsEmptied around selections result := by
  refine @unfolding_induction document
    (fun around selections => ∃ result, document.Unfolds dropsEmptied around selections result)
    ?_ ?_ ?_ ?_ ?_ ?_ depth around h selections
  · exact fun around => ⟨[], .nil⟩
  · rintro around alias? name arguments directives selections rest ⟨inner, hinner⟩ ⟨result, hresult⟩
    -- a field goes if it is emptied, and stays if it had no selections in the first place
    by_cases hkept : dropsEmptied = true → inner = [] → selections = []
    · exact ⟨_, .field hinner hresult hkept⟩
    · push Not at hkept
      obtain ⟨hdrops, rfl, hne⟩ := hkept
      exact ⟨result, .emptied hdrops hne hinner hresult⟩
  · rintro around condition? directives selections rest ⟨inner, hinner⟩ ⟨result, hresult⟩
    exact ⟨_, .inline hinner hresult⟩
  · rintro around name directives rest hnone ⟨result, hresult⟩
    exact ⟨result, .undefined hnone hresult⟩
  · rintro around name directives rest hmem ⟨result, hresult⟩
    exact ⟨result, .cyclic hmem hresult⟩
  · rintro around name directives rest fragment hfragment hnew ⟨inner, hinner⟩ ⟨result, hresult⟩
    exact ⟨_, .spread hfragment hnew hinner hresult⟩

namespace Unfolds

variable {around : List String} {selections result : List Selection}

/-- **There is one unfolding** of selections. -/
theorem unique (h : document.Unfolds dropsEmptied around selections result) {other : List Selection}
    (hother : document.Unfolds dropsEmptied around selections other) : other = result := by
  induction h generalizing other with
  | nil => cases hother; rfl
  | field hinner hresult hkept ihInner ihResult =>
    cases hother with
    | field hinner' hresult' _ => rw [ihInner hinner', ihResult hresult']
    | emptied hdrops hne hinner' _ => exact absurd (hkept hdrops (ihInner hinner').symm) hne
  | emptied hdrops hne hinner hresult ihInner ihResult =>
    cases hother with
    | field hinner' _ hkept => exact absurd (hkept hdrops (ihInner hinner')) hne
    | emptied _ _ _ hresult' => exact ihResult hresult'
  | inline hinner hresult ihInner ihResult =>
    cases hother with
    | inline hinner' hresult' => rw [ihInner hinner', ihResult hresult']
  | undefined hnone hresult ihResult =>
    cases hother with
    | undefined _ hresult' => exact ihResult hresult'
    | cyclic _ hresult' => exact ihResult hresult'
    | spread hsome _ _ _ => rw [hnone] at hsome; cases hsome
  | cyclic hmem hresult ihResult =>
    cases hother with
    | undefined _ hresult' => exact ihResult hresult'
    | cyclic _ hresult' => exact ihResult hresult'
    | spread _ hnew _ _ => exact absurd hmem hnew
  | spread hsome hnew hinner hresult ihInner ihResult =>
    cases hother with
    | undefined hnone _ => rw [hsome] at hnone; cases hnone
    | cyclic hmem _ => exact absurd hmem hnew
    | spread hsome' _ hinner' hresult' =>
      rw [hsome, Option.some.injEq] at hsome'
      subst hsome'
      rw [ihInner hinner', ihResult hresult']

/-- **No spread is left** in what is unfolded. -/
theorem spreadsOf_eq_nil (h : document.Unfolds dropsEmptied around selections result) :
    Selection.spreadsOf result = [] := by
  induction h with
  | nil => rfl
  | field _ _ _ ihInner ihResult =>
    rw [Selection.spreadsOf_cons, Selection.spreadsOf_field, ihInner, ihResult]; rfl
  | emptied _ _ _ _ _ ihResult => exact ihResult
  | inline _ _ ihInner ihResult =>
    rw [Selection.spreadsOf_cons, Selection.spreadsOf_inline, ihInner, ihResult]; rfl
  | undefined _ _ ihResult => exact ihResult
  | cyclic _ _ ihResult => exact ihResult
  | spread _ _ _ _ ihInner ihResult =>
    rw [Selection.spreadsOf_cons, Selection.spreadsOf_inline, ihInner, ihResult]; rfl

end Unfolds

/-! ## Documents -/

/-- The other document has the operations of the document, each with its selections unfolded, and nothing
else. -/
def UnfoldsTo (document : Document) (dropsEmptied : Bool) (other : Document) : Prop :=
  ∃ operations, other = ⟨operations.map .operation⟩ ∧
    List.Forall₂ (fun before after : OperationDefinition => after.head? = before.head? ∧
      document.Unfolds dropsEmptied [] before.selections after.selections)
      document.operations operations

/-- **Each document can be unfolded**, in one way. -/
theorem existsUnique_unfoldsTo (document : Document) (dropsEmptied : Bool) :
    ∃! other, document.UnfoldsTo dropsEmptied other := by
  have hexists : ∀ operations : List OperationDefinition, ∃ others,
      List.Forall₂ (fun before after : OperationDefinition => after.head? = before.head? ∧
        document.Unfolds dropsEmptied [] before.selections after.selections) operations others := by
    intro operations
    induction operations with
    | nil => exact ⟨[], .nil⟩
    | cons operation rest ih =>
      obtain ⟨others, hothers⟩ := ih
      obtain ⟨result, hresult⟩ :=
        exists_unfolds dropsEmptied document.inside_nil operation.selections
      exact ⟨⟨operation.head?, result⟩ :: others, .cons ⟨rfl, hresult⟩ hothers⟩
  obtain ⟨operations, hoperations⟩ := hexists document.operations
  refine ⟨_, ⟨operations, rfl, hoperations⟩, ?_⟩
  rintro other ⟨others, rfl, hothers⟩
  have hunique : others = operations := by
    refine List.right_unique_forall₂' ?_ hothers hoperations
    rintro before ⟨head?, selections⟩ ⟨head?', selections'⟩ ⟨hhead, hselections⟩ ⟨hhead', hselections'⟩
    rw [OperationDefinition.mk.injEq]
    exact ⟨hhead.trans hhead'.symm, hselections'.unique hselections⟩
  rw [hunique]

theorem UnfoldsTo.fragments_eq_nil {other : Document} (h : document.UnfoldsTo dropsEmptied other) :
    other.fragments = [] := by
  obtain ⟨operations, rfl, -⟩ := h
  exact List.filterMap_eq_nil_iff.2 (List.forall_mem_map.2 fun _ _ => rfl)

theorem UnfoldsTo.operations {other : Document} (h : document.UnfoldsTo dropsEmptied other) :
    List.Forall₂ (fun before after : OperationDefinition => after.head? = before.head? ∧
      document.Unfolds dropsEmptied [] before.selections after.selections)
      document.operations other.operations := by
  obtain ⟨operations, rfl, hoperations⟩ := h
  have hsame : Document.operations ⟨operations.map .operation⟩ = operations := by
    unfold Document.operations
    rw [List.filterMap_map]
    exact List.filterMap_some
  rw [hsame]
  exact hoperations

/-- **No spread is left** in the document that a document unfolds to. -/
theorem UnfoldsTo.spreadsOf_eq_nil {other : Document} (h : document.UnfoldsTo dropsEmptied other) :
    ∀ definition ∈ other.definitions, Selection.spreadsOf definition.selections = [] := by
  obtain ⟨operations, rfl, hoperations⟩ := h
  refine List.forall_mem_map.2 ?_
  generalize document.operations = before at hoperations
  induction hoperations with
  | nil => simp
  | cons hfirst _ ih => exact List.forall_mem_cons.2 ⟨hfirst.2.spreadsOf_eq_nil, ih⟩

end Document

end SelectionRecall
