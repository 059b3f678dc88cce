import SelectionRecall.Proofs.Document.Nodes
import SelectionRecall.Schema.Basic

/-!
# Spreads in place

A fragment spread stands for what its fragment selects. Put in its place it is an inline fragment on the
type of the fragment, with the spreads in it put in place too. A spread of a fragment inside that
fragment stands for nothing, and neither does one of a fragment that is not defined.

* `Selection.replaceSpreads`: selections with something in place of each spread.
* `Document.inlineFragment`, `Document.inlined`: selections with all spreads in place.
* `Selection.standing`: the fragments in a selection, each with the type that it stands in.
* `Document.forall_standing_inlined`: what holds of the fragments in a document holds of those in its
  inlined selections.
-/

namespace SelectionRecall

namespace Selection

mutual

/-- The selection with something in place of each spread. -/
def replaceSpreads (replacement : String → Selection) : Selection → Selection
  | .field alias? name arguments directives selections =>
    .field alias? name arguments directives (replaceAllSpreads replacement selections)
  | .inline condition? directives selections =>
    .inline condition? directives (replaceAllSpreads replacement selections)
  | .spread name _ => replacement name

/-- The selections with something in place of each spread. -/
def replaceAllSpreads (replacement : String → Selection) : List Selection → List Selection
  | [] => []
  | selection :: rest => selection.replaceSpreads replacement :: replaceAllSpreads replacement rest

end

/-- An inline fragment that selects nothing. -/
def nothing : Selection := .inline none [] []

end Selection

namespace Document

/-- What a spread stands for, inside fragments that are put in place already. They are put in place
inside each other at most as often as there are fragments, so that `depth` need not exceed their
number. -/
def inlineFragment (document : Document) : (depth : Nat) → (around : List String) → String → Selection
  | 0, _, _ => .nothing
  | depth + 1, around, name =>
    match document.fragment? name with
    | none => .nothing
    | some fragment =>
      if name ∈ around then .nothing
      else
        .inline (some fragment.condition) []
          (Selection.replaceAllSpreads (document.inlineFragment depth (name :: around))
            fragment.selections)

/-- The selections with all spreads in place. -/
def inlined (document : Document) (selections : List Selection) : List Selection :=
  Selection.replaceAllSpreads (document.inlineFragment document.fragments.length []) selections

end Document

/-! ## Fragments and the types they stand in -/

namespace Selection

mutual

/-- The conditions of the fragments and spreads in the selection, each behind the type that it stands
in. -/
def standing (schema : Schema) (document : Document) (typeName : String) :
    Selection → List (String × String)
  | .field _ name _ _ selections =>
    match schema.fieldType? typeName name with
    | none => []
    | some returned => standingInAll schema document returned selections
  | .inline none _ selections => standingInAll schema document typeName selections
  | .inline (some condition) _ selections =>
    (typeName, condition) :: standingInAll schema document condition selections
  | .spread name _ =>
    match document.fragment? name with
    | none => []
    | some fragment => [(typeName, fragment.condition)]

/-- Those in selections. -/
def standingInAll (schema : Schema) (document : Document) (typeName : String) :
    List Selection → List (String × String)
  | [] => []
  | selection :: rest =>
    selection.standing schema document typeName ++ standingInAll schema document typeName rest

end

end Selection

namespace Selection

variable {schema : Schema} {document : Document} {typeName : String} {pair : String × String}

theorem mem_standingInAll {selections : List Selection} :
    pair ∈ standingInAll schema document typeName selections ↔
      ∃ selection ∈ selections, pair ∈ selection.standing schema document typeName := by
  induction selections with
  | nil => simp [standingInAll]
  | cons selection rest ih => simp [standingInAll, ih]

/-- What stands beneath a field stands in it. -/
theorem mem_standing_field {alias? : Option String} {name returned : String} {arguments : Arguments}
    {directives : List Directive} {selections : List Selection} {selection : Selection}
    (hreturned : schema.fieldType? typeName name = some returned) (hmem : selection ∈ selections)
    (h : pair ∈ selection.standing schema document returned) :
    pair ∈ (field alias? name arguments directives selections).standing schema document typeName := by
  rw [standing, hreturned]
  exact mem_standingInAll.2 ⟨selection, hmem, h⟩

/-- What stands in a fragment stands in the selection of it. -/
theorem mem_standing_inline {condition? : Option String} {directives : List Directive}
    {selections : List Selection} {selection : Selection} (hmem : selection ∈ selections)
    (h : pair ∈ selection.standing schema document (condition?.getD typeName)) :
    pair ∈ (inline condition? directives selections).standing schema document typeName := by
  have hinner := mem_standingInAll.2 ⟨selection, hmem, h⟩
  cases condition? with
  | none => rw [standing]; exact hinner
  | some condition => rw [standing]; exact List.mem_cons_of_mem _ hinner

end Selection

/-- Those in an operation, from its root type on, or in a fragment. -/
def Definition.standing (schema : Schema) (document : Document) : Definition → List (String × String)
  | .operation definition =>
    match schema.root? definition.type with
    | none => []
    | some root => Selection.standingInAll schema document root definition.selections
  | .fragment definition =>
    Selection.standingInAll schema document definition.condition definition.selections

variable {schema : Schema} {document : Document} {Holds : String × String → Prop}

namespace Selection

mutual

/-- What holds of the fragments in a selection holds of them when spreads are replaced, if it holds of
those in the replacements. -/
theorem forall_standing_replaceSpreads {replacement : String → Selection}
    (hspread : ∀ typeName name, (∀ pair ∈ (spread name []).standing schema document typeName, Holds pair) →
      ∀ pair ∈ (replacement name).standing schema document typeName, Holds pair)
    (typeName : String) (selection : Selection)
    (h : ∀ pair ∈ selection.standing schema document typeName, Holds pair) :
    ∀ pair ∈ (selection.replaceSpreads replacement).standing schema document typeName, Holds pair := by
  cases selection with
  | field alias? name arguments directives selections =>
    rw [replaceSpreads]
    rw [standing] at h ⊢
    split
    · simp
    · rename_i returned hreturned
      rw [hreturned] at h
      exact forall_standingInAll_replaceSpreads hspread returned selections h
  | inline condition? directives selections =>
    rw [replaceSpreads]
    cases condition? with
    | none =>
      rw [standing] at h ⊢
      exact forall_standingInAll_replaceSpreads hspread typeName selections h
    | some condition =>
      rw [standing] at h ⊢
      obtain ⟨hown, hinner⟩ := List.forall_mem_cons.1 h
      exact List.forall_mem_cons.2
        ⟨hown, forall_standingInAll_replaceSpreads hspread condition selections hinner⟩
  | spread name directives =>
    rw [replaceSpreads]
    exact hspread typeName name h

/-- So it is in several selections. -/
theorem forall_standingInAll_replaceSpreads {replacement : String → Selection}
    (hspread : ∀ typeName name, (∀ pair ∈ (spread name []).standing schema document typeName, Holds pair) →
      ∀ pair ∈ (replacement name).standing schema document typeName, Holds pair)
    (typeName : String) (selections : List Selection)
    (h : ∀ pair ∈ standingInAll schema document typeName selections, Holds pair) :
    ∀ pair ∈ standingInAll schema document typeName (replaceAllSpreads replacement selections),
      Holds pair := by
  cases selections with
  | nil => rw [replaceAllSpreads, standingInAll]; simp
  | cons selection rest =>
    rw [standingInAll] at h
    rw [replaceAllSpreads, standingInAll]
    obtain ⟨hfirst, hrest⟩ := List.forall_mem_append.1 h
    exact List.forall_mem_append.2
      ⟨forall_standing_replaceSpreads hspread typeName selection hfirst,
        forall_standingInAll_replaceSpreads hspread typeName rest hrest⟩

end

end Selection

namespace Document

/-- What holds of all fragments in the fragments of a document holds of those in what its spreads
stand for. -/
theorem forall_standing_inlineFragment
    (hfragments : ∀ fragment ∈ document.fragments, ∀ pair ∈
      Selection.standingInAll schema document fragment.condition fragment.selections, Holds pair)
    (depth : Nat) (around : List String) (typeName name : String)
    (h : ∀ pair ∈ (Selection.spread name []).standing schema document typeName, Holds pair) :
    ∀ pair ∈ (document.inlineFragment depth around name).standing schema document typeName,
      Holds pair := by
  have hnothing : ∀ typeName, ∀ pair ∈ Selection.nothing.standing schema document typeName,
      Holds pair := by
    simp [Selection.nothing, Selection.standing, Selection.standingInAll]
  induction depth generalizing around typeName name with
  | zero => exact hnothing typeName
  | succ depth ih =>
    rw [inlineFragment]
    cases hfragment : document.fragment? name with
    | none => exact hnothing typeName
    | some fragment =>
      dsimp only
      split
      · exact hnothing typeName
      · rw [Selection.standing, hfragment] at h
        rw [Selection.standing]
        have hmem := (mem_of_fragment? hfragment).1
        refine List.forall_mem_cons.2 ⟨by simpa using h, ?_⟩
        refine Selection.forall_standingInAll_replaceSpreads ?_ _ _ (hfragments fragment hmem)
        intro inner other hother
        exact ih _ inner other hother

/-- **What holds of the fragments in a document** holds of those in its inlined selections. -/
theorem forall_standing_inlined
    (hfragments : ∀ fragment ∈ document.fragments, ∀ pair ∈
      Selection.standingInAll schema document fragment.condition fragment.selections, Holds pair)
    {typeName : String} {selections : List Selection}
    (h : ∀ pair ∈ Selection.standingInAll schema document typeName selections, Holds pair) :
    ∀ pair ∈ Selection.standingInAll schema document typeName (document.inlined selections),
      Holds pair := by
  refine Selection.forall_standingInAll_replaceSpreads ?_ typeName selections h
  exact fun typeName name hname =>
    forall_standing_inlineFragment hfragments _ [] typeName name hname

end Document

end SelectionRecall
