import SelectionRecall.Proofs.Usage.Ways

/-!
# Trails through selections

Each way that is read in selections comes from a trail through them: through fields, through inline
fragments and through the fragments that are spread, to a field of the document. A fragment is a step on
the way if it becomes a part, and is passed through without one if it belongs to the type around it.
What reading forgets stands on the trail: the arguments of the field, and the directives on it and on
everything around it.

* `Schema.stepInto`: the step that a fragment is.
* `MetField`, `Selection.Leads`: what a trail leads to, and the trails.
* `Observed.has_fragment`: ways into what is read in a fragment.
* `Schema.leadTo_of_has`: each way that is read comes from a trail.
-/

namespace SelectionRecall

open Usage

/-- The step into the part that a fragment on `condition` becomes inside a type. There is none if the
fragment belongs to the type, being on the type itself or on an abstract type that lists it. -/
def Schema.stepInto (schema : Schema) (typeName condition : String) : List Step :=
  if schema.MayBe condition typeName then [] else [.part condition]

/-- A field that is met at the end of a trail, with its arguments and with all directives on the trail:
those on the field and those on each field, inline fragment and spread around it. -/
structure MetField where
  name : String
  arguments : Arguments
  directives : List Directive

/-- The same field, met inside something with these directives. -/
def MetField.within (met : MetField) (directives : List Directive) : MetField :=
  { met with directives := directives ++ met.directives }

namespace Selection

/-- Inside the type, a trail through the selection leads along this path to this field. -/
inductive Leads (schema : Schema) (document : Document) :
    String → Selection → List Step → MetField → Prop
  | here {typeName returned alias? name arguments directives selections} :
    schema.fieldType? typeName name = some returned →
    Leads schema document typeName (.field alias? name arguments directives selections) []
      ⟨name, arguments, directives⟩
  | beneath {typeName returned alias? name arguments directives selections selection path met} :
    schema.fieldType? typeName name = some returned → selection ∈ selections →
    Leads schema document returned selection path met →
    Leads schema document typeName (.field alias? name arguments directives selections)
      (.field name :: path) (met.within directives)
  | inline {typeName condition? directives selections selection path met} :
    schema.hasType (condition?.getD typeName) = true → selection ∈ selections →
    Leads schema document (condition?.getD typeName) selection path met →
    Leads schema document typeName (.inline condition? directives selections)
      (schema.stepInto typeName (condition?.getD typeName) ++ path) (met.within directives)
  | spread {typeName name directives fragment selection path met} :
    document.fragment? name = some fragment → schema.hasType fragment.condition = true →
    selection ∈ fragment.selections → Leads schema document fragment.condition selection path met →
    Leads schema document typeName (.spread name directives)
      (schema.stepInto typeName fragment.condition ++ path) (met.within directives)

variable {schema : Schema} {document : Document} {typeName : String} {met : MetField}

/-- Without a step, a field leads to itself alone. -/
theorem leads_field_nil_iff {alias? : Option String} {own : String} {arguments : Arguments}
    {directives : List Directive} {selections : List Selection} :
    (Selection.field alias? own arguments directives selections).Leads schema document typeName [] met ↔
      (schema.fieldType? typeName own).isSome = true ∧ met = ⟨own, arguments, directives⟩ := by
  constructor
  · rintro ⟨hfield⟩
    exact ⟨by rw [hfield]; rfl, rfl⟩
  · rintro ⟨hsome, rfl⟩
    obtain ⟨returned, hfield⟩ := Option.isSome_iff_exists.1 hsome
    exact .here hfield

/-- An inline fragment leads to what its selections lead to, behind the step that it is. -/
theorem leads_inline_iff {condition? : Option String} {directives : List Directive}
    {selections : List Selection} {path : List Step} :
    (Selection.inline condition? directives selections).Leads schema document typeName path met ↔
      schema.hasType (condition?.getD typeName) = true ∧ ∃ selection ∈ selections, ∃ rest inner,
        path = schema.stepInto typeName (condition?.getD typeName) ++ rest ∧
          met = inner.within directives ∧
            selection.Leads schema document (condition?.getD typeName) rest inner := by
  constructor
  · intro h
    cases h with
    | inline hknown hmem hleads => exact ⟨hknown, _, hmem, _, _, rfl, rfl, hleads⟩
  · rintro ⟨hknown, selection, hmem, rest, inner, rfl, rfl, hleads⟩
    exact .inline hknown hmem hleads

/-- Along this path the selections lead to a field of this name. -/
def LeadTo (schema : Schema) (document : Document) (typeName : String) (selections : List Selection)
    (path : List Step) (name : String) : Prop :=
  ∃ selection ∈ selections, ∃ met, selection.Leads schema document typeName path met ∧ met.name = name

end Selection

variable {schema : Schema} {document : Document} {typeName condition name : String} {path : List Step}

/-- The only way into a leaf is the leaf itself. -/
theorem Usage.has_leaf_iff {own : String} {arguments : Arguments} :
    (ofField ((FieldUse.leaf own).withArguments arguments)).Has path (some name) ↔
      path = [] ∧ name = own := by
  rw [has_ofField_iff, FieldUse.name_withArguments, FieldUse.nested?_withArguments]
  simp [FieldUse.leaf, FieldUse.name, FieldUse.nested?]

/-- **What is read in a fragment** has the ways of its selections, behind the step that the fragment
is. -/
theorem Observed.has_fragment {inner : Observed} :
    (fragment schema typeName condition inner).usage.Has path (some name) ↔
      ∃ rest, path = schema.stepInto typeName condition ++ rest ∧ inner.usage.Has rest (some name) := by
  rw [usage_fragment]
  unfold Schema.stepInto
  by_cases hempty : inner.usage.isEmpty = true
  · have hnone : ∀ rest, ¬ inner.usage.Has rest (some name) := by
      simp [eq_empty_of_isEmpty hempty, not_has_empty_some]
    simp [hempty, hnone]
  · by_cases hbelongs : schema.MayBe condition typeName
    · simp [hbelongs]
    · simp [hempty, hbelongs, has_ofPart_iff]

namespace Schema

open Selection

mutual

/-- Each way that is read in a selection comes from a trail, if it is so for spreads. -/
theorem leadTo_observeSelection {spread : SpreadReader}
    (hdistinct : ∀ typeName name, (spread typeName name).usage.Distinct)
    (hspread : ∀ typeName fragment path name, (spread typeName fragment).usage.Has path (some name) →
      ∀ directives, LeadTo schema document typeName [.spread fragment directives] path name)
    (typeName : String) (selection : Selection) {path : List Step} {name : String}
    (h : (schema.observeSelection spread typeName selection).usage.Has path (some name)) :
    LeadTo schema document typeName [selection] path name := by
  cases selection with
  | field alias? own arguments directives selections =>
    rw [observeSelection] at h
    cases hfield : schema.fieldType? typeName own with
    | none =>
      -- nothing is read in a field that the type does not have
      rw [hfield] at h
      exact (not_has_empty_some h).elim
    | some returned =>
      rw [hfield] at h
      dsimp only at h
      have hself : LeadTo schema document typeName [.field alias? own arguments directives selections] []
          own := ⟨_, List.mem_cons_self, _, .here hfield, rfl⟩
      split at h
      · obtain ⟨rfl, rfl⟩ := has_leaf_iff.1 h
        exact hself
      · rcases Observed.has_field.1 h with ⟨-, hnone⟩ | ⟨-, ⟨rfl, hname⟩ | ⟨rest, rfl, hrest⟩⟩
        · cases hnone
        · rw [Option.some.inj hname]; exact hself
        · obtain ⟨inner, hinner, met, hleads, hname⟩ :=
            leadTo_observeSelections hdistinct hspread returned selections hrest
          exact ⟨_, List.mem_cons_self, _, .beneath hfield hinner hleads, hname⟩
  | inline condition? directives selections =>
    rw [observeSelection] at h
    split at h
    · rename_i hknown
      obtain ⟨rest, rfl, hrest⟩ := Observed.has_fragment.1 h
      obtain ⟨inner, hinner, met, hleads, hname⟩ :=
        leadTo_observeSelections hdistinct hspread (condition?.getD typeName) selections hrest
      exact ⟨_, List.mem_cons_self, _, .inline hknown hinner hleads, hname⟩
    · exact (not_has_empty_some h).elim
  | spread fragment directives =>
    rw [observeSelection] at h
    exact hspread typeName fragment path name h directives

/-- So does each way that is read in selections. -/
theorem leadTo_observeSelections {spread : SpreadReader}
    (hdistinct : ∀ typeName name, (spread typeName name).usage.Distinct)
    (hspread : ∀ typeName fragment path name, (spread typeName fragment).usage.Has path (some name) →
      ∀ directives, LeadTo schema document typeName [.spread fragment directives] path name)
    (typeName : String) (selections : List Selection) {path : List Step} {name : String}
    (h : (schema.observeSelections spread typeName .empty selections).usage.Has path (some name)) :
    LeadTo schema document typeName selections path name := by
  rw [has_observeSelections_iff hdistinct] at h
  rcases h with hnone | ⟨selection, hselection, h⟩
  · exact (not_has_empty_some hnone).elim
  · obtain ⟨_, hmem, hmet⟩ := leadTo_observeSelection hdistinct hspread typeName selection h
    rw [List.mem_singleton.1 hmem] at hmet
    exact ⟨selection, hselection, hmet⟩

end

/-- Each way that is read in a spread comes from a trail through the fragment. -/
theorem leadTo_spreadReader {depth : Nat} {reading : List String} {fragment : String}
    (h : (schema.spreadReader document.fragment? depth reading typeName fragment).usage.Has path
      (some name)) (directives : List Directive) :
    LeadTo schema document typeName [.spread fragment directives] path name := by
  induction depth generalizing reading typeName fragment path name directives with
  | zero => exact (not_has_empty_some h).elim
  | succ depth ih =>
    unfold spreadReader at h
    split at h
    · exact (not_has_empty_some h).elim
    · rename_i definition hdefinition
      split at h
      · exact (not_has_empty_some h).elim
      · split at h
        · rename_i hknown
          obtain ⟨rest, rfl, hrest⟩ := Observed.has_fragment.1 h
          have hdistinct := (keptByReading_distinct schema).spreadReader document.fragment? depth
            (fragment :: reading)
          obtain ⟨inner, hinner, met, hleads, hname⟩ := leadTo_observeSelections hdistinct
            (fun _ _ _ _ h directives => ih h directives) _ definition.selections hrest
          exact ⟨_, List.mem_cons_self, _, .spread hdefinition hknown hinner hleads, hname⟩
        · exact (not_has_empty_some h).elim

/-- **Each way that is read comes from a trail**: wherever a field was read, one of its name stands at
the end of a trail through the selections. -/
theorem leadTo_of_has {selections : List Selection}
    (h : (schema.observe document typeName selections).usage.Has path (some name)) :
    LeadTo schema document typeName selections path name :=
  leadTo_observeSelections ((keptByReading_distinct schema).spreadReader document.fragment? _ [])
    (fun _ _ _ _ h directives => leadTo_spreadReader h directives) typeName selections h

end Schema

end SelectionRecall
