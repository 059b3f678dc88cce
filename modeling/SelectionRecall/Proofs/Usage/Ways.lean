import SelectionRecall.Proofs.Schema.Possible
import SelectionRecall.Proofs.Usage.Covering

/-!
# Ways into what is read

What is read in selections has the ways that are read in one of them. In a field they lead through the
field, in a fragment through the part that the fragment becomes, or where they led inside it if the
fragment is taken into the usage around it. Nothing else is added, so a way into what was read can be
followed back to the selections that it came from.

* `Usage.Has.length_lt`: ways are no longer than a usage is large.
* `Usage.has_empty_iff`, `Usage.has_ofField_iff`, `Usage.has_ofPart_iff`: ways into the smallest usages.
* `Usage.has_foldl_merge`, `Schema.has_observeSelections_iff`: ways into what selections hold together.
* `Observed.has_field`, `Observed.usage_fragment`: what is read in one field, and in one fragment.
-/

namespace SelectionRecall

namespace Usage

variable {path : List Step} {field? : Option String}

theorem eq_empty_of_isEmpty {usage : Usage} (h : usage.isEmpty = true) : usage = .empty := by
  unfold isEmpty at h
  rw [Bool.and_eq_true, List.isEmpty_iff, List.isEmpty_iff] at h
  exact eq_of_parts h.1 h.2

/-- A step leads to something smaller. -/
theorem sizeOf_lt_of_step? {usage inner : Usage} {step : Step} (h : usage.step? step = some inner) :
    sizeOf inner < sizeOf usage := by
  obtain ⟨fields, parts⟩ := usage
  cases step with
  | field name =>
    obtain ⟨⟨_, _, nested?⟩, hfield, hnested⟩ := Option.bind_eq_some_iff.1 h
    have hsmaller := List.sizeOf_lt_of_mem (List.mem_of_find?_eq_some hfield)
    change nested? = some inner at hnested
    simp only [hnested, Usage.fields, FieldUse.mk.sizeOf_spec, Option.some.sizeOf_spec,
      Usage.mk.sizeOf_spec] at hsmaller ⊢
    omega
  | part typeName =>
    have hsmaller := List.sizeOf_lt_of_mem (Keyed.mem_of_lookup h)
    simp only [Usage.parts, Prod.mk.sizeOf_spec, Usage.mk.sizeOf_spec] at hsmaller ⊢
    omega

/-- No way is longer than the usage is large. -/
theorem Has.length_lt {usage : Usage} (h : usage.Has path field?) : path.length < sizeOf usage := by
  induction path generalizing usage with
  | nil =>
    cases usage
    rw [List.length_nil, Usage.mk.sizeOf_spec]; omega
  | cons step rest ih =>
    obtain ⟨inner, hinner, hrest⟩ := has_cons.1 h
    have hsmaller := sizeOf_lt_of_step? hinner
    have hlength := ih hrest
    rw [List.length_cons]; omega

/-- No way leads on in nothing. -/
theorem has_empty_iff : Usage.empty.Has path field? ↔ path = [] ∧ field? = none := by
  cases path with
  | nil =>
    cases field? with
    | none => simp [has_nil_none]
    | some name => simp [has_nil_some, Usage.field?]
  | cons step rest =>
    rw [has_cons]
    cases step <;> simp [Usage.step?, Usage.field?, Usage.part?]

/-- Nothing has no field. -/
theorem not_has_empty_some {name : String} : ¬ Usage.empty.Has path (some name) := by
  simp [has_empty_iff]

/-- All ways into a single field lead through it. -/
theorem has_ofField_iff {field : FieldUse} :
    (ofField field).Has path field? ↔
      (path = [] ∧ ∀ name, field? = some name → name = field.name) ∨
        ∃ nested rest, field.nested? = some nested ∧ path = .field field.name :: rest ∧
          nested.Has rest field? := by
  cases path with
  | nil =>
    cases field? with
    | none => simp [has_nil_none]
    | some name =>
      rw [has_nil_some]
      simp only [Usage.field?, fields_ofField, List.find?_singleton]
      by_cases hname : field.name = name <;> simp [hname, Ne.symm]
  | cons step rest =>
    rw [has_cons]
    cases step with
    | part typeName => simp [Usage.step?, Usage.part?]
    | field name =>
      by_cases hname : field.name = name
      · subst hname
        simp [Usage.step?, Usage.field?]
      · simp [Usage.step?, Usage.field?, hname, Ne.symm hname]

/-- All ways into a single part lead through it. -/
theorem has_ofPart_iff {typeName : String} {part : Usage} :
    (ofPart typeName part).Has path field? ↔
      (path = [] ∧ field? = none) ∨
        ∃ rest, path = .part typeName :: rest ∧ part.Has rest field? := by
  cases path with
  | nil =>
    cases field? with
    | none => simp [has_nil_none]
    | some name => simp [has_nil_some, Usage.field?]
  | cons step rest =>
    rw [has_cons]
    cases step with
    | field name => simp [Usage.step?, Usage.field?]
    | part name =>
      by_cases hname : name = typeName
      · subst hname
        simp [Usage.step?, Usage.part?]
      · have hnone : List.lookup name [(typeName, part)] = none := by
          rw [List.lookup_cons, beq_eq_false_iff_ne.2 hname]; rfl
        simp [Usage.step?, Usage.part?, hname, hnone]

/-- **Usages united one after the other** have the ways of each of them. -/
theorem has_foldl_merge {usages : List Usage} (h : ∀ usage ∈ usages, usage.Distinct) (before : Usage) :
    (usages.foldl merge before).Has path field? ↔
      before.Has path field? ∨ ∃ usage ∈ usages, usage.Has path field? := by
  induction usages generalizing before with
  | nil => simp
  | cons usage rest ih =>
    obtain ⟨husage, hrest⟩ := List.forall_mem_cons.1 h
    rw [List.foldl_cons, ih hrest, has_merge husage, or_assoc]
    simp only [List.mem_cons, exists_eq_or_imp]

end Usage

open Usage

variable {schema : Schema} {typeName condition returned name : String} {arguments : Arguments}
  {inner : Observed} {spread : SpreadReader} {path : List Step} {field? : Option String}

namespace Observed

/-- **What is read in a fragment** is taken in where the fragment belongs to the type, and else becomes
a part, unless it is empty. -/
theorem usage_fragment :
    (fragment schema typeName condition inner).usage =
      if inner.usage.isEmpty ∨ schema.MayBe condition typeName then inner.usage
      else .ofPart condition inner.usage := by
  unfold fragment
  by_cases hempty : inner.usage.isEmpty = true
  · simp [eq_empty_of_isEmpty hempty]
  · by_cases hsame : condition = typeName
    · simp [hempty, hsame, Schema.MayBe]
    · by_cases himplements : typeName ∈ schema.implementers condition
      · simp [hempty, hsame, himplements, Schema.MayBe]
      · simp [hempty, hsame, Ne.symm hsame, himplements, Schema.MayBe]

/-- **What is read in a field** leads through the field, unless nothing is left beneath it. -/
theorem has_field :
    (field returned name arguments inner).usage.Has path field? ↔
      (path = [] ∧ field? = none) ∨ inner.usage.isEmpty = false ∧
        ((path = [] ∧ field? = some name) ∨
          ∃ rest, path = .field name :: rest ∧ inner.usage.Has rest field?) := by
  unfold field
  split
  · rename_i hempty
    rw [has_empty_iff, hempty]; simp
  · rename_i hleft
    rw [Bool.not_eq_true] at hleft
    rw [has_ofField_iff, hleft]
    rw [FieldUse.name_withArguments, FieldUse.nested?_withArguments]
    cases field? <;> simp [FieldUse.nested, FieldUse.name, FieldUse.nested?]

end Observed

namespace Schema

/-- Reading keeps names distinct. -/
theorem keptByReading_distinct (schema : Schema) :
    schema.KeptByReading fun _ observed => observed.usage.Distinct := by
  refine .of_steps ?_ ?_ ?_ ?_ ?_ ?_ ?_
  · exact fun _ => distinct_stable.everywhere_empty
  · exact fun arguments _ => distinct_stable.everywhere_ofField _ (by simp) arguments
  · exact fun _ _ => distinct_stable.everywhere_empty
  · intro typeName name returned inner arguments _ hinner
    have hnested : ∀ nested, some inner.usage = some nested → nested.Distinct :=
      fun nested hnested => Option.some.inj hnested ▸ hinner
    exact distinct_stable.everywhere_ofField name hnested arguments
  · exact fun _ hinner => hinner
  · exact fun _ _ hinner => distinct_stable.everywhere_ofPart _ hinner
  · exact fun hfirst hsecond => hfirst.merge hsecond

/-- **Selections have the ways that are read in one of them.** -/
theorem has_observeSelections_iff (hspread : ∀ typeName name, (spread typeName name).usage.Distinct)
    (before : Usage) (selections : List Selection) :
    (schema.observeSelections spread typeName before selections).usage.Has path field? ↔
      before.Has path field? ∨ ∃ selection ∈ selections,
        (schema.observeSelection spread typeName selection).usage.Has path field? := by
  have hread : ∀ usage ∈ selections.map fun selection =>
      (schema.observeSelection spread typeName selection).usage, usage.Distinct := by
    intro usage husage
    obtain ⟨selection, -, rfl⟩ := List.mem_map.1 husage
    exact (keptByReading_distinct schema).observeSelection hspread typeName selection
  rw [usage_observeSelections, has_foldl_merge hread]
  simp

end Schema

end SelectionRecall
