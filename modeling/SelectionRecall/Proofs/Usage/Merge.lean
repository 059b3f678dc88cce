import SelectionRecall.Usage.Basic

/-!
# United usages

Facts on unions of usages that do not depend on where fields and parts stand, or on how often one is
united with another: what holds of some field or part of a union, and what holds of all of them.

* `FieldUse.nested?_merge_eq_some`: what was selected beneath a united field.
* `Usage.induction`: what holds of a usage if it holds of all that is beneath its fields and in its
  parts, holds of all usages.
* `Usage.mergeFields_eq_unite`, `Usage.mergeParts_eq_unite`: unions as united lists.
* `Usage.exists_mem_mergeFields`, `Usage.exists_mem_mergeParts`: what holds of some field or part.
* `Usage.forall_mem_mergeFields`, `Usage.forall_mem_mergeFields_iff`: what holds of all fields. So it is
  with parts.
* `Usage.exists_find?_mergeFields`, `Usage.exists_lookup_mergeParts`: what holds of the field or part
  that a name leads to.
* `Usage.map_prefix_mergeFields`, `Usage.nodup_map_mergeFields`: names keep their order, and stay
  distinct. So it is with parts.
* `Usage.isEmpty_merge`: a union is empty if both usages are.
-/

namespace SelectionRecall

/-- **What was selected beneath a united field**: what was beneath one of the two, or the union of what
was beneath both. -/
theorem FieldUse.nested?_merge_eq_some {old new : FieldUse} {nested : Usage} :
    (old.merge new).nested? = some nested ↔
      (new.nested? = none ∧ old.nested? = some nested) ∨
        (old.nested? = none ∧ new.nested? = some nested) ∨
        ∃ first second, old.nested? = some first ∧ new.nested? = some second ∧
          first.merge second = nested := by
  have hmerge : (old.merge new).nested? = Usage.mergeNested old.nested? new.nested? := by
    cases new
    rw [FieldUse.merge]; rfl
  rw [hmerge]
  cases hnew : new.nested? with
  | none => simp [Usage.mergeNested]
  | some second => cases hold : old.nested? <;> simp [Usage.mergeNested]

/-- What is beneath a field is still beneath it in a union, alone or united with more. What unions keep
holds there. -/
theorem FieldUse.exists_nested?_merge {old new : FieldUse} {Holds : Usage → Prop}
    (hmerge : ∀ known added : Usage, Holds known → Holds (known.merge added))
    (h : ∃ nested, old.nested? = some nested ∧ Holds nested) :
    ∃ nested, (old.merge new).nested? = some nested ∧ Holds nested := by
  obtain ⟨first, hfirst, hholds⟩ := h
  cases hnew : new.nested? with
  | none => exact ⟨first, FieldUse.nested?_merge_eq_some.2 (.inl ⟨hnew, hfirst⟩), hholds⟩
  | some second =>
    have hunion : (old.merge new).nested? = some (first.merge second) :=
      FieldUse.nested?_merge_eq_some.2 (.inr (.inr ⟨first, second, hfirst, hnew, rfl⟩))
    exact ⟨first.merge second, hunion, hmerge first second hholds⟩

theorem FieldUse.arguments_merge (old new : FieldUse) :
    (old.merge new).arguments = old.arguments.newer new.arguments := by
  cases new
  rw [FieldUse.merge]; rfl

namespace Usage

mutual

/-- **What holds of a usage** if it holds of all that is beneath its fields and in its parts, holds
of all usages. -/
theorem induction {Holds : Usage → Prop}
    (step : ∀ usage : Usage,
      (∀ field ∈ usage.fields, ∀ nested, field.nested? = some nested → Holds nested) →
      (∀ part ∈ usage.parts, Holds part.2) → Holds usage)
    (usage : Usage) : Holds usage := by
  cases usage with
  | mk fields parts =>
    exact step _ (induction_fields step fields) (induction_parts step parts)

/-- It holds of all that is beneath fields. -/
theorem induction_fields {Holds : Usage → Prop}
    (step : ∀ usage : Usage,
      (∀ field ∈ usage.fields, ∀ nested, field.nested? = some nested → Holds nested) →
      (∀ part ∈ usage.parts, Holds part.2) → Holds usage)
    (fields : List FieldUse) :
    ∀ field ∈ fields, ∀ nested, field.nested? = some nested → Holds nested := by
  cases fields with
  | nil => simp
  | cons head rest =>
    refine List.forall_mem_cons.2 ⟨?_, induction_fields step rest⟩
    obtain ⟨name, arguments, nested?⟩ := head
    cases nested? with
    | none => simp [FieldUse.nested?]
    | some beneath =>
      intro nested hnested
      rw [← Option.some.inj hnested]
      exact induction step beneath

/-- It holds of parts. -/
theorem induction_parts {Holds : Usage → Prop}
    (step : ∀ usage : Usage,
      (∀ field ∈ usage.fields, ∀ nested, field.nested? = some nested → Holds nested) →
      (∀ part ∈ usage.parts, Holds part.2) → Holds usage)
    (parts : List (String × Usage)) : ∀ part ∈ parts, Holds part.2 := by
  cases parts with
  | nil => simp
  | cons head rest =>
    obtain ⟨typeName, usage⟩ := head
    exact List.forall_mem_cons.2 ⟨induction step usage, induction_parts step rest⟩

end

theorem fields_merge (old new : Usage) :
    (old.merge new).fields = mergeFields old.fields new.fields := by
  cases new
  rw [Usage.merge]; rfl

theorem parts_merge (old new : Usage) :
    (old.merge new).parts = mergeParts old.parts new.parts := by
  cases new
  rw [Usage.merge]; rfl

/-! ## United lists -/

/-- Unites a part with another one of its type. -/
def joinPart (old new : String × Usage) : String × Usage := (old.1, old.2.merge new.2)

theorem fst_joinPart (old new : String × Usage) : (joinPart old new).1 = old.1 := rfl

/-- The fields of a union are united by their names. -/
theorem mergeFields_eq_unite (old new : List FieldUse) :
    mergeFields old new = Keyed.unite FieldUse.name FieldUse.merge old new := by
  induction new generalizing old with
  | nil => rw [mergeFields]; rfl
  | cons head rest ih => rw [mergeFields, ih]; rfl

/-- The parts of a union are united by their types. -/
theorem mergeParts_eq_unite (old new : List (String × Usage)) :
    mergeParts old new = Keyed.unite Prod.fst joinPart old new := by
  induction new generalizing old with
  | nil => rw [mergeParts]; rfl
  | cons head rest ih => rw [mergeParts, ih]; rfl

/-- What holds of a union of two fields just if it holds of one of them, holds of some field of a
union of usages just if it holds of some field of one of them. -/
theorem exists_mem_mergeFields {Holds : FieldUse → Prop} {old new : List FieldUse}
    (hmerge : ∀ field ∈ new, ∀ known : FieldUse, known.name = field.name →
      (Holds (known.merge field) ↔ Holds known ∨ Holds field)) :
    (∃ field ∈ mergeFields old new, Holds field) ↔
      (∃ field ∈ old, Holds field) ∨ ∃ field ∈ new, Holds field := by
  rw [mergeFields_eq_unite]
  exact Keyed.exists_mem_unite hmerge

/-- So it is with parts. -/
theorem exists_mem_mergeParts {Holds : String × Usage → Prop} {old new : List (String × Usage)}
    (hmerge : ∀ part ∈ new, ∀ known : String × Usage, known.1 = part.1 →
      (Holds (known.1, known.2.merge part.2) ↔ Holds known ∨ Holds part)) :
    (∃ part ∈ mergeParts old new, Holds part) ↔
      (∃ part ∈ old, Holds part) ∨ ∃ part ∈ new, Holds part := by
  rw [mergeParts_eq_unite]
  exact Keyed.exists_mem_unite hmerge

/-- What holds of a union of two fields if it holds of both, holds of all fields of a union of usages
if it holds of all fields of both. -/
theorem forall_mem_mergeFields {Holds : FieldUse → Prop} {old new : List FieldUse}
    (hmerge : ∀ field ∈ new, ∀ known : FieldUse, known.name = field.name → Holds known →
      Holds (known.merge field))
    (hold : ∀ field ∈ old, Holds field) (hnew : ∀ field ∈ new, Holds field) :
    ∀ field ∈ mergeFields old new, Holds field := by
  rw [mergeFields_eq_unite]
  exact Keyed.forall_mem_unite hmerge hold hnew

/-- So it is with parts. -/
theorem forall_mem_mergeParts {Holds : String × Usage → Prop} {old new : List (String × Usage)}
    (hmerge : ∀ part ∈ new, ∀ known : String × Usage, known.1 = part.1 → Holds known →
      Holds (known.1, known.2.merge part.2))
    (hold : ∀ part ∈ old, Holds part) (hnew : ∀ part ∈ new, Holds part) :
    ∀ part ∈ mergeParts old new, Holds part := by
  rw [mergeParts_eq_unite]
  exact Keyed.forall_mem_unite hmerge hold hnew

/-- What holds of a union of two fields just if it holds of both, holds of all fields of a union of
usages just if it holds of all fields of both. -/
theorem forall_mem_mergeFields_iff {Holds : FieldUse → Prop} {old new : List FieldUse}
    (hmerge : ∀ field ∈ new, ∀ known : FieldUse, known.name = field.name →
      (Holds (known.merge field) ↔ Holds known ∧ Holds field)) :
    (∀ field ∈ mergeFields old new, Holds field) ↔
      (∀ field ∈ old, Holds field) ∧ ∀ field ∈ new, Holds field := by
  rw [mergeFields_eq_unite]
  exact Keyed.forall_mem_unite_iff hmerge

/-- So it is with parts. -/
theorem forall_mem_mergeParts_iff {Holds : String × Usage → Prop} {old new : List (String × Usage)}
    (hmerge : ∀ part ∈ new, ∀ known : String × Usage, known.1 = part.1 →
      (Holds (known.1, known.2.merge part.2) ↔ Holds known ∧ Holds part)) :
    (∀ part ∈ mergeParts old new, Holds part) ↔
      (∀ part ∈ old, Holds part) ∧ ∀ part ∈ new, Holds part := by
  rw [mergeParts_eq_unite]
  exact Keyed.forall_mem_unite_iff hmerge

/-! ## Where names lead -/

/-- What holds of the field that a name leads to still holds after fields are added that keep it. -/
theorem exists_find?_mergeFields {Holds : FieldUse → Prop} {old new : List FieldUse} {name : String}
    (hkeeps : ∀ field ∈ new, ∀ known : FieldUse, known.name = field.name → Holds known →
      Holds (known.merge field))
    (h : ∃ known, old.find? (fun field => field.name = name) = some known ∧ Holds known) :
    ∃ known, (mergeFields old new).find? (fun field => field.name = name) = some known ∧
      Holds known := by
  rw [mergeFields_eq_unite]
  exact Keyed.exists_find?_unite FieldUse.name_merge hkeeps h

/-- What holds of an added field, alone and in a union with a known one, holds of the field that its
name leads to afterwards, if the fields that are added keep it. -/
theorem exists_find?_mergeFields_of_mem {Holds : FieldUse → Prop} {old new : List FieldUse}
    (hkeeps : ∀ field ∈ new, ∀ known : FieldUse, known.name = field.name → Holds known →
      Holds (known.merge field))
    {field : FieldUse} (hmem : field ∈ new) (hfield : Holds field)
    (hjoin : ∀ known : FieldUse, known.name = field.name → Holds (known.merge field)) :
    ∃ known, (mergeFields old new).find? (fun other => other.name = field.name) = some known ∧
      Holds known := by
  rw [mergeFields_eq_unite]
  exact Keyed.exists_find?_unite_of_mem FieldUse.name_merge hkeeps hmem hfield hjoin

/-- What holds of the part that a name leads to still holds after parts are added that keep it. -/
theorem exists_lookup_mergeParts {Holds : Usage → Prop} {old new : List (String × Usage)}
    {typeName : String}
    (hkeeps : ∀ part ∈ new, ∀ known : Usage, Holds known → Holds (known.merge part.2))
    (h : ∃ known, old.lookup typeName = some known ∧ Holds known) :
    ∃ known, (mergeParts old new).lookup typeName = some known ∧ Holds known := by
  rw [Keyed.exists_lookup_iff] at h ⊢
  rw [mergeParts_eq_unite]
  refine Keyed.exists_find?_unite fst_joinPart ?_ h
  exact fun part hpart known _ hknown => hkeeps part hpart known.2 hknown

/-- What holds of an added part, alone and in a union with a known one, holds of the part that its
name leads to afterwards, if the parts that are added keep it. -/
theorem exists_lookup_mergeParts_of_mem {Holds : Usage → Prop} {old new : List (String × Usage)}
    (hkeeps : ∀ part ∈ new, ∀ known : Usage, Holds known → Holds (known.merge part.2))
    {typeName : String} {part : Usage} (hmem : (typeName, part) ∈ new) (hpart : Holds part)
    (hjoin : ∀ known : Usage, Holds (known.merge part)) :
    ∃ known, (mergeParts old new).lookup typeName = some known ∧ Holds known := by
  rw [Keyed.exists_lookup_iff, mergeParts_eq_unite]
  refine @Keyed.exists_find?_unite_of_mem _ _ _ (fun entry => Holds entry.2) old new fst_joinPart ?_
    _ hmem hpart ?_
  · exact fun part hpart known _ hknown => hkeeps part hpart known.2 hknown
  · exact fun known _ => hjoin known.2

/-! ## The order of names -/

/-- The names of fields are the first ones after others are added, in their order. -/
theorem map_prefix_mergeFields (old new : List FieldUse) :
    old.map FieldUse.name <+: (mergeFields old new).map FieldUse.name := by
  rw [mergeFields_eq_unite]
  exact Keyed.map_prefix_unite FieldUse.name_merge old new

/-- So it is with parts. -/
theorem map_prefix_mergeParts (old new : List (String × Usage)) :
    old.map Prod.fst <+: (mergeParts old new).map Prod.fst := by
  rw [mergeParts_eq_unite]
  exact Keyed.map_prefix_unite fst_joinPart old new

/-- Distinct names of fields stay distinct after others are added. -/
theorem nodup_map_mergeFields {old : List FieldUse} (h : (old.map FieldUse.name).Nodup)
    (new : List FieldUse) : ((mergeFields old new).map FieldUse.name).Nodup := by
  rw [mergeFields_eq_unite]
  exact Keyed.nodup_map_unite FieldUse.name_merge h new

/-- So it is with parts. -/
theorem nodup_map_mergeParts {old : List (String × Usage)} (h : (old.map Prod.fst).Nodup)
    (new : List (String × Usage)) : ((mergeParts old new).map Prod.fst).Nodup := by
  rw [mergeParts_eq_unite]
  exact Keyed.nodup_map_unite fst_joinPart h new

/-! ## The smallest usages -/

@[simp]
theorem fields_empty : Usage.empty.fields = [] := rfl

@[simp]
theorem parts_empty : Usage.empty.parts = [] := rfl

@[simp]
theorem fields_ofField (field : FieldUse) : (ofField field).fields = [field] := rfl

@[simp]
theorem parts_ofField (field : FieldUse) : (ofField field).parts = [] := rfl

@[simp]
theorem fields_ofPart (typeName : String) (part : Usage) : (ofPart typeName part).fields = [] := rfl

@[simp]
theorem parts_ofPart (typeName : String) (part : Usage) :
    (ofPart typeName part).parts = [(typeName, part)] := rfl

@[simp]
theorem isEmpty_empty : Usage.empty.isEmpty = true := rfl

@[simp]
theorem isEmpty_ofField (field : FieldUse) : (ofField field).isEmpty = false := rfl

@[simp]
theorem isEmpty_ofPart (typeName : String) (part : Usage) :
    (ofPart typeName part).isEmpty = false := rfl

/-- A usage is not empty if it has a field or a part. -/
theorem isEmpty_eq_false_iff (usage : Usage) :
    usage.isEmpty = false ↔ (∃ field ∈ usage.fields, True) ∨ ∃ part ∈ usage.parts, True := by
  unfold isEmpty
  rw [Bool.and_eq_false_iff, List.isEmpty_eq_false_iff_exists_mem,
    List.isEmpty_eq_false_iff_exists_mem]
  simp only [and_true]

/-- **A union is empty** if both usages are. -/
theorem isEmpty_merge (old new : Usage) :
    (old.merge new).isEmpty = false ↔ old.isEmpty = false ∨ new.isEmpty = false := by
  simp only [isEmpty_eq_false_iff, fields_merge, parts_merge]
  rw [exists_mem_mergeFields (by simp), exists_mem_mergeParts (by simp)]
  exact or_or_or_comm

end Usage

end SelectionRecall
