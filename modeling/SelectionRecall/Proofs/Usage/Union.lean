import SelectionRecall.Proofs.Usage.Growth

/-!
# Unions as keyed lists

The fields and the parts of a union are united keyed lists, and so are the entries of a table to which
others are added. So unions are associative, down to the order of fields and parts and to the arguments
of each field. And what a way leads to in a union is told from what it leads to in the two usages.

* `Usage.merge_assoc`, `UsageTable.mergeAll_mergeEntries`: it does not matter what is united first.
* `Usage.field?_merge`, `Usage.step?_merge`, `Usage.at?_merge`: what is found in a union.
* `Usage.fieldAt?_merge`, `Usage.arguments?_merge`: the fields and the arguments that are found there.
* `UsageTable.toUsage`: a table as a usage, of which all of this holds.
-/

namespace SelectionRecall

/-- Of three lists of arguments the last one that is not empty counts. -/
theorem Arguments.newer_assoc (first second third : Arguments) :
    (first.newer second).newer third = first.newer (second.newer third) := by
  unfold newer
  cases third <;> cases second <;> rfl

namespace FieldUse

theorem nested?_merge (old new : FieldUse) :
    (old.merge new).nested? = Option.merge Usage.merge old.nested? new.nested? := by
  cases new with
  | mk name arguments nested? =>
    rw [FieldUse.merge]
    show Usage.mergeNested old.nested? nested? = Option.merge Usage.merge old.nested? nested?
    cases nested? <;> cases old.nested? <;> simp [Usage.mergeNested]

theorem eq_of_parts {first second : FieldUse} (hname : first.name = second.name)
    (harguments : first.arguments = second.arguments) (hnested : first.nested? = second.nested?) :
    first = second := by
  obtain ⟨name, arguments, nested?⟩ := first
  obtain ⟨name', arguments', nested?'⟩ := second
  cases hname; cases harguments; cases hnested; rfl

end FieldUse

namespace Usage

theorem eq_of_parts {first second : Usage} (hfields : first.fields = second.fields)
    (hparts : first.parts = second.parts) : first = second := by
  obtain ⟨fields, parts⟩ := first
  obtain ⟨fields', parts'⟩ := second
  cases hfields; cases hparts; rfl

@[simp]
theorem merge_empty (usage : Usage) : usage.merge .empty = usage := by
  refine eq_of_parts ?_ ?_
  · rw [fields_merge, fields_empty, mergeFields]
  · rw [parts_merge, parts_empty, mergeParts]

/-! ## What is united first -/

/-- Names are distinct in what is beneath the field, if there is anything. -/
def DistinctBeneath (field : FieldUse) : Prop :=
  ∀ nested, field.nested? = some nested → nested.Distinct

theorem distinct_iff {usage : Usage} :
    usage.Distinct ↔ (usage.fieldNames.Nodup ∧ usage.partNames.Nodup) ∧
      (∀ field ∈ usage.fields, DistinctBeneath field) ∧ ∀ part ∈ usage.parts, part.2.Distinct :=
  everywhere_iff

/-- A union of two fields keeps them distinct. -/
theorem DistinctBeneath.merge {old new : FieldUse} (hold : DistinctBeneath old)
    (hnew : DistinctBeneath new) : DistinctBeneath (old.merge new) := by
  intro nested hnested
  rcases FieldUse.nested?_merge_eq_some.1 hnested with
    ⟨-, hbefore⟩ | ⟨-, hadded⟩ | ⟨before, added, hbefore, hadded, rfl⟩
  · exact hold nested hbefore
  · exact hnew nested hadded
  · exact (hold before hbefore).merge (hnew added hadded)

/-- **Unions are associative**, down to the order of names and to arguments. In the second and the
third usage names are distinct. -/
theorem merge_assoc {second third : Usage} (hsecond : second.Distinct) (hthird : third.Distinct)
    (first : Usage) :
    (first.merge second).merge third = first.merge (second.merge third) := by
  -- on the last usage, as its entries are those that both sides go through
  induction third using Usage.induction generalizing first second with
  | step third ihFields ihParts =>
    obtain ⟨⟨hfieldNames, hpartNames⟩, hfields, hparts⟩ := distinct_iff.1 hsecond
    obtain ⟨-, hthirdFields, hthirdParts⟩ := distinct_iff.1 hthird
    refine eq_of_parts ?_ ?_
    · simp only [fields_merge, mergeFields_eq_unite]
      refine Keyed.unite_assoc DistinctBeneath FieldUse.name_merge hfieldNames hfields ?_ first.fields
      intro field hfield
      refine ⟨hthirdFields field hfield, fun known hknown => hknown.merge (hthirdFields field hfield), ?_⟩
      intro known hknown other
      refine FieldUse.eq_of_parts ?_ ?_ ?_
      · simp only [FieldUse.name_merge]
      · simp only [FieldUse.arguments_merge, Arguments.newer_assoc]
      · simp only [FieldUse.nested?_merge]
        -- only if all three have selections is something left that the induction has to say
        cases hadded : field.nested? with
        | none => simp
        | some added =>
          cases hbefore : known.nested? with
          | none => simp
          | some before =>
            have hinner := ihFields field hfield added hadded (hknown before hbefore)
              (hthirdFields field hfield added hadded)
            cases other.nested? <;> simp [hinner]
    · simp only [parts_merge, mergeParts_eq_unite]
      refine Keyed.unite_assoc (fun part => part.2.Distinct) fst_joinPart hpartNames hparts ?_
        first.parts
      intro part hpart
      refine ⟨hthirdParts part hpart, fun known hknown => hknown.merge (hthirdParts part hpart), ?_⟩
      intro known hknown other
      exact Prod.ext rfl (ihParts part hpart hknown (hthirdParts part hpart) other.2)

/-- So are parts that are added. Types may be repeated among those that are added last. -/
theorem mergeParts_assoc {second third : List (String × Usage)}
    (hnames : (second.map Prod.fst).Nodup) (hsecond : ∀ part ∈ second, part.2.Distinct)
    (hthird : ∀ part ∈ third, part.2.Distinct) (first : List (String × Usage)) :
    mergeParts (mergeParts first second) third = mergeParts first (mergeParts second third) := by
  simp only [mergeParts_eq_unite]
  refine Keyed.unite_assoc (fun part => part.2.Distinct) fst_joinPart hnames hsecond ?_ first
  intro part hpart
  have hadded := hthird part hpart
  refine ⟨hadded, fun known hknown => hknown.merge hadded, ?_⟩
  exact fun known hknown other => Prod.ext rfl (merge_assoc hknown hadded other.2)

/-! ## What is found in a union -/

/-- The field of this name in the usage that a path leads to. -/
def fieldAt? (usage : Usage) (path : List Step) (name : String) : Option FieldUse :=
  (usage.at? path).bind fun inner => inner.field? name

/-- The arguments of a field in the usage that a path leads to. -/
def arguments? (usage : Usage) (path : List Step) (name : String) : Option Arguments :=
  (usage.at? path).bind fun inner => (inner.field? name).map FieldUse.arguments

section

variable {new : Usage} (hnew : new.Distinct) (old : Usage)

include hnew

/-- The field of a name is that of one of the usages, or that of both united. -/
theorem field?_merge (name : String) :
    (old.merge new).field? name = Option.merge FieldUse.merge (old.field? name) (new.field? name) := by
  obtain ⟨⟨hnames, -⟩, -⟩ := distinct_iff.1 hnew
  unfold field?
  rw [fields_merge, mergeFields_eq_unite]
  exact Keyed.find?_unite FieldUse.name_merge hnames old.fields name

/-- So is the part of a type. -/
theorem part?_merge (typeName : String) :
    (old.merge new).part? typeName =
      Option.merge Usage.merge (old.part? typeName) (new.part? typeName) := by
  obtain ⟨⟨-, hnames⟩, -⟩ := distinct_iff.1 hnew
  have hfind := Keyed.find?_unite fst_joinPart hnames old.parts typeName
  unfold part?
  simp only [Keyed.lookup_eq_map_find?]
  rw [parts_merge, mergeParts_eq_unite, hfind]
  cases old.parts.find? fun part => part.1 = typeName <;>
    cases new.parts.find? fun part => part.1 = typeName <;> rfl

/-- So is what a step leads to. -/
theorem step?_merge (step : Step) :
    (old.merge new).step? step = Option.merge Usage.merge (old.step? step) (new.step? step) := by
  cases step with
  | part typeName => exact part?_merge hnew old typeName
  | field name =>
    unfold step?
    dsimp only
    rw [field?_merge hnew]
    cases old.field? name <;> cases new.field? name <;> simp [FieldUse.nested?_merge]

end

/-- Names are distinct wherever a step leads. -/
theorem Distinct.step? {usage inner : Usage} (h : usage.Distinct) {step : Step}
    (hinner : usage.step? step = some inner) : inner.Distinct := by
  obtain ⟨-, hfields, hparts⟩ := distinct_iff.1 h
  cases step with
  | field name =>
    obtain ⟨field, hfield, hnested⟩ := Option.bind_eq_some_iff.1 hinner
    exact hfields field (List.mem_of_find?_eq_some hfield) inner hnested
  | part typeName => exact hparts (typeName, inner) (Keyed.mem_of_lookup hinner)

/-- **What a path leads to in a union**: what it leads to in one of the usages, or the union of what it
leads to in both. -/
theorem at?_merge {new : Usage} (hnew : new.Distinct) (old : Usage) (path : List Step) :
    (old.merge new).at? path = Option.merge Usage.merge (old.at? path) (new.at? path) := by
  induction path generalizing old new with
  | nil => rfl
  | cons step rest ih =>
    simp only [at?]
    rw [step?_merge hnew]
    cases hadded : new.step? step with
    | none => cases old.step? step <;> simp
    | some added =>
      cases hknown : old.step? step with
      | none => simp
      | some known => exact ih (hnew.step? hadded) known

theorem Distinct.at? {usage inner : Usage} (h : usage.Distinct) {path : List Step}
    (hinner : usage.at? path = some inner) : inner.Distinct := by
  induction path generalizing usage with
  | nil => cases hinner; exact h
  | cons step rest ih =>
    obtain ⟨first, hfirst, hrest⟩ := Option.bind_eq_some_iff.1 hinner
    exact ih (h.step? hfirst) hrest

/-- **The field at a path in a union**: that of one of the usages, or that of both united. -/
theorem fieldAt?_merge {new : Usage} (hnew : new.Distinct) (old : Usage) (path : List Step)
    (name : String) :
    (old.merge new).fieldAt? path name =
      Option.merge FieldUse.merge (old.fieldAt? path name) (new.fieldAt? path name) := by
  unfold fieldAt?
  rw [at?_merge hnew]
  cases hadded : new.at? path with
  | none => cases old.at? path <;> simp
  | some added =>
    cases old.at? path with
    | none => simp
    | some known => exact field?_merge (hnew.at? hadded) known name

theorem arguments?_eq_map_fieldAt? (usage : Usage) (path : List Step) (name : String) :
    usage.arguments? path name = (usage.fieldAt? path name).map FieldUse.arguments :=
  (Option.map_bind ..).symm

/-- **The arguments of a field in a union**: those in one of the usages, or the newer ones of both. -/
theorem arguments?_merge {new : Usage} (hnew : new.Distinct) (old : Usage) (path : List Step)
    (name : String) :
    (old.merge new).arguments? path name =
      Option.merge Arguments.newer (old.arguments? path name) (new.arguments? path name) := by
  simp only [arguments?_eq_map_fieldAt?]
  rw [fieldAt?_merge hnew]
  cases old.fieldAt? path name <;> cases new.fieldAt? path name <;> simp [FieldUse.arguments_merge]

end Usage

/-! ## Tables -/

namespace UsageTable

/-- The table as a usage that has a part for each type. -/
def toUsage (table : UsageTable) : Usage := .mk [] table.entries

theorem toUsage_mergeAll (table other : UsageTable) :
    (table.mergeAll other).toUsage = table.toUsage.merge other.toUsage := by
  refine Usage.eq_of_parts ?_ ?_
  · rw [Usage.fields_merge]
    show [] = Usage.mergeFields [] []
    rw [Usage.mergeFields]
  · rw [Usage.parts_merge]
    exact entries_mergeEntries table other.entries

theorem Distinct.toUsage {table : UsageTable} (h : table.Distinct) : table.toUsage.Distinct :=
  Usage.distinct_iff.2 ⟨⟨List.nodup_nil, h.types⟩, by simp [UsageTable.toUsage, Usage.fields], h.usages⟩

/-- **Entries may be added to a table** before all of it is added to another one, or after. -/
theorem mergeAll_mergeEntries {other : UsageTable} (hother : other.Distinct)
    {entries : List (String × Usage)} (hentries : ∀ entry ∈ entries, entry.2.Distinct)
    (table : UsageTable) :
    table.mergeAll (other.mergeEntries entries) = (table.mergeAll other).mergeEntries entries := by
  have hassoc := Usage.mergeParts_assoc hother.types hother.usages hentries table.entries
  simp only [← entries_mergeEntries] at hassoc
  exact congrArg UsageTable.mk hassoc.symm

end UsageTable

end SelectionRecall
