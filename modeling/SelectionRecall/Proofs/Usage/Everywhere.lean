import SelectionRecall.Proofs.Usage.Reading

/-!
# What holds at every depth

A usage holds usages beneath its fields and in its parts. Whatever all ways of putting usages together
keep holds at every depth of each usage that documents show. Two such facts are that names are
distinct, as they are in a map, and that no argument mentions a variable.

* `Usage.Everywhere`: a usage has a property, and so has every usage in it.
* `Usage.Stable`: a property that all ways of putting usages together keep.
* `Usage.Everywhere.merge`, `Usage.Stable.everywhere_usages`: unions and documents.
* `Usage.Distinct`, `Usage.VariableFree`, `Usage.distinct_stable`, `Usage.variableFree_stable`.
-/

namespace SelectionRecall

/-- The usage has the property, and so have all usages beneath its fields and in its parts. -/
inductive Usage.Everywhere (Local : Usage → Prop) : Usage → Prop
  | intro {usage} :
    Local usage →
    (∀ field ∈ usage.fields, ∀ nested, field.nested? = some nested → Everywhere Local nested) →
    (∀ part ∈ usage.parts, Everywhere Local part.2) → Everywhere Local usage

/-- All ways of putting usages together keep the property. -/
structure Usage.Stable (Local : Usage → Prop) : Prop where
  empty : Local .empty
  field : ∀ name nested? arguments,
    Local (.ofField ((FieldUse.mk name [] nested?).withArguments arguments))
  part : ∀ typeName part, Local (.ofPart typeName part)
  merge : ∀ {old new : Usage}, Local old → Local new → Local (old.merge new)

@[simp]
theorem FieldUse.name_withArguments (field : FieldUse) (arguments : Arguments) :
    (field.withArguments arguments).name = field.name := by
  unfold withArguments
  split
  · rfl
  · rfl

@[simp]
theorem FieldUse.nested?_withArguments (field : FieldUse) (arguments : Arguments) :
    (field.withArguments arguments).nested? = field.nested? := by
  unfold withArguments
  split
  · rfl
  · rfl

/-- Arguments that mention a variable are not taken in at all. -/
theorem FieldUse.mentionVariable_withArguments {field : FieldUse}
    (h : field.arguments.mentionVariable = false) (arguments : Arguments) :
    (field.withArguments arguments).arguments.mentionVariable = false := by
  unfold withArguments
  split
  · exact h
  · rename_i hfree
    rwa [Bool.not_eq_true] at hfree

namespace Usage

variable {Local : Usage → Prop}

theorem everywhere_iff {usage : Usage} :
    usage.Everywhere Local ↔ Local usage ∧
      (∀ field ∈ usage.fields, ∀ nested, field.nested? = some nested → nested.Everywhere Local) ∧
      ∀ part ∈ usage.parts, part.2.Everywhere Local := by
  constructor
  · rintro ⟨hlocal, hfields, hparts⟩
    exact ⟨hlocal, hfields, hparts⟩
  · rintro ⟨hlocal, hfields, hparts⟩
    exact ⟨hlocal, hfields, hparts⟩

/-- What follows from it at each depth holds at every depth. -/
theorem Everywhere.mono {Weaker : Usage → Prop} (hmono : ∀ {usage : Usage}, Local usage → Weaker usage)
    {usage : Usage} (h : usage.Everywhere Local) : usage.Everywhere Weaker := by
  induction h with
  | intro hlocal _ _ ihFields ihParts => exact .intro (hmono hlocal) ihFields ihParts

/-- **Unions keep what holds at every depth.** -/
theorem Everywhere.merge
    (hmerge : ∀ {old new : Usage}, Local old → Local new → Local (old.merge new))
    {old new : Usage} (hold : old.Everywhere Local) (hnew : new.Everywhere Local) :
    (old.merge new).Everywhere Local := by
  induction new using Usage.induction generalizing old with
  | step new ihFields ihParts =>
    obtain ⟨holdLocal, holdFields, holdParts⟩ := everywhere_iff.1 hold
    obtain ⟨hnewLocal, hnewFields, hnewParts⟩ := everywhere_iff.1 hnew
    refine everywhere_iff.2 ⟨hmerge holdLocal hnewLocal, ?_, ?_⟩
    · rw [fields_merge]
      refine forall_mem_mergeFields ?_ holdFields hnewFields
      intro field hfield known _ hknown nested hnested
      rcases FieldUse.nested?_merge_eq_some.1 hnested with
        ⟨-, hbefore⟩ | ⟨-, hadded⟩ | ⟨first, second, hbefore, hadded, rfl⟩
      · exact hknown nested hbefore
      · exact hnewFields field hfield nested hadded
      · exact ihFields field hfield second hadded (hknown first hbefore)
          (hnewFields field hfield second hadded)
    · rw [parts_merge]
      refine forall_mem_mergeParts ?_ holdParts hnewParts
      exact fun part hpart known _ hknown => ihParts part hpart hknown (hnewParts part hpart)

namespace Stable

theorem everywhere_empty (h : Stable Local) : Usage.empty.Everywhere Local :=
  everywhere_iff.2 ⟨h.empty, by simp, by simp⟩

theorem everywhere_ofField (h : Stable Local) (name : String) {nested? : Option Usage}
    (hnested : ∀ nested, nested? = some nested → nested.Everywhere Local) (arguments : Arguments) :
    (ofField ((FieldUse.mk name [] nested?).withArguments arguments)).Everywhere Local := by
  refine everywhere_iff.2 ⟨h.field name nested? arguments, ?_, by simp⟩
  intro field hfield nested hsome
  rw [List.mem_singleton.1 hfield, FieldUse.nested?_withArguments] at hsome
  exact hnested nested hsome

theorem everywhere_ofPart (h : Stable Local) (typeName : String) {part : Usage}
    (hpart : part.Everywhere Local) : (ofPart typeName part).Everywhere Local :=
  everywhere_iff.2 ⟨h.part typeName part, by simp, by simpa using hpart⟩

/-- Reading keeps what holds at every depth of all usages. -/
theorem keptByReading (h : Stable Local) (schema : Schema) :
    schema.KeptByReading fun _ observed => observed.usage.Everywhere Local ∧
      ∀ entry ∈ observed.seen, entry.2.Everywhere Local := by
  have hseen : ∀ {observed : Observed} (typeName : String),
      (observed.usage.Everywhere Local ∧ ∀ entry ∈ observed.seen, entry.2.Everywhere Local) →
        ∀ entry ∈ observed.seen ++ [(typeName, observed.usage)], entry.2.Everywhere Local :=
    fun _ hinner => List.forall_mem_append.2 ⟨hinner.2, by simpa using hinner.1⟩
  refine .of_steps ?_ ?_ ?_ ?_ ?_ ?_ ?_
  · exact fun _ => ⟨h.everywhere_empty, by simp [Observed.nothing]⟩
  · exact fun arguments _ => ⟨h.everywhere_ofField _ (by simp) arguments, by simp⟩
  · exact fun _ hinner => ⟨h.everywhere_empty, hinner.2⟩
  · exact fun arguments _ hinner =>
      ⟨h.everywhere_ofField _ (by simpa using hinner.1) arguments, hseen _ hinner⟩
  · exact fun _ hinner => ⟨hinner.1, hseen _ hinner⟩
  · exact fun _ _ hinner => ⟨h.everywhere_ofPart _ hinner.1, hseen _ hinner⟩
  · exact fun hfirst hsecond =>
      ⟨hfirst.1.merge h.merge hsecond.1, List.forall_mem_append.2 ⟨hfirst.2, hsecond.2⟩⟩

/-- **What documents show** has the property at every depth. -/
theorem everywhere_usages (h : Stable Local) (document : Document) (schema : Schema) :
    ∀ entry ∈ (document.usages schema).entries, entry.2.Everywhere Local := by
  have hseen : ∀ typeName selections,
      ∀ entry ∈ (schema.observe document typeName selections).seen, entry.2.Everywhere Local :=
    fun typeName selections => ((h.keptByReading schema).observe document typeName selections).2
  exact @UsageTable.forall_mem_usages (fun _ usage => usage.Everywhere Local)
    (fun hold hnew => hold.merge h.merge hnew) document schema hseen

end Stable

/-! ## Distinct names -/

/-- The names of the fields, in order. -/
def fieldNames (usage : Usage) : List String := usage.fields.map FieldUse.name

/-- The names of the types of the parts, in order. -/
def partNames (usage : Usage) : List String := usage.parts.map Prod.fst

/-- No two fields of one name and no two parts of one type stand side by side at any depth. -/
def Distinct : Usage → Prop :=
  Everywhere fun usage => usage.fieldNames.Nodup ∧ usage.partNames.Nodup

/-- Names stay distinct. -/
theorem distinct_stable :
    Stable fun usage : Usage => usage.fieldNames.Nodup ∧ usage.partNames.Nodup where
  empty := by decide
  field name nested? arguments := by simp [fieldNames, partNames]
  part typeName part := by simp [fieldNames, partNames]
  merge {old new} hold hnew := by
    unfold fieldNames partNames at *
    rw [fields_merge, parts_merge]
    exact ⟨nodup_map_mergeFields hold.1 _, nodup_map_mergeParts hold.2 _⟩

theorem Distinct.merge {old new : Usage} (hold : old.Distinct) (hnew : new.Distinct) :
    (old.merge new).Distinct := Everywhere.merge distinct_stable.merge hold hnew

/-! ## Arguments without variables -/

/-- What holds of the arguments of all fields of two usages holds of those in their union. -/
theorem forall_arguments_merge (Holds : Arguments → Prop) {old new : Usage}
    (hold : ∀ field ∈ old.fields, Holds field.arguments)
    (hnew : ∀ field ∈ new.fields, Holds field.arguments) :
    ∀ field ∈ (old.merge new).fields, Holds field.arguments := by
  rw [fields_merge]
  refine forall_mem_mergeFields ?_ hold hnew
  intro field hfield known _ hknown
  rw [FieldUse.arguments_merge]
  unfold Arguments.newer
  split
  · exact hknown
  · exact hnew field hfield

/-- No argument of a field at any depth mentions a variable. -/
def VariableFree : Usage → Prop :=
  Everywhere fun usage => ∀ field ∈ usage.fields, field.arguments.mentionVariable = false

/-- Arguments stay free of variables. -/
theorem variableFree_stable :
    Stable fun usage : Usage => ∀ field ∈ usage.fields, field.arguments.mentionVariable = false where
  empty := by simp
  field name nested? arguments := by
    have hfree : (FieldUse.mk name [] nested?).arguments.mentionVariable = false := rfl
    simpa using FieldUse.mentionVariable_withArguments hfree arguments
  part typeName part := by simp
  merge hold hnew := forall_arguments_merge (·.mentionVariable = false) hold hnew

/-- The fields alone are as free of variables as the usage. -/
theorem VariableFree.unconditional {usage : Usage} (h : usage.VariableFree) :
    usage.unconditional.VariableFree := by
  obtain ⟨hlocal, hfields, -⟩ := everywhere_iff.1 h
  exact everywhere_iff.2 ⟨hlocal, hfields, by simp [Usage.unconditional, Usage.parts]⟩

end Usage

/-- No usage in the table mentions a variable. -/
def UsageTable.VariableFree (table : UsageTable) : Prop :=
  ∀ entry ∈ table.entries, entry.2.VariableFree

/-- What a document shows may be added. -/
theorem UsageTable.VariableFree.mergeAll_usages {table : UsageTable} (h : table.VariableFree)
    (document : Document) (schema : Schema) :
    (table.mergeAll (document.usages schema)).VariableFree :=
  @forall_mem_mergeEntries (fun _ usage => usage.VariableFree)
    (fun hold hnew => hold.merge Usage.variableFree_stable.merge hnew) table h _
    (Usage.variableFree_stable.everywhere_usages document schema)

end SelectionRecall
