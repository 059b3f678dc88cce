import SelectionRecall.Proofs.Usage.Union

/-!
# What the operations build

Usages, uses of fields and tables are put together by operations only, and whatever is taken out of them
may be put into others again. A property of usages that each of the operations keeps holds at every depth
of all that is built. So it is with distinct names and with arguments that mention no variable: nothing
that is built can be without them.

* `FieldUse.Built`, `Usage.Built`, `UsageTable.Built`: what the operations build.
* `Usage.Lasting`: a property that all ways of putting usages together and of taking them apart keep.
* `Usage.Built.everywhere`: what is built has the property at every depth.
* `Usage.Built.distinct`, `Usage.Built.variableFree`, `UsageTable.Built.distinct`.
-/

namespace SelectionRecall

mutual

/-- Uses of fields that the operations build. -/
inductive FieldUse.Built : FieldUse → Prop
  | leaf (name : String) : FieldUse.Built (.leaf name)
  | nested {usage} (name : String) : Usage.Built usage → FieldUse.Built (.nested name usage)
  | withArguments {field} (arguments : Arguments) :
    FieldUse.Built field → FieldUse.Built (field.withArguments arguments)
  | merge {old new} : FieldUse.Built old → FieldUse.Built new → FieldUse.Built (old.merge new)
  | known {usage field} : Usage.Built usage → field ∈ usage.fields → FieldUse.Built field

/-- Usages that the operations build. -/
inductive Usage.Built : Usage → Prop
  | empty : Usage.Built .empty
  | addField {usage field} :
    Usage.Built usage → FieldUse.Built field → Usage.Built (usage.addField field)
  | addPart {usage part} (typeName : String) :
    Usage.Built usage → Usage.Built part → Usage.Built (usage.addPart typeName part)
  | merge {old new} : Usage.Built old → Usage.Built new → Usage.Built (old.merge new)
  | unconditional {usage} : Usage.Built usage → Usage.Built usage.unconditional
  | beneath {field nested} :
    FieldUse.Built field → field.nested? = some nested → Usage.Built nested
  | part {usage part} : Usage.Built usage → part ∈ usage.parts → Usage.Built part.2
  | entry {table entry} : UsageTable.Built table → entry ∈ table.entries → Usage.Built entry.2

/-- Tables that the operations build, the reading of documents among them. -/
inductive UsageTable.Built : UsageTable → Prop
  | empty : UsageTable.Built .empty
  | merge {table usage} (typeName : String) :
    UsageTable.Built table → Usage.Built usage → UsageTable.Built (table.merge typeName usage)
  | mergeAll {table other} :
    UsageTable.Built table → UsageTable.Built other → UsageTable.Built (table.mergeAll other)
  | shown (document : Document) (schema : Schema) : UsageTable.Built (document.usages schema)

end

namespace FieldUse

/-- The same use of a field of another name. -/
def renamed (field : FieldUse) (name : String) : FieldUse := .mk name field.arguments field.nested?

@[simp]
theorem arguments_renamed (field : FieldUse) (name : String) :
    (field.renamed name).arguments = field.arguments := rfl

@[simp]
theorem nested?_renamed (field : FieldUse) (name : String) :
    (field.renamed name).nested? = field.nested? := rfl

theorem renamed_name (field : FieldUse) : field.renamed field.name = field := by
  cases field; rfl

/-- Uses of fields of whatever names are united as usages of one field. -/
theorem ofField_renamed_merge (old new : FieldUse) (name : String) :
    Usage.ofField ((old.merge new).renamed name) =
      (Usage.ofField (old.renamed name)).merge (.ofField (new.renamed name)) := by
  have hmerge : (old.merge new).renamed name = (old.renamed name).merge (new.renamed name) := by
    refine eq_of_parts ?_ ?_ ?_
    · rw [name_merge]; rfl
    · simp [arguments_merge]
    · simp [nested?_merge]
  rw [hmerge]
  refine Usage.eq_of_parts ?_ ?_
  · rw [Usage.fields_merge, Usage.mergeFields_eq_unite]
    exact (if_pos rfl).symm
  · rw [Usage.parts_merge, Usage.mergeParts_eq_unite]; rfl

end FieldUse

namespace Usage

/-- All ways of putting usages together keep the property, and so do those of taking them apart. -/
structure Lasting (Local : Usage → Prop) : Prop extends Stable Local where
  unconditional : ∀ {usage : Usage}, Local usage → Local usage.unconditional
  single : ∀ {usage : Usage} {field : FieldUse}, Local usage → field ∈ usage.fields →
    ∀ name, Local (.ofField (field.renamed name))

end Usage

variable {Local : Usage → Prop}

mutual

/-- **What is built has the property at every depth**, here uses of fields under whatever names. -/
theorem FieldUse.Built.everywhere (h : Usage.Lasting Local) (name : String) :
    ∀ {field : FieldUse}, field.Built → (Usage.ofField (field.renamed name)).Everywhere Local
  | _, .leaf _ => by
    have hnothing : ∀ nested : Usage, none = some nested → nested.Everywhere Local :=
      fun _ hnested => nomatch hnested
    exact h.everywhere_ofField name hnothing []
  | _, @FieldUse.Built.nested usage _ husage => by
    have hnested : ∀ nested, some usage = some nested → nested.Everywhere Local :=
      fun nested hnested => Option.some.inj hnested ▸ husage.everywhere h
    exact h.everywhere_ofField name hnested []
  | _, .withArguments arguments hfield => by
    have hbefore := hfield.everywhere h name
    unfold FieldUse.withArguments
    split
    · exact hbefore
    · rename_i hfree
      obtain ⟨-, hfields, -⟩ := Usage.everywhere_iff.1 hbefore
      have hnested := hfields _ (List.mem_singleton_self _)
      have hadded := h.everywhere_ofField name hnested arguments
      unfold FieldUse.withArguments at hadded
      rwa [if_neg hfree] at hadded
  | _, .merge hold hnew => by
    rw [FieldUse.ofField_renamed_merge]
    exact (hold.everywhere h name).merge h.merge (hnew.everywhere h name)
  | _, .known husage hmem => by
    obtain ⟨hlocal, hfields, -⟩ := Usage.everywhere_iff.1 (husage.everywhere h)
    exact Usage.everywhere_iff.2 ⟨h.single hlocal hmem name, by simpa using hfields _ hmem, by simp⟩

/-- So it is with usages. -/
theorem Usage.Built.everywhere (h : Usage.Lasting Local) :
    ∀ {usage : Usage}, usage.Built → usage.Everywhere Local
  | _, .empty => h.everywhere_empty
  | _, @Usage.Built.addField _ field husage hfield => by
    have hadded := hfield.everywhere h field.name
    rw [FieldUse.renamed_name] at hadded
    exact (husage.everywhere h).merge h.merge hadded
  | _, .addPart typeName husage hpart =>
    (husage.everywhere h).merge h.merge (h.everywhere_ofPart typeName (hpart.everywhere h))
  | _, .merge hold hnew => (hold.everywhere h).merge h.merge (hnew.everywhere h)
  | _, .unconditional husage => by
    obtain ⟨hlocal, hfields, -⟩ := Usage.everywhere_iff.1 (husage.everywhere h)
    refine Usage.everywhere_iff.2 ⟨h.unconditional hlocal, hfields, ?_⟩
    simp [Usage.unconditional, Usage.parts]
  | _, @Usage.Built.beneath field nested hfield hnested => by
    obtain ⟨-, hfields, -⟩ := Usage.everywhere_iff.1 (hfield.everywhere h field.name)
    exact hfields _ (List.mem_singleton_self _) nested hnested
  | _, .part husage hmem => (Usage.everywhere_iff.1 (husage.everywhere h)).2.2 _ hmem
  | _, .entry htable hmem => htable.everywhere h _ hmem

/-- And with the usages in tables. -/
theorem UsageTable.Built.everywhere (h : Usage.Lasting Local) :
    ∀ {table : UsageTable}, table.Built → ∀ entry ∈ table.entries, entry.2.Everywhere Local
  | _, .empty => by simp [UsageTable.empty]
  | _, @UsageTable.Built.merge table usage typeName htable husage => by
    refine @UsageTable.forall_mem_mergeEntries (fun _ usage => usage.Everywhere Local)
      (fun hold hnew => hold.merge h.merge hnew) table (htable.everywhere h) [(typeName, usage)] ?_
    exact List.forall_mem_singleton.2 (husage.everywhere h)
  | _, .mergeAll htable hother =>
    @UsageTable.forall_mem_mergeEntries (fun _ usage => usage.Everywhere Local)
      (fun hold hnew => hold.merge h.merge hnew) _ (htable.everywhere h) _ (hother.everywhere h)
  | _, .shown document schema => h.everywhere_usages document schema

end

namespace Usage

/-- Names last. -/
theorem distinct_lasting :
    Lasting fun usage : Usage => usage.fieldNames.Nodup ∧ usage.partNames.Nodup where
  toStable := distinct_stable
  unconditional h := ⟨h.1, List.nodup_nil⟩
  single _ _ name := by simp [fieldNames, partNames]

/-- And so does the lack of variables. -/
theorem variableFree_lasting :
    Lasting fun usage : Usage => ∀ field ∈ usage.fields, field.arguments.mentionVariable = false where
  toStable := variableFree_stable
  unconditional h := h
  single h hmem name := by simpa using h _ hmem

variable {usage : Usage}

/-- **Names are distinct** in what is built. -/
theorem Built.distinct (h : usage.Built) : usage.Distinct := h.everywhere distinct_lasting

/-- **No argument mentions a variable** in what is built. -/
theorem Built.variableFree (h : usage.Built) : usage.VariableFree := h.everywhere variableFree_lasting

end Usage

/-- A single field is built. -/
theorem Usage.Built.ofField {field : FieldUse} (h : field.Built) : (Usage.ofField field).Built := by
  have hsingle : Usage.empty.addField field = .ofField field :=
    Usage.eq_of_parts (Usage.fields_addField .empty field) (Usage.parts_addField .empty field)
  exact hsingle ▸ .addField .empty h

/-- **Tables that are built are like maps.** -/
theorem UsageTable.Built.distinct {table : UsageTable} : table.Built → table.Distinct
  | .empty => UsageTable.distinct_empty
  | .merge typeName htable husage => htable.distinct.merge husage.distinct typeName
  | .mergeAll htable hother => htable.distinct.mergeAll hother.distinct
  | .shown document schema => document.distinct_usages schema

end SelectionRecall
