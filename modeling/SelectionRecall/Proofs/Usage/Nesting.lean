import SelectionRecall.Proofs.Schema.Possible
import SelectionRecall.Proofs.Usage.Growth

/-!
# Usages inside usages

What is read beneath a field or in a fragment is recorded twice: in the usage around it, and as a usage
of its own type. The two are united with others at different times, and yet the entry of a type always
covers all usages of it that lie in other entries. The invariant is local: each field leads to a usage
that the entry of its type covers, and so does each part. Unions keep it because what covers two usages
covers their union, and a table that grows keeps it because it covers all that it covered before.

* `Usage.Contains`: the usages in a usage, each with the type that it is of.
* `Usage.Throughout`, `Usage.Throughout.merge`: what holds of all of them, and what unions keep.
* `UsageTable.Covers`, `Usage.Recorded`: what a table covers, and usages with all that is in them.
* `UsageTable.Nested`, `Document.nested_usages`: tables that are closed under nesting, such as what a
  document shows.
* `UsageTable.Nested.mergeAll`: unions of such tables.
-/

namespace SelectionRecall

/-! ## The usages in a usage -/

/-- A usage of a type contains itself. It contains what the usages beneath its fields contain, which
are of the types that the fields return, and what its parts contain, which are of their own types. -/
inductive Usage.Contains (schema : Schema) : String → Usage → String → Usage → Prop
  | self {typeName usage} : Contains schema typeName usage typeName usage
  | field {typeName usage field returned nested innerType inner} :
    field ∈ usage.fields → schema.fieldType? typeName field.name = some returned →
    field.nested? = some nested → Contains schema returned nested innerType inner →
    Contains schema typeName usage innerType inner
  | part {typeName usage part innerType inner} :
    part ∈ usage.parts → Contains schema part.1 part.2 innerType inner →
    Contains schema typeName usage innerType inner

namespace Usage

/-- The property holds of the usage of a type, and of all usages in it at their types. -/
def Throughout (schema : Schema) (Local : String → Usage → Prop) (typeName : String)
    (usage : Usage) : Prop :=
  ∀ innerType inner, usage.Contains schema typeName innerType inner → Local innerType inner

section

variable {schema : Schema} {Local : String → Usage → Prop} {typeName : String}

theorem throughout_iff {usage : Usage} :
    usage.Throughout schema Local typeName ↔
      Local typeName usage ∧
        (∀ field ∈ usage.fields, ∀ returned nested,
          schema.fieldType? typeName field.name = some returned → field.nested? = some nested →
          nested.Throughout schema Local returned) ∧
        ∀ part ∈ usage.parts, part.2.Throughout schema Local part.1 := by
  constructor
  · intro h
    refine ⟨h typeName usage .self, ?_, ?_⟩
    · intro field hfield returned nested hreturned hnested innerType inner hinner
      exact h innerType inner (.field hfield hreturned hnested hinner)
    · intro part hpart innerType inner hinner
      exact h innerType inner (.part hpart hinner)
  · rintro ⟨hlocal, hfields, hparts⟩ innerType inner hinner
    cases hinner with
    | self => exact hlocal
    | field hfield hreturned hnested hdeep =>
      exact hfields _ hfield _ _ hreturned hnested innerType inner hdeep
    | part hpart hdeep => exact hparts _ hpart innerType inner hdeep

theorem Throughout.mono {Weaker : String → Usage → Prop} {usage : Usage}
    (h : usage.Throughout schema Local typeName)
    (hweaker : ∀ {innerType inner}, Local innerType inner → Weaker innerType inner) :
    usage.Throughout schema Weaker typeName :=
  fun innerType inner hinner => hweaker (h innerType inner hinner)

theorem throughout_empty_iff :
    Usage.empty.Throughout schema Local typeName ↔ Local typeName .empty := by
  rw [throughout_iff]; simp

theorem throughout_ofField_iff {field : FieldUse} :
    (ofField field).Throughout schema Local typeName ↔
      Local typeName (ofField field) ∧
        ∀ returned nested, schema.fieldType? typeName field.name = some returned →
          field.nested? = some nested → nested.Throughout schema Local returned := by
  rw [throughout_iff]; simp

theorem throughout_ofPart_iff {condition : String} {part : Usage} :
    (ofPart condition part).Throughout schema Local typeName ↔
      Local typeName (ofPart condition part) ∧ part.Throughout schema Local condition := by
  rw [throughout_iff]; simp

/-- **Unions keep what holds of all usages in them.** -/
theorem Throughout.merge
    (hmerge : ∀ {typeName old new}, Local typeName old → Local typeName new →
      Local typeName (old.merge new))
    {old new : Usage} (hold : old.Throughout schema Local typeName)
    (hnew : new.Throughout schema Local typeName) :
    (old.merge new).Throughout schema Local typeName := by
  induction new using Usage.induction generalizing old typeName with
  | step new ihFields ihParts =>
    obtain ⟨holdLocal, holdFields, holdParts⟩ := throughout_iff.1 hold
    obtain ⟨hnewLocal, hnewFields, hnewParts⟩ := throughout_iff.1 hnew
    refine throughout_iff.2 ⟨hmerge holdLocal hnewLocal, ?_, ?_⟩
    · rw [fields_merge]
      refine forall_mem_mergeFields ?_ holdFields hnewFields
      intro field hfield known hname hknown returned nested hreturned hnested
      rw [FieldUse.name_merge] at hreturned
      have hsame : schema.fieldType? typeName field.name = some returned := by
        rwa [← hname]
      rcases FieldUse.nested?_merge_eq_some.1 hnested with
        ⟨-, hfirst⟩ | ⟨-, hsecond⟩ | ⟨first, second, hfirst, hsecond, rfl⟩
      · exact hknown returned nested hreturned hfirst
      · exact hnewFields field hfield returned nested hsame hsecond
      · exact ihFields field hfield second hsecond (hknown returned first hreturned hfirst)
          (hnewFields field hfield returned second hsame hsecond)
    · rw [parts_merge]
      refine forall_mem_mergeParts ?_ holdParts hnewParts
      intro part hpart known hname hknown
      have hadded := hnewParts part hpart
      rw [← hname] at hadded
      exact ihParts part hpart hknown hadded

/-- It holds of all usages in a union just if it holds of all that are in the two usages. -/
theorem throughout_merge_iff
    (hmerge : ∀ {typeName old new},
      Local typeName (old.merge new) ↔ Local typeName old ∧ Local typeName new)
    {old new : Usage} :
    (old.merge new).Throughout schema Local typeName ↔
      old.Throughout schema Local typeName ∧ new.Throughout schema Local typeName := by
  induction new using Usage.induction generalizing old typeName with
  | step new ihFields ihParts =>
    -- a field of both usages is one field of the union, at the same type, and so with parts
    have hfield : ∀ field ∈ new.fields, ∀ known : FieldUse, known.name = field.name →
        ((∀ returned nested, schema.fieldType? typeName (known.merge field).name = some returned →
            (known.merge field).nested? = some nested → nested.Throughout schema Local returned) ↔
          (∀ returned nested, schema.fieldType? typeName known.name = some returned →
            known.nested? = some nested → nested.Throughout schema Local returned) ∧
          ∀ returned nested, schema.fieldType? typeName field.name = some returned →
            field.nested? = some nested → nested.Throughout schema Local returned) := by
      intro field hfield known hname
      rw [FieldUse.name_merge, hname, ← forall_and]
      refine forall_congr' fun returned => ?_
      by_cases hreturned : schema.fieldType? typeName field.name = some returned
      · simp only [hreturned, true_implies, FieldUse.nested?_merge_eq_some]
        cases hadded : field.nested? with
        | none => simp
        | some second =>
          cases hbefore : known.nested? with
          | none => simp
          | some first => simpa using @ihFields field hfield second hadded returned first
      · simp [hreturned]
    have hpart : ∀ part ∈ new.parts, ∀ known : String × Usage, known.1 = part.1 →
        ((known.2.merge part.2).Throughout schema Local known.1 ↔
          known.2.Throughout schema Local known.1 ∧ part.2.Throughout schema Local part.1) := by
      intro part hpart known hname
      rw [hname]
      exact ihParts part hpart
    rw [throughout_iff, throughout_iff, @throughout_iff _ _ _ new, hmerge, fields_merge, parts_merge,
      forall_mem_mergeFields_iff hfield, forall_mem_mergeParts_iff hpart]
    constructor
    · rintro ⟨⟨hold, hnew⟩, ⟨holdFields, hnewFields⟩, holdParts, hnewParts⟩
      exact ⟨⟨hold, holdFields, holdParts⟩, hnew, hnewFields, hnewParts⟩
    · rintro ⟨⟨hold, holdFields, holdParts⟩, hnew, hnewFields, hnewParts⟩
      exact ⟨⟨hold, hnew⟩, ⟨holdFields, hnewFields⟩, holdParts, hnewParts⟩

end

end Usage

/-! ## What is recorded in a table -/

/-- The table has a usage of the type that covers this one. -/
def UsageTable.Covers (table : UsageTable) (typeName : String) (usage : Usage) : Prop :=
  ∃ known, table.get? typeName = some known ∧ known.covers usage = true

/-- What is beneath each field is recorded under the type that the field returns, and each part under
its own type. -/
structure Usage.Recorded (schema : Schema) (table : UsageTable) (typeName : String) (usage : Usage) :
    Prop where
  fields : ∀ field ∈ usage.fields, ∀ nested, field.nested? = some nested →
    ∃ returned, schema.fieldType? typeName field.name = some returned ∧ table.Covers returned nested
  parts : ∀ part ∈ usage.parts, table.Covers part.1 part.2

/-- The usages in the table are recorded in it, at every depth. -/
def UsageTable.Nested (schema : Schema) (table : UsageTable) : Prop :=
  ∀ entry ∈ table.entries, entry.2.Throughout schema (Usage.Recorded schema table) entry.1

variable {schema : Schema} {table : UsageTable} {typeName : String}

namespace UsageTable

/-- What covers two usages covers their union. -/
theorem Covers.merge {old new : Usage} (hold : table.Covers typeName old)
    (hnew : table.Covers typeName new) : table.Covers typeName (old.merge new) := by
  obtain ⟨known, hknown, hcovers⟩ := hold
  obtain ⟨same, hsame, hcovers'⟩ := hnew
  rw [hknown, Option.some.injEq] at hsame
  subst hsame
  exact ⟨known, hknown, Usage.covers_merge hcovers hcovers'⟩

/-- What a table covers it still covers when entries are added. -/
theorem Covers.mergeEntries {usage : Usage} (h : table.Covers typeName usage)
    (entries : List (String × Usage)) : (table.mergeEntries entries).Covers typeName usage := by
  unfold Covers get?
  rw [entries_mergeEntries]
  refine Usage.exists_lookup_mergeParts ?_ h
  exact fun entry _ known hknown => Usage.covers_merge_of_left hknown entry.2

/-- It covers what the added entries cover. -/
theorem covers_mergeEntries_of_mem (table : UsageTable) {entries : List (String × Usage)}
    {added usage : Usage} (hmem : (typeName, added) ∈ entries) (h : added.covers usage = true) :
    (table.mergeEntries entries).Covers typeName usage := by
  unfold Covers get?
  rw [entries_mergeEntries]
  refine Usage.exists_lookup_mergeParts_of_mem ?_ hmem h ?_
  · exact fun entry _ known hknown => Usage.covers_merge_of_left hknown entry.2
  · exact fun known => Usage.covers_merge_of_right known h

/-- What a table covers is covered when all of it is added to another one. -/
theorem Covers.mergeAll_right {usage : Usage} (h : table.Covers typeName usage)
    (before : UsageTable) : (before.mergeAll table).Covers typeName usage := by
  obtain ⟨known, hknown, hcovers⟩ := h
  exact before.covers_mergeEntries_of_mem (Keyed.mem_of_lookup hknown) hcovers

end UsageTable

namespace Usage

theorem recorded_empty : Usage.empty.Recorded schema table typeName :=
  ⟨by simp, by simp⟩

/-- A union of recorded usages is recorded. -/
theorem Recorded.merge {old new : Usage} (hold : old.Recorded schema table typeName)
    (hnew : new.Recorded schema table typeName) : (old.merge new).Recorded schema table typeName := by
  constructor
  · rw [fields_merge]
    refine forall_mem_mergeFields ?_ hold.fields hnew.fields
    intro field hfield known hname hknown nested hnested
    rw [FieldUse.name_merge]
    rcases FieldUse.nested?_merge_eq_some.1 hnested with
      ⟨-, hfirst⟩ | ⟨-, hsecond⟩ | ⟨first, second, hfirst, hsecond, rfl⟩
    · exact hknown nested hfirst
    · rw [hname]; exact hnew.fields field hfield nested hsecond
    · obtain ⟨returned, hreturned, hcovers⟩ := hknown first hfirst
      obtain ⟨same, hsame, hcovers'⟩ := hnew.fields field hfield second hsecond
      rw [← hname, hreturned, Option.some.injEq] at hsame
      subst hsame
      exact ⟨returned, hreturned, hcovers.merge hcovers'⟩
  · rw [parts_merge]
    refine forall_mem_mergeParts ?_ hold.parts hnew.parts
    intro part hpart known hname hknown
    have hadded := hnew.parts part hpart
    rw [← hname] at hadded
    exact hknown.merge hadded

/-- What is recorded in a table is recorded in each that covers as much. -/
theorem Recorded.mono {usage : Usage} (h : usage.Recorded schema table typeName)
    {larger : UsageTable}
    (hcovers : ∀ {name part}, table.Covers name part → larger.Covers name part) :
    usage.Recorded schema larger typeName := by
  constructor
  · intro field hfield nested hnested
    obtain ⟨returned, hreturned, hknown⟩ := h.fields field hfield nested hnested
    exact ⟨returned, hreturned, hcovers hknown⟩
  · exact fun part hpart => hcovers (h.parts part hpart)

/-- A usage that is recorded for an abstract type is so for its implementers, if they return the same
types. -/
theorem Throughout.implementer (hschema : schema.KeepsFieldTypes) {usage : Usage}
    (h : usage.Throughout schema (Recorded schema table) typeName) {object : String}
    (hobject : object ∈ schema.implementers typeName) :
    usage.Throughout schema (Recorded schema table) object := by
  obtain ⟨hlocal, hfields, hparts⟩ := throughout_iff.1 h
  -- only what is recorded has a type on the abstract type, and then the implementer has the same
  have hknown : ∀ field ∈ usage.fields, ∀ nested, field.nested? = some nested →
      ∃ returned, schema.fieldType? typeName field.name = some returned ∧
        schema.fieldType? object field.name = some returned ∧ table.Covers returned nested := by
    intro field hfield nested hnested
    obtain ⟨returned, hreturned, hcovers⟩ := hlocal.fields field hfield nested hnested
    exact ⟨returned, hreturned, hschema typeName object hobject field.name returned hreturned, hcovers⟩
  refine throughout_iff.2 ⟨⟨?_, hlocal.parts⟩, ?_, hparts⟩
  · intro field hfield nested hnested
    obtain ⟨returned, -, hreturned, hcovers⟩ := hknown field hfield nested hnested
    exact ⟨returned, hreturned, hcovers⟩
  · intro field hfield other nested hother hnested
    obtain ⟨returned, habstract, hreturned, -⟩ := hknown field hfield nested hnested
    rw [hreturned, Option.some.injEq] at hother
    subst hother
    exact hfields field hfield returned nested habstract hnested

theorem throughout_ofField {name : String} {nested? : Option Usage}
    (h : ∀ nested, nested? = some nested → ∃ returned,
      schema.fieldType? typeName name = some returned ∧ table.Covers returned nested ∧
        nested.Throughout schema (Recorded schema table) returned) (arguments : Arguments) :
    (ofField ((FieldUse.mk name [] nested?).withArguments arguments)).Throughout schema
      (Recorded schema table) typeName := by
  refine throughout_ofField_iff.2 ⟨⟨?_, by simp⟩, ?_⟩
  · intro field hfield nested hnested
    rw [List.mem_singleton.1 hfield, FieldUse.nested?_withArguments] at hnested
    rw [List.mem_singleton.1 hfield, FieldUse.name_withArguments]
    obtain ⟨returned, hreturned, hcovers, -⟩ := h nested hnested
    exact ⟨returned, hreturned, hcovers⟩
  · intro other nested hother hnested
    rw [FieldUse.nested?_withArguments] at hnested
    rw [FieldUse.name_withArguments] at hother
    obtain ⟨returned, hreturned, -, hinner⟩ := h nested hnested
    have hsame : some returned = some other := hreturned.symm.trans hother
    rwa [Option.some.inj hsame] at hinner

theorem throughout_ofPart {condition : String} {part : Usage} (hcovers : table.Covers condition part)
    (hpart : part.Throughout schema (Recorded schema table) condition) :
    (ofPart condition part).Throughout schema (Recorded schema table) typeName :=
  throughout_ofPart_iff.2 ⟨⟨by simp, by simpa using hcovers⟩, hpart⟩

end Usage

/-! ## What documents show -/

/-- What was read and what was seen is recorded in each table that covers what was seen. -/
def Observed.Recorded (schema : Schema) (typeName : String) (observed : Observed) : Prop :=
  ∀ table : UsageTable, (∀ entry ∈ observed.seen, table.Covers entry.1 entry.2) →
    observed.usage.Throughout schema (Usage.Recorded schema table) typeName ∧
      ∀ entry ∈ observed.seen, entry.2.Throughout schema (Usage.Recorded schema table) entry.1

/-- **Reading records what it nests**, if implementers return the same types. -/
theorem Schema.KeepsFieldTypes.keptByReading (hschema : schema.KeepsFieldTypes) :
    schema.KeptByReading (Observed.Recorded schema) := by
  have hempty : ∀ {typeName : String} {table : UsageTable},
      Usage.empty.Throughout schema (Usage.Recorded schema table) typeName :=
    Usage.throughout_empty_iff.2 Usage.recorded_empty
  -- what was read inside a field or fragment is seen last, after all that was seen in it
  have hlast : ∀ {typeName : String} {inner : Observed}, inner.Recorded schema typeName →
      ∀ {table : UsageTable},
        (∀ entry ∈ inner.seen ++ [(typeName, inner.usage)], table.Covers entry.1 entry.2) →
        table.Covers typeName inner.usage ∧
          inner.usage.Throughout schema (Usage.Recorded schema table) typeName ∧
          ∀ entry ∈ inner.seen ++ [(typeName, inner.usage)],
            entry.2.Throughout schema (Usage.Recorded schema table) entry.1 := by
    intro typeName inner hinner table hseen
    obtain ⟨hbefore, hown⟩ := List.forall_mem_append.1 hseen
    obtain ⟨husage, hothers⟩ := hinner table hbefore
    exact ⟨hown _ (List.mem_singleton_self _), husage,
      List.forall_mem_append.2 ⟨hothers, by simpa using husage⟩⟩
  refine .of_steps ?_ ?_ ?_ ?_ ?_ ?_ ?_
  · exact fun _ table _ => ⟨hempty, by simp [Observed.nothing]⟩
  · exact fun arguments _ table _ => ⟨Usage.throughout_ofField (by simp) arguments, by simp⟩
  · exact fun _ hinner table hseen => ⟨hempty, (hinner table hseen).2⟩
  · intro typeName name returned inner arguments hreturned hinner table hseen
    obtain ⟨hcovers, husage, hall⟩ := hlast hinner hseen
    refine ⟨Usage.throughout_ofField ?_ arguments, hall⟩
    intro usage hsome
    rw [← Option.some.inj hsome]
    exact ⟨returned, hreturned, hcovers, husage⟩
  · intro typeName condition inner himplements hinner table hseen
    obtain ⟨-, husage, hall⟩ := hlast hinner hseen
    exact ⟨husage.implementer hschema himplements, hall⟩
  · intro condition inner typeName _ hinner table hseen
    obtain ⟨hcovers, husage, hall⟩ := hlast hinner hseen
    exact ⟨Usage.throughout_ofPart hcovers husage, hall⟩
  · intro typeName first second hfirst hsecond table hseen
    obtain ⟨hbefore, hafter⟩ := List.forall_mem_append.1 hseen
    obtain ⟨hfirstUsage, hfirstSeen⟩ := hfirst table hbefore
    obtain ⟨hsecondUsage, hsecondSeen⟩ := hsecond table hafter
    exact ⟨hfirstUsage.merge Usage.Recorded.merge hsecondUsage,
      List.forall_mem_append.2 ⟨hfirstSeen, hsecondSeen⟩⟩

/-- **What a document shows is closed under nesting.** -/
theorem Document.nested_usages (hschema : schema.KeepsFieldTypes) (document : Document) :
    (document.usages schema).Nested schema := by
  have hcovers : ∀ entry ∈ document.observations schema,
      (document.usages schema).Covers entry.1 entry.2 := fun entry hentry =>
    UsageTable.covers_mergeEntries_of_mem _ hentry
      (Usage.covers_self (Document.distinct_of_mem_observations hentry))
  refine @UsageTable.forall_mem_mergeEntries
    (fun typeName usage => usage.Throughout schema (Usage.Recorded schema _) typeName)
    (fun hold hnew => hold.merge Usage.Recorded.merge hnew) .empty (by simp [UsageTable.empty])
    (document.observations schema) ?_
  intro entry hentry
  obtain ⟨operation, hoperation, hquery, root, hroot, hmem⟩ := Document.mem_observations.1 hentry
  have hread := hschema.keptByReading.observe document root operation.selections
  -- the table of the whole document covers what each of its operations shows
  refine (hread (document.usages schema) ?_).2 entry hmem
  intro other hother
  exact hcovers other
    (Document.mem_observations.2 ⟨operation, hoperation, hquery, root, hroot, hother⟩)

/-- **Tables that are closed under nesting** may be united. -/
theorem UsageTable.Nested.mergeAll (h : table.Nested schema) {other : UsageTable}
    (hother : other.Nested schema) : (table.mergeAll other).Nested schema := by
  refine @UsageTable.forall_mem_mergeEntries
    (fun typeName usage => usage.Throughout schema (Usage.Recorded schema _) typeName)
    (fun hold hnew => hold.merge Usage.Recorded.merge hnew) table ?_ other.entries ?_
  · intro entry hentry
    exact (h entry hentry).mono fun hinner => hinner.mono fun hcovers => hcovers.mergeEntries _
  · intro entry hentry
    exact (hother entry hentry).mono fun hinner => hinner.mono fun hcovers =>
      hcovers.mergeAll_right table

end SelectionRecall
