import SelectionRecall.Proofs.Document.Nodes
import SelectionRecall.Proofs.Schema.Possible
import SelectionRecall.Proofs.Usage.Reading

/-!
# Well-typed usages

A usage of a type is well-typed if the type has all its fields, what is beneath them is well-typed
for the types that they return, and so are its parts for their own types. Usages that are seen in a
document are well-typed: where implementers keep what their abstract types promise, a usage of an
abstract type is one of each implementer too.

* `Usage.WellTyped`, `UsageTable.WellTyped`: usages and tables of usages that fit a schema.
* `Usage.WellTyped.merge`: a union of well-typed usages is well-typed.
* `Usage.WellTyped.implementer`: a usage of an abstract type fits its implementers.
* `Document.wellTyped_usages`: what a document shows is well-typed.
* `Selection.WellTyped`, `Usage.WellTyped.toSelections`: a well-typed usage is written as selections
  of fields that the enclosing types have.
-/

namespace SelectionRecall

/-! ## Well-typed usages -/

/-- The usage fits the type: the type has all its fields, what is beneath them fits the types that
they return, and its parts are for types of the schema and fit them. -/
inductive Usage.WellTyped (schema : Schema) : String → Usage → Prop
  | intro {typeName usage} :
    (∀ field ∈ usage.fields, (schema.fieldType? typeName field.name).isSome = true) →
    (∀ field ∈ usage.fields, ∀ returned nested,
      schema.fieldType? typeName field.name = some returned → field.nested? = some nested →
      WellTyped schema returned nested) →
    (∀ part ∈ usage.parts, schema.hasType part.1 = true) →
    (∀ part ∈ usage.parts, WellTyped schema part.1 part.2) →
    WellTyped schema typeName usage

/-- The type has the field, and what is beneath it fits the type that it returns. -/
def FieldUse.WellTyped (schema : Schema) (typeName : String) (field : FieldUse) : Prop :=
  ∃ returned, schema.fieldType? typeName field.name = some returned ∧
    ∀ nested, field.nested? = some nested → nested.WellTyped schema returned

namespace Usage

variable {schema : Schema} {typeName : String}

theorem wellTyped_iff {usage : Usage} :
    usage.WellTyped schema typeName ↔
      (∀ field ∈ usage.fields, field.WellTyped schema typeName) ∧
        ∀ part ∈ usage.parts, schema.hasType part.1 = true ∧ part.2.WellTyped schema part.1 := by
  constructor
  · rintro ⟨hknown, hnested, hparts, hpart⟩
    refine ⟨?_, fun part hmem => ⟨hparts part hmem, hpart part hmem⟩⟩
    intro field hfield
    obtain ⟨returned, hreturned⟩ := Option.isSome_iff_exists.1 (hknown field hfield)
    exact ⟨returned, hreturned, fun nested h => hnested field hfield returned nested hreturned h⟩
  · rintro ⟨hfields, hparts⟩
    refine ⟨?_, ?_, fun part hmem => (hparts part hmem).1, fun part hmem => (hparts part hmem).2⟩
    · intro field hfield
      obtain ⟨returned, hreturned, -⟩ := hfields field hfield
      rw [hreturned]; rfl
    · intro field hfield returned nested hreturned hnested
      obtain ⟨other, hother, hfits⟩ := hfields field hfield
      rw [hreturned, Option.some.injEq] at hother
      rw [hother]; exact hfits nested hnested

theorem wellTyped_empty : Usage.empty.WellTyped schema typeName :=
  wellTyped_iff.2 ⟨by simp [empty, fields], by simp [empty, parts]⟩

/-- **A union of well-typed usages is well-typed.** -/
theorem WellTyped.merge {old new : Usage} (hold : old.WellTyped schema typeName)
    (hnew : new.WellTyped schema typeName) : (old.merge new).WellTyped schema typeName := by
  induction new using Usage.induction generalizing old typeName with
  | step new ihFields ihParts =>
    rw [wellTyped_iff] at hold hnew ⊢
    obtain ⟨holdFields, holdParts⟩ := hold
    obtain ⟨hnewFields, hnewParts⟩ := hnew
    rw [fields_merge, parts_merge]
    constructor
    · refine forall_mem_mergeFields ?_ holdFields hnewFields
      -- fields of one name return one type, so that what is beneath them may be united
      rintro field hfield known hname ⟨returned, hreturned, hknown⟩
      obtain ⟨other, hother, hfits⟩ := hnewFields field hfield
      rw [← hname, hreturned, Option.some.injEq] at hother
      subst hother
      refine ⟨returned, by rw [FieldUse.name_merge]; exact hreturned, ?_⟩
      intro nested hnested
      rcases FieldUse.nested?_merge_eq_some.1 hnested with
        ⟨-, hold⟩ | ⟨-, hnew⟩ | ⟨first, second, hold, hnew, rfl⟩
      · exact hknown nested hold
      · exact hfits nested hnew
      · exact ihFields field hfield second hnew (hknown first hold) (hfits second hnew)
    · refine forall_mem_mergeParts ?_ holdParts hnewParts
      rintro part hpart known hname ⟨hknown, hfits⟩
      have hnew := (hnewParts part hpart).2
      rw [← hname] at hnew
      exact ⟨hknown, ihParts part hpart hfits hnew⟩

/-- **A usage of an abstract type fits its implementers**, if they keep what it promises. -/
theorem WellTyped.implementer (hschema : schema.Covariant) {usage : Usage}
    (h : usage.WellTyped schema typeName) {object : String}
    (hobject : object ∈ schema.implementers typeName) : usage.WellTyped schema object := by
  induction usage using Usage.induction generalizing typeName object with
  | step usage ihFields _ =>
    rw [wellTyped_iff] at h ⊢
    obtain ⟨hfields, hparts⟩ := h
    refine ⟨?_, hparts⟩
    intro field hfield
    obtain ⟨returned, hreturned, hfits⟩ := hfields field hfield
    obtain ⟨narrower, hnarrower, hmayBe⟩ := hschema typeName object hobject field.name returned hreturned
    refine ⟨narrower, hnarrower, ?_⟩
    intro nested hnested
    rcases hmayBe with rfl | himplements
    · exact hfits nested hnested
    · exact ihFields field hfield nested hnested (hfits nested hnested) himplements

/-- The fields of a well-typed usage are well-typed alone. -/
theorem WellTyped.unconditional {usage : Usage} (h : usage.WellTyped schema typeName) :
    usage.unconditional.WellTyped schema typeName :=
  wellTyped_iff.2 ⟨(wellTyped_iff.1 h).1, by simp [Usage.unconditional, parts]⟩

theorem wellTyped_ofField {field : FieldUse} (h : field.WellTyped schema typeName) :
    (ofField field).WellTyped schema typeName :=
  wellTyped_iff.2 ⟨by simpa [ofField, fields] using h, by simp [ofField, parts]⟩

theorem wellTyped_ofPart {condition : String} {part : Usage}
    (hknown : schema.hasType condition = true) (h : part.WellTyped schema condition) :
    (ofPart condition part).WellTyped schema typeName :=
  wellTyped_iff.2 ⟨by simp [ofPart, fields], by simpa [ofPart, parts] using ⟨hknown, h⟩⟩

end Usage

/-- Arguments play no part. -/
theorem FieldUse.WellTyped.withArguments {schema : Schema} {typeName : String} {field : FieldUse}
    (h : field.WellTyped schema typeName) (arguments : Arguments) :
    (field.withArguments arguments).WellTyped schema typeName := by
  unfold FieldUse.withArguments
  split
  · exact h
  · exact h

/-! ## What documents show -/

/-- What was read inside the type fits it, and all that was seen fits its type. -/
structure Observed.WellTyped (schema : Schema) (typeName : String) (observed : Observed) :
    Prop where
  usage : observed.usage.WellTyped schema typeName
  seen : ∀ entry ∈ observed.seen, entry.2.WellTyped schema entry.1

/-- One more entry was seen. -/
theorem Observed.WellTyped.seen_append {schema : Schema} {typeName : String} {observed : Observed}
    (h : observed.WellTyped schema typeName) :
    ∀ entry ∈ observed.seen ++ [(typeName, observed.usage)], entry.2.WellTyped schema entry.1 := by
  intro entry hentry
  rcases List.mem_append.1 hentry with hseen | hlast
  · exact h.seen entry hseen
  · rw [List.mem_singleton.1 hlast]; exact h.usage

/-- **Reading keeps usages well-typed**, if implementers keep what their abstract types promise. -/
theorem Schema.Covariant.keptByReading {schema : Schema} (hschema : schema.Covariant) :
    schema.KeptByReading (Observed.WellTyped schema) := by
  refine .of_steps ?_ ?_ ?_ ?_ ?_ ?_ ?_
  · exact fun _ => ⟨Usage.wellTyped_empty, by simp [Observed.nothing]⟩
  · intro typeName name returned arguments hreturned
    have hleaf : (FieldUse.leaf name).WellTyped schema typeName :=
      ⟨returned, hreturned, by simp [FieldUse.leaf, FieldUse.nested?]⟩
    exact ⟨Usage.wellTyped_ofField (hleaf.withArguments arguments), by simp⟩
  · exact fun _ hinner => ⟨Usage.wellTyped_empty, hinner.seen⟩
  · intro typeName name returned inner arguments hreturned hinner
    have hfield : (FieldUse.nested name inner.usage).WellTyped schema typeName := by
      refine ⟨returned, hreturned, ?_⟩
      intro usage husage
      rw [← Option.some.inj husage]; exact hinner.usage
    exact ⟨Usage.wellTyped_ofField (hfield.withArguments arguments), hinner.seen_append⟩
  · exact fun himplements hinner =>
      ⟨hinner.usage.implementer hschema himplements, hinner.seen_append⟩
  · exact fun _ hknown hinner => ⟨Usage.wellTyped_ofPart hknown hinner.usage, hinner.seen_append⟩
  · exact fun hfirst hsecond => ⟨hfirst.usage.merge hsecond.usage,
      List.forall_mem_append.2 ⟨hfirst.seen, hsecond.seen⟩⟩

/-- All usages of the table fit their types. -/
def UsageTable.WellTyped (schema : Schema) (table : UsageTable) : Prop :=
  ∀ entry ∈ table.entries, entry.2.WellTyped schema entry.1

namespace UsageTable

variable {schema : Schema} {table : UsageTable}

theorem wellTyped_empty : UsageTable.empty.WellTyped schema := by
  simp [UsageTable.WellTyped, empty]

/-- A union of well-typed tables is well-typed. -/
theorem WellTyped.mergeAll {other : UsageTable} (h : table.WellTyped schema)
    (hother : other.WellTyped schema) : (table.mergeAll other).WellTyped schema :=
  forall_mem_mergeEntries Usage.WellTyped.merge h hother

/-- The usage of a type in a well-typed table fits it. -/
theorem WellTyped.of_get? (h : table.WellTyped schema) {typeName : String} {usage : Usage}
    (hget : table.get? typeName = some usage) : usage.WellTyped schema typeName :=
  h (typeName, usage) (Keyed.mem_of_lookup hget)

end UsageTable

/-- **What a document shows is well-typed.** -/
theorem Document.wellTyped_usages {schema : Schema} (hschema : schema.Covariant)
    (document : Document) : (document.usages schema).WellTyped schema := by
  refine UsageTable.forall_mem_usages Usage.WellTyped.merge ?_
  intro typeName selections
  exact (hschema.keptByReading.observe document typeName selections).seen

/-! ## Well-typed selections -/

/-- The enclosing type has the field, or the schema the type of the inline fragment, and so it is
with everything beneath. Nothing is spread. -/
inductive Selection.WellTyped (schema : Schema) : String → Selection → Prop
  | field {typeName returned alias? name arguments directives selections} :
    schema.fieldType? typeName name = some returned →
    (∀ selection ∈ selections, WellTyped schema returned selection) →
    WellTyped schema typeName (.field alias? name arguments directives selections)
  | inline {typeName condition directives selections} :
    schema.hasType condition = true →
    (∀ selection ∈ selections, WellTyped schema condition selection) →
    WellTyped schema typeName (.inline (some condition) directives selections)

namespace Usage

/-- **A well-typed usage is written as well-typed selections.** -/
theorem WellTyped.toSelections {schema : Schema} {typeName : String} {usage : Usage}
    (h : usage.WellTyped schema typeName) :
    ∀ selection ∈ usage.toSelections, selection.WellTyped schema typeName := by
  induction h with
  | intro hknown hnested hparts hpart ihNested ihParts =>
    intro selection hselection
    rcases mem_toSelections.1 hselection with ⟨field, hfield, rfl⟩ | ⟨part, hmem, rfl⟩
    · obtain ⟨returned, hreturned⟩ := Option.isSome_iff_exists.1 (hknown field hfield)
      refine .field hreturned ?_
      cases hbeneath : field.nested? with
      | none => simp
      | some nested => exact ihNested field hfield returned nested hreturned hbeneath
    · exact .inline (hparts part hmem) (ihParts part hmem)

end Usage

end SelectionRecall
