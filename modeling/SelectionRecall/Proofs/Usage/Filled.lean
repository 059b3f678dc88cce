import SelectionRecall.Proofs.Usage.Normal
import SelectionRecall.Proofs.Usage.WellTyped

/-!
# Nothing empty is seen

Reading skips fields and fragments beneath which nothing is left. So nothing beneath a field and no part
is empty in what documents show, at any depth, and unions keep it so. Where implementers keep what their
abstract types promise, all names are known too. Then a usage can only fail to be normal for its type by
a part that belongs to this type, or by one at some depth that belongs to the type around it.

* `Usage.Filled`: nothing in a usage is empty.
* `Usage.NowhereEmpty`: nor is the usage itself.
* `Schema.keptByReading_filled`: what is read is filled, and what is seen is nowhere empty.
* `UsageTable.NowhereEmpty`, `Document.nowhereEmpty_usages`: so it is in tables.
* `Usage.WellTyped.normal_iff`: which of the usages that are seen are normal.
-/

namespace SelectionRecall

namespace Usage

/-- Nothing beneath a field and no part is empty, at any depth. -/
def Filled : Usage → Prop :=
  Everywhere fun usage =>
    (∀ field ∈ usage.fields, ∀ nested, field.nested? = some nested → nested.isEmpty = false) ∧
      ∀ part ∈ usage.parts, part.2.isEmpty = false

theorem Filled.merge {old new : Usage} (hold : old.Filled) (hnew : new.Filled) :
    (old.merge new).Filled := by
  refine Everywhere.merge ?_ hold hnew
  rintro first second ⟨hfirstFields, hfirstParts⟩ ⟨hsecondFields, hsecondParts⟩
  constructor
  · rw [fields_merge]
    refine forall_mem_mergeFields ?_ hfirstFields hsecondFields
    intro field hfield known _ hknown nested hnested
    rcases FieldUse.nested?_merge_eq_some.1 hnested with
      ⟨-, hbefore⟩ | ⟨-, hadded⟩ | ⟨before, added, hbefore, hadded, rfl⟩
    · exact hknown nested hbefore
    · exact hsecondFields field hfield nested hadded
    · exact (isEmpty_merge before added).2 (.inl (hknown before hbefore))
  · rw [parts_merge]
    refine forall_mem_mergeParts ?_ hfirstParts hsecondParts
    intro part _ known _ hknown
    exact (isEmpty_merge known.2 part.2).2 (.inl hknown)

theorem filled_empty : Usage.empty.Filled := everywhere_iff.2 ⟨⟨by simp, by simp⟩, by simp, by simp⟩

theorem filled_ofField {field : FieldUse}
    (h : ∀ nested, field.nested? = some nested → nested.isEmpty = false ∧ nested.Filled) :
    (ofField field).Filled := by
  refine everywhere_iff.2 ⟨⟨?_, by simp⟩, ?_, by simp⟩
  · intro only hmem nested hnested
    exact (h nested (List.mem_singleton.1 hmem ▸ hnested)).1
  · intro only hmem nested hnested
    exact (h nested (List.mem_singleton.1 hmem ▸ hnested)).2

theorem filled_ofPart {typeName : String} {part : Usage} (hleft : part.isEmpty = false)
    (h : part.Filled) : (ofPart typeName part).Filled := by
  refine everywhere_iff.2 ⟨⟨by simp, ?_⟩, by simp, ?_⟩
  · intro only hmem
    rw [List.mem_singleton.1 hmem]; exact hleft
  · intro only hmem
    rw [List.mem_singleton.1 hmem]; exact h

theorem Filled.unconditional {usage : Usage} (h : usage.Filled) : usage.unconditional.Filled := by
  obtain ⟨hlocal, hfields, -⟩ := everywhere_iff.1 h
  exact everywhere_iff.2 ⟨⟨hlocal.1, by simp [Usage.unconditional, parts]⟩, hfields,
    by simp [Usage.unconditional, parts]⟩

/-- Neither the usage nor any usage in it is empty. -/
def NowhereEmpty : Usage → Prop := Everywhere fun usage => usage.isEmpty = false

/-- It is enough that the usage is not empty, and nothing in it is. -/
theorem nowhereEmpty_iff {usage : Usage} :
    usage.NowhereEmpty ↔ usage.isEmpty = false ∧ usage.Filled := by
  induction usage using Usage.induction with
  | step usage ihFields ihParts =>
    constructor
    · intro h
      obtain ⟨hself, hfields, hparts⟩ := everywhere_iff.1 h
      have hfieldsFilled := fun field hfield nested hnested =>
        (ihFields field hfield nested hnested).1 (hfields field hfield nested hnested)
      have hpartsFilled := fun part hpart => (ihParts part hpart).1 (hparts part hpart)
      refine ⟨hself, everywhere_iff.2 ⟨⟨?_, ?_⟩, ?_, ?_⟩⟩
      · exact fun field hfield nested hnested => (hfieldsFilled field hfield nested hnested).1
      · exact fun part hpart => (hpartsFilled part hpart).1
      · exact fun field hfield nested hnested => (hfieldsFilled field hfield nested hnested).2
      · exact fun part hpart => (hpartsFilled part hpart).2
    · rintro ⟨hself, h⟩
      obtain ⟨⟨hnestedLeft, hpartsLeft⟩, hfields, hparts⟩ := everywhere_iff.1 h
      refine everywhere_iff.2 ⟨hself, ?_, ?_⟩
      · intro field hfield nested hnested
        exact (ihFields field hfield nested hnested).2
          ⟨hnestedLeft field hfield nested hnested, hfields field hfield nested hnested⟩
      · intro part hpart
        exact (ihParts part hpart).2 ⟨hpartsLeft part hpart, hparts part hpart⟩

theorem NowhereEmpty.filled {usage : Usage} (h : usage.NowhereEmpty) : usage.Filled :=
  (nowhereEmpty_iff.1 h).2

theorem NowhereEmpty.merge {old new : Usage} (hold : old.NowhereEmpty) (hnew : new.NowhereEmpty) :
    (old.merge new).NowhereEmpty :=
  Everywhere.merge (fun hfirst _ => (isEmpty_merge _ _).2 (.inl hfirst)) hold hnew

end Usage

/-- **Reading leaves nothing empty in what it finds**, and what it has seen is not empty either. -/
theorem Schema.keptByReading_filled (schema : Schema) :
    schema.KeptByReading fun _ observed =>
      observed.usage.Filled ∧ ∀ entry ∈ observed.seen, entry.2.NowhereEmpty where
  nothing _ := ⟨Usage.filled_empty, by simp [Observed.nothing]⟩
  leaf arguments _ := by
    refine ⟨Usage.filled_ofField ?_, by simp⟩
    rw [FieldUse.nested?_withArguments]
    exact fun _ hnested => nomatch hnested
  field {typeName name returned inner} arguments _ hinner := by
    unfold Observed.field
    split
    · exact ⟨Usage.filled_empty, hinner.2⟩
    · rename_i hleft
      rw [Bool.not_eq_true] at hleft
      have hnested := Usage.nowhereEmpty_iff.2 ⟨hleft, hinner.1⟩
      refine ⟨Usage.filled_ofField ?_, List.forall_mem_append.2 ⟨hinner.2, by simpa using hnested⟩⟩
      rw [FieldUse.nested?_withArguments]
      exact fun nested hnested => Option.some.inj hnested ▸ ⟨hleft, hinner.1⟩
  fragment {typeName condition inner} _ hinner := by
    unfold Observed.fragment
    split
    · exact ⟨Usage.filled_empty, hinner.2⟩
    · rename_i hleft
      rw [Bool.not_eq_true] at hleft
      have hfound := Usage.nowhereEmpty_iff.2 ⟨hleft, hinner.1⟩
      have hseen : ∀ entry ∈ inner.seen ++ [(condition, inner.usage)], entry.2.NowhereEmpty :=
        List.forall_mem_append.2 ⟨hinner.2, by simpa using hfound⟩
      split
      · exact hinner
      · split
        · exact ⟨hinner.1, hseen⟩
        · exact ⟨Usage.filled_ofPart hleft hinner.1, hseen⟩
  union hfirst hsecond :=
    ⟨hfirst.1.merge hsecond.1, List.forall_mem_append.2 ⟨hfirst.2, hsecond.2⟩⟩

/-- No usage in the table is empty, nor anything in one. -/
def UsageTable.NowhereEmpty (table : UsageTable) : Prop :=
  ∀ entry ∈ table.entries, entry.2.NowhereEmpty

/-- The usage of a type in such a table. -/
theorem UsageTable.NowhereEmpty.of_get? {table : UsageTable} (h : table.NowhereEmpty)
    {typeName : String} {usage : Usage} (hget : table.get? typeName = some usage) :
    usage.NowhereEmpty := h (typeName, usage) (Keyed.mem_of_lookup hget)

theorem UsageTable.nowhereEmpty_empty : UsageTable.empty.NowhereEmpty := by
  simp [NowhereEmpty, empty]

/-- **What documents show is nowhere empty.** -/
theorem Document.nowhereEmpty_usages (document : Document) (schema : Schema) :
    (document.usages schema).NowhereEmpty :=
  @UsageTable.forall_mem_usages (fun _ usage => usage.NowhereEmpty)
    (fun hold hnew => hold.merge hnew) document schema fun typeName selections =>
      ((Schema.keptByReading_filled schema).observe document typeName selections).2

/-- So it stays in a table to which such a table is added. -/
theorem UsageTable.NowhereEmpty.mergeAll {table other : UsageTable} (h : table.NowhereEmpty)
    (hother : other.NowhereEmpty) : (table.mergeAll other).NowhereEmpty :=
  @UsageTable.forall_mem_mergeEntries (fun _ usage => usage.NowhereEmpty)
    (fun hold hnew => hold.merge hnew) table h _ hother

namespace Usage

variable {schema : Schema} {typeName : String} {usage : Usage}

/-- **Usages that are seen are normal** just if no part in them belongs to its own type. -/
theorem WellTyped.normal_iff (htyped : usage.WellTyped schema typeName) (hfilled : usage.Filled) :
    usage.Normal schema typeName ↔
      usage.Throughout schema (fun typeName usage => ∀ part ∈ usage.parts,
        ¬ schema.MayBe part.1 typeName) typeName := by
  constructor
  · exact fun h => h.mono fun hlocal => hlocal.other
  · intro h
    induction usage using Usage.induction generalizing typeName with
    | step usage ihFields ihParts =>
      obtain ⟨hown, hfields, hparts⟩ := throughout_iff.1 h
      obtain ⟨htypedFields, htypedParts⟩ := wellTyped_iff.1 htyped
      obtain ⟨⟨hnested, hleft⟩, hfilledFields, hfilledParts⟩ := everywhere_iff.1 hfilled
      refine throughout_iff.2 ⟨⟨?_, hnested, fun part hpart => (htypedParts part hpart).1, hown, hleft⟩,
        ?_, ?_⟩
      · intro field hfield
        obtain ⟨returned, hreturned, -⟩ := htypedFields field hfield
        rw [hreturned]; rfl
      · intro field hfield returned nested hreturned hsome
        obtain ⟨same, hsame, hfits⟩ := htypedFields field hfield
        rw [hreturned, Option.some.injEq] at hsame
        subst hsame
        exact ihFields field hfield nested hsome (hfits nested hsome)
          (hfilledFields field hfield nested hsome)
          (hfields field hfield returned nested hreturned hsome)
      · exact fun part hpart => ihParts part hpart (htypedParts part hpart).2
          (hfilledParts part hpart) (hparts part hpart)

end Usage

end SelectionRecall
