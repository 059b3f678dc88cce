import SelectionRecall.Proofs.Usage.Everywhere

/-!
# Usages only grow

A union keeps what was there before in its place: each usage that fields and parts lead to is found
in the same way afterwards, and in it the names that stood first still stand first, in their order.
So a usage covers what it has grown from. What a usage covers it still covers after a union, and if it
covers two usages it covers their union.

* `Usage.Step`, `Usage.at?`: ways into a usage.
* `Usage.Grows`, `Usage.grows_merge`: a union grows from its first part.
* `Usage.covers_iff`, `Usage.Grows.covers`: what a usage covers, and that it covers what it grew from.
* `Usage.covers_merge_of_left`, `Usage.covers_merge_of_right`, `Usage.covers_merge`: unions.
* `UsageTable.Grows`, `UsageTable.grows_mergeEntries`: so it is with tables.
* `UsageTable.Distinct`, `Document.distinct_usages`: tables without two entries for a type.
-/

namespace SelectionRecall

namespace Usage

/-! ## Ways into a usage -/

/-- A step from a usage to one beneath a field or in a part. -/
inductive Step where
  | field (name : String)
  | part (typeName : String)

/-- The usage that a step leads to. -/
def step? (usage : Usage) : Step → Option Usage
  | .field name => (usage.field? name).bind FieldUse.nested?
  | .part typeName => usage.part? typeName

/-- The usage that steps lead to, the outermost one first. -/
def at? (usage : Usage) : List Step → Option Usage
  | [] => some usage
  | step :: rest => (usage.step? step).bind fun inner => inner.at? rest

/-- Where names are distinct, a field is found under its name. -/
theorem Distinct.field?_eq {usage : Usage} (h : usage.Distinct) {field : FieldUse}
    (hfield : field ∈ usage.fields) : usage.field? field.name = some field :=
  Keyed.find?_of_mem (everywhere_iff.1 h).1.1 hfield

/-- A part is found under its type. -/
theorem Distinct.part?_eq {usage : Usage} (h : usage.Distinct) {part : String × Usage}
    (hpart : part ∈ usage.parts) : usage.part? part.1 = some part.2 := by
  rw [part?, Keyed.lookup_eq_map_find?, Keyed.find?_of_mem (everywhere_iff.1 h).1.2 hpart]; rfl

/-- So a step into a field leads to what is beneath it, if anything is. -/
theorem Distinct.step?_field_eq {usage : Usage} (h : usage.Distinct) {field : FieldUse}
    (hfield : field ∈ usage.fields) : usage.step? (.field field.name) = field.nested? := by
  unfold Usage.step?
  dsimp only
  rw [h.field?_eq hfield]; rfl

theorem Distinct.step?_field {usage : Usage} (h : usage.Distinct) {field : FieldUse} {nested : Usage}
    (hfield : field ∈ usage.fields) (hnested : field.nested? = some nested) :
    usage.step? (.field field.name) = some nested :=
  (h.step?_field_eq hfield).trans hnested

/-- And a step into a part to the part. -/
theorem Distinct.step?_part {usage : Usage} (h : usage.Distinct) {part : String × Usage}
    (hpart : part ∈ usage.parts) : usage.step? (.part part.1) = some part.2 :=
  h.part?_eq hpart

/-- The names of fields and of the types of parts stand first in another usage, in their order. -/
structure StandsFirst (older newer : Usage) : Prop where
  fields : older.fieldNames <+: newer.fieldNames
  parts : older.partNames <+: newer.partNames

/-- Wherever steps led before they still lead, and the names there still stand first. -/
def Grows (older newer : Usage) : Prop :=
  ∀ path inner, older.at? path = some inner →
    ∃ grown, newer.at? path = some grown ∧ inner.StandsFirst grown

theorem StandsFirst.refl (usage : Usage) : usage.StandsFirst usage :=
  ⟨List.prefix_refl _, List.prefix_refl _⟩

theorem StandsFirst.trans {first second third : Usage} (h : first.StandsFirst second)
    (h' : second.StandsFirst third) : first.StandsFirst third :=
  ⟨h.fields.trans h'.fields, h.parts.trans h'.parts⟩

theorem Grows.refl (usage : Usage) : usage.Grows usage :=
  fun _ inner h => ⟨inner, h, .refl inner⟩

theorem Grows.trans {first second third : Usage} (h : first.Grows second)
    (h' : second.Grows third) : first.Grows third := by
  intro path inner hinner
  obtain ⟨grown, hgrown, hfirst⟩ := h path inner hinner
  obtain ⟨last, hlast, hsecond⟩ := h' path grown hgrown
  exact ⟨last, hlast, hfirst.trans hsecond⟩

/-- What is found through a step grows too. -/
theorem Grows.step {older newer : Usage} (h : older.Grows newer) {step : Step} {inner : Usage}
    (hinner : older.step? step = some inner) :
    ∃ grown, newer.step? step = some grown ∧ inner.Grows grown := by
  have hpath : ∀ rest deep, inner.at? rest = some deep →
      ∃ grown, newer.at? (step :: rest) = some grown ∧ deep.StandsFirst grown := by
    intro rest deep hdeep
    refine h (step :: rest) deep ?_
    rw [at?, hinner]; exact hdeep
  obtain ⟨grown, hgrown, -⟩ := hpath [] inner rfl
  cases hstep : newer.step? step with
  | none => rw [at?, hstep] at hgrown; cases hgrown
  | some reached =>
    refine ⟨reached, rfl, ?_⟩
    intro rest deep hdeep
    obtain ⟨last, hlast, hfirst⟩ := hpath rest deep hdeep
    rw [at?, hstep] at hlast
    exact ⟨last, hlast, hfirst⟩

/-- The names in a union: those of its first part stand first. -/
theorem standsFirst_merge (old new : Usage) : old.StandsFirst (old.merge new) := by
  constructor
  · unfold fieldNames
    rw [fields_merge]
    exact map_prefix_mergeFields _ _
  · unfold partNames
    rw [parts_merge]
    exact map_prefix_mergeParts _ _

/-- A step leads on in a union, to the same usage or to one in which others were united with it. What
each of these keeps holds there. -/
theorem exists_step?_merge {old new inner : Usage} {step : Step} {Holds : Usage → Prop}
    (hmerge : ∀ known added : Usage, Holds known → Holds (known.merge added))
    (hinner : old.step? step = some inner) (h : Holds inner) :
    ∃ grown, (old.merge new).step? step = some grown ∧ Holds grown := by
  cases step with
  | field name =>
    obtain ⟨field, hfield, hnested⟩ := Option.bind_eq_some_iff.1 hinner
    have hkeeps : ∀ added ∈ new.fields, ∀ known : FieldUse, known.name = added.name →
        (∃ grown, known.nested? = some grown ∧ Holds grown) →
          ∃ grown, (known.merge added).nested? = some grown ∧ Holds grown :=
      fun _ _ _ _ hknown => FieldUse.exists_nested?_merge hmerge hknown
    obtain ⟨known, hknown, grown, hgrown, hholds⟩ :=
      exists_find?_mergeFields hkeeps ⟨field, hfield, inner, hnested, h⟩
    refine ⟨grown, ?_, hholds⟩
    rw [← fields_merge] at hknown
    exact Option.bind_eq_some_iff.2 ⟨known, hknown, hgrown⟩
  | part typeName =>
    have hgrown : ∃ grown, (mergeParts old.parts new.parts).lookup typeName = some grown ∧
        Holds grown :=
      exists_lookup_mergeParts (fun part _ known hknown => hmerge known part.2 hknown)
        ⟨inner, hinner, h⟩
    rwa [← parts_merge] at hgrown

/-- **A union grows** from its first part. -/
theorem grows_merge (old new : Usage) : old.Grows (old.merge new) := by
  intro path
  induction path generalizing old new with
  | nil =>
    intro inner hinner
    cases hinner
    exact ⟨old.merge new, rfl, standsFirst_merge old new⟩
  | cons step rest ih =>
    intro inner hinner
    obtain ⟨first, hfirst, hrest⟩ := Option.bind_eq_some_iff.1 hinner
    -- each further union keeps what the rest of the path leads to in its place
    have hmerge : ∀ known added : Usage,
        (∃ last, known.at? rest = some last ∧ inner.StandsFirst last) →
          ∃ last, (known.merge added).at? rest = some last ∧ inner.StandsFirst last := by
      rintro known added ⟨last, hlast, hkept⟩
      obtain ⟨further, hfurther, hstill⟩ := ih known added last hlast
      exact ⟨further, hfurther, hkept.trans hstill⟩
    obtain ⟨grown, hgrown, last, hlast, hkept⟩ :=
      exists_step?_merge hmerge hfirst ⟨inner, hrest, .refl inner⟩
    exact ⟨last, Option.bind_eq_some_iff.2 ⟨grown, hgrown, hlast⟩, hkept⟩

/-! ## What a usage covers -/

end Usage

/-- Everything beneath the field is beneath the known one too. -/
def FieldUse.Covers (known field : FieldUse) : Prop :=
  ∀ nested, field.nested? = some nested →
    ∃ beneath, known.nested? = some beneath ∧ beneath.covers nested = true

namespace Usage

theorem coversNested_iff (known field : FieldUse) :
    coversNested known.nested? field.nested? = true ↔ known.Covers field := by
  unfold FieldUse.Covers
  cases field.nested? with
  | none => simp [coversNested]
  | some nested => cases known.nested? <;> simp [coversNested]

theorem coversFields_iff (usage : Usage) (fields : List FieldUse) :
    usage.coversFields fields = true ↔
      ∀ field ∈ fields, ∃ known, usage.field? field.name = some known ∧ known.Covers field := by
  induction fields with
  | nil => simp [coversFields]
  | cons head rest ih =>
    obtain ⟨name, arguments, nested?⟩ := head
    have hhead := fun known => coversNested_iff known (.mk name arguments nested?)
    rw [coversFields, Bool.and_eq_true, ih, List.forall_mem_cons]
    refine and_congr_left fun _ => ?_
    show _ ↔ ∃ known, usage.field? name = some known ∧ _
    cases usage.field? name with
    | none => simp
    | some known =>
      simp only [Option.some.injEq, exists_eq_left']
      exact hhead known

theorem coversParts_iff (usage : Usage) (parts : List (String × Usage)) :
    usage.coversParts parts = true ↔
      ∀ part ∈ parts, ∃ known, usage.part? part.1 = some known ∧ known.covers part.2 = true := by
  induction parts with
  | nil => simp [coversParts]
  | cons head rest ih =>
    rw [coversParts, Bool.and_eq_true, ih, List.forall_mem_cons]
    refine and_congr_left fun _ => ?_
    cases usage.part? head.1 <;> simp

/-- **What a usage covers**: each field, with all that is beneath it, and each part. -/
theorem covers_iff {usage other : Usage} :
    usage.covers other = true ↔
      (∀ field ∈ other.fields, ∃ known, usage.field? field.name = some known ∧
        known.Covers field) ∧
      ∀ part ∈ other.parts, ∃ known, usage.part? part.1 = some known ∧
        known.covers part.2 = true := by
  cases other
  rw [covers, Bool.and_eq_true, coversFields_iff, coversParts_iff]; rfl

/-- **A usage covers what it grew from**, if the names there were distinct. -/
theorem Grows.covers {older newer : Usage} (h : older.Grows newer) (hdistinct : older.Distinct) :
    newer.covers older = true := by
  induction older using Usage.induction generalizing newer with
  | step older ihFields ihParts =>
    obtain ⟨-, hfields, hparts⟩ := everywhere_iff.1 hdistinct
    obtain ⟨_, hself, hfirst⟩ := h [] older rfl
    cases hself
    refine covers_iff.2 ⟨?_, ?_⟩
    · intro field hfield
      obtain ⟨known, hknown⟩ := Keyed.exists_find?_of_mem_map
        (hfirst.fields.subset (List.mem_map_of_mem hfield))
      refine ⟨known, hknown, ?_⟩
      intro nested hnested
      obtain ⟨grown, hgrown, hgrows⟩ := h.step (hdistinct.step?_field hfield hnested)
      have hbeneath : known.nested? = some grown := by
        rwa [step?, field?, hknown] at hgrown
      exact ⟨grown, hbeneath,
        ihFields field hfield nested hnested hgrows (hfields field hfield nested hnested)⟩
    · intro part hpart
      obtain ⟨grown, hgrown, hgrows⟩ := h.step (hdistinct.step?_part hpart)
      exact ⟨grown, hgrown, ihParts part hpart hgrows (hparts part hpart)⟩

/-- A usage covers itself, if the names in it are distinct. -/
theorem covers_self {usage : Usage} (h : usage.Distinct) : usage.covers usage = true :=
  (Grows.refl usage).covers h

/-- What a usage covers it still covers after a union. -/
theorem covers_merge_of_left {known other : Usage} (h : known.covers other = true)
    (added : Usage) : (known.merge added).covers other = true := by
  -- covering recurses on what is covered, so the induction is on that, for all usages around it
  induction other using Usage.induction generalizing known added with
  | step other ihFields ihParts =>
    obtain ⟨hfields, hparts⟩ := covers_iff.1 h
    refine covers_iff.2 ⟨?_, ?_⟩
    · intro field hfield
      unfold field?
      rw [fields_merge]
      refine exists_find?_mergeFields ?_ (hfields field hfield)
      intro _ _ before _ hcovers nested hnested
      exact FieldUse.exists_nested?_merge
        (fun before added hbefore => ihFields field hfield nested hnested hbefore added)
        (hcovers nested hnested)
    · intro part hpart
      unfold part?
      rw [parts_merge]
      refine exists_lookup_mergeParts ?_ (hparts part hpart)
      exact fun added _ before hbefore => ihParts part hpart hbefore added.2

/-- So it is if others are put before it. -/
theorem covers_merge_of_right (known : Usage) {added other : Usage}
    (h : added.covers other = true) : (known.merge added).covers other = true := by
  induction other using Usage.induction generalizing known added with
  | step other ihFields ihParts =>
    obtain ⟨hfields, hparts⟩ := covers_iff.1 h
    refine covers_iff.2 ⟨?_, ?_⟩
    · intro field hfield
      obtain ⟨new, hnew, hcovers⟩ := hfields field hfield
      obtain ⟨hmem, hname⟩ := Keyed.mem_of_find? hnew
      have hkeeps : ∀ later ∈ added.fields, ∀ before : FieldUse, before.name = later.name →
          before.Covers field → (before.merge later).Covers field :=
        fun _ _ _ _ hbefore nested hnested => FieldUse.exists_nested?_merge
          (fun _ later hbefore => covers_merge_of_left hbefore later) (hbefore nested hnested)
      unfold field?
      rw [fields_merge, ← hname]
      refine exists_find?_mergeFields_of_mem hkeeps hmem hcovers ?_
      -- the field may have been known as a leaf, or with something beneath it
      intro before _ nested hnested
      obtain ⟨beneath, hbeneath, hcovered⟩ := hcovers nested hnested
      cases hbefore : before.nested? with
      | none =>
        exact ⟨beneath, FieldUse.nested?_merge_eq_some.2 (.inr (.inl ⟨hbefore, hbeneath⟩)), hcovered⟩
      | some first =>
        exact ⟨first.merge beneath,
          FieldUse.nested?_merge_eq_some.2 (.inr (.inr ⟨first, beneath, hbefore, hbeneath, rfl⟩)),
          ihFields field hfield nested hnested first hcovered⟩
    · intro part hpart
      obtain ⟨new, hnew, hcovers⟩ := hparts part hpart
      have hmem : (part.1, new) ∈ added.parts := Keyed.mem_of_lookup hnew
      unfold part?
      rw [parts_merge]
      refine exists_lookup_mergeParts_of_mem ?_ hmem hcovers ?_
      · exact fun later _ before hbefore => covers_merge_of_left hbefore later.2
      · exact fun before => ihParts part hpart before hcovers

/-- **What covers two usages covers their union.** -/
theorem covers_merge {usage old new : Usage} (hold : usage.covers old = true)
    (hnew : usage.covers new = true) : usage.covers (old.merge new) = true := by
  induction new using Usage.induction generalizing usage old with
  | step new ihFields ihParts =>
    obtain ⟨holdFields, holdParts⟩ := covers_iff.1 hold
    obtain ⟨hnewFields, hnewParts⟩ := covers_iff.1 hnew
    refine covers_iff.2 ⟨?_, ?_⟩
    · rw [fields_merge]
      refine forall_mem_mergeFields ?_ holdFields hnewFields
      -- fields of one name are covered by the one field of that name
      rintro field hfield before hname ⟨known, hknown, hbefore⟩
      obtain ⟨same, hsame, hcovers⟩ := hnewFields field hfield
      rw [← hname, hknown, Option.some.injEq] at hsame
      subst hsame
      refine ⟨known, by rwa [FieldUse.name_merge], ?_⟩
      intro nested hnested
      rcases FieldUse.nested?_merge_eq_some.1 hnested with
        ⟨-, hfirst⟩ | ⟨-, hsecond⟩ | ⟨first, second, hfirst, hsecond, rfl⟩
      · exact hbefore nested hfirst
      · exact hcovers nested hsecond
      · obtain ⟨beneath, hbeneath, hcovered⟩ := hbefore first hfirst
        obtain ⟨sameBeneath, hsameBeneath, hcovered'⟩ := hcovers second hsecond
        rw [hbeneath, Option.some.injEq] at hsameBeneath
        subst hsameBeneath
        exact ⟨beneath, hbeneath, ihFields field hfield second hsecond hcovered hcovered'⟩
    · rw [parts_merge]
      refine forall_mem_mergeParts ?_ holdParts hnewParts
      rintro part hpart before hname ⟨known, hknown, hbefore⟩
      obtain ⟨same, hsame, hcovers⟩ := hnewParts part hpart
      rw [← hname, hknown, Option.some.injEq] at hsame
      subst hsame
      exact ⟨known, hknown, ihParts part hpart hbefore hcovers⟩

end Usage

/-! ## Tables -/

namespace UsageTable

/-- Types keep their places, and the usage of each of them grows. -/
structure Grows (older newer : UsageTable) : Prop where
  typeNames : older.typeNames <+: newer.typeNames
  usages : ∀ {typeName before}, older.get? typeName = some before →
    ∃ after, newer.get? typeName = some after ∧ before.Grows after

theorem Grows.refl (table : UsageTable) : table.Grows table :=
  ⟨List.prefix_refl _, fun h => ⟨_, h, .refl _⟩⟩

theorem Grows.trans {first second third : UsageTable} (h : first.Grows second)
    (h' : second.Grows third) : first.Grows third := by
  refine ⟨h.typeNames.trans h'.typeNames, ?_⟩
  intro typeName before hbefore
  obtain ⟨between, hbetween, hfirst⟩ := h.usages hbefore
  obtain ⟨after, hafter, hsecond⟩ := h'.usages hbetween
  exact ⟨after, hafter, hfirst.trans hsecond⟩

/-- **A table grows** when entries are added. -/
theorem grows_mergeEntries (table : UsageTable) (entries : List (String × Usage)) :
    table.Grows (table.mergeEntries entries) := by
  constructor
  · unfold typeNames
    rw [entries_mergeEntries]
    exact Usage.map_prefix_mergeParts _ _
  · intro typeName before hbefore
    unfold get?
    rw [entries_mergeEntries]
    refine Usage.exists_lookup_mergeParts ?_ ⟨before, hbefore, .refl before⟩
    exact fun entry _ known hknown => hknown.trans (Usage.grows_merge known entry.2)

/-- As in a map, no type has two entries, and names in the usages are distinct. -/
structure Distinct (table : UsageTable) : Prop where
  types : table.typeNames.Nodup
  usages : ∀ entry ∈ table.entries, entry.2.Distinct

theorem distinct_empty : empty.Distinct := ⟨List.nodup_nil, by simp [empty]⟩

/-- The usage of a type in such a table. -/
theorem Distinct.of_get? {table : UsageTable} (h : table.Distinct) {typeName : String}
    {usage : Usage} (hget : table.get? typeName = some usage) : usage.Distinct :=
  h.usages (typeName, usage) (Keyed.mem_of_lookup hget)

/-- Entries with distinct names may be added. -/
theorem Distinct.mergeEntries {table : UsageTable} (h : table.Distinct)
    {entries : List (String × Usage)} (hentries : ∀ entry ∈ entries, entry.2.Distinct) :
    (table.mergeEntries entries).Distinct := by
  constructor
  · unfold typeNames
    rw [entries_mergeEntries]
    exact Usage.nodup_map_mergeParts h.types _
  · exact @forall_mem_mergeEntries (fun _ usage => usage.Distinct)
      (fun hold hnew => hold.merge hnew) table h.usages entries hentries

/-- One usage may be added. -/
theorem Distinct.merge {table : UsageTable} (h : table.Distinct) {usage : Usage}
    (husage : usage.Distinct) (typeName : String) : (table.merge typeName usage).Distinct :=
  h.mergeEntries (List.forall_mem_singleton.2 (show (typeName, usage).2.Distinct from husage))

/-- All entries of another table may be added. -/
theorem Distinct.mergeAll {table other : UsageTable} (h : table.Distinct) (hother : other.Distinct) :
    (table.mergeAll other).Distinct := h.mergeEntries hother.usages

/-- What a document shows may be added. -/
theorem Distinct.mergeAll_usages {table : UsageTable} (h : table.Distinct) (document : Document)
    (schema : Schema) : (table.mergeAll (document.usages schema)).Distinct :=
  h.mergeEntries (Usage.distinct_stable.everywhere_usages document schema)

end UsageTable

namespace Document

variable {schema : Schema}

/-- Names in all that a document shows are distinct. -/
theorem distinct_of_mem_observations {document : Document} {entry : String × Usage}
    (h : entry ∈ document.observations schema) : entry.2.Distinct := by
  obtain ⟨operation, -, -, root, -, hmem⟩ := mem_observations.1 h
  have hread := (Usage.distinct_stable.keptByReading schema).observe document root
    operation.selections
  exact hread.2 entry hmem

/-- As in a map, no type has two entries in what a document shows. -/
theorem distinct_usages (document : Document) (schema : Schema) : (document.usages schema).Distinct :=
  UsageTable.distinct_empty.mergeEntries fun _ => distinct_of_mem_observations

end Document

end SelectionRecall
