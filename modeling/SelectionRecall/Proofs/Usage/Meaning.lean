import SelectionRecall.Proofs.Schema.Possible
import SelectionRecall.Proofs.Usage.Merge
import SelectionRecall.Usage.Observation

/-!
# What selections and usages ask for

Selections and usages ask for fields of objects, and beneath those for fields of the objects that
they return. A fragment asks for its fields on the objects that a value of its type may be, and so does
a part of a usage. What is asked for is told by the fields on the way from the outermost object to the
innermost one.

* `Selection.Survives`: something of the selection is known to the schema.
* `Selection.Asks`, `Usage.Asks`: what a selection and a usage ask for.
* `Schema.MayReturn`, `Schema.AllReturn`: which objects a field leads to.
* `Schema.allReturn_of_mayReturn`: where implementers keep what their abstract types promise, all
  types with the field agree.
* `Usage.asks_merge`: a union asks for what one of the two usages asks for.
-/

namespace SelectionRecall

/-- A field on an object of this type. -/
structure ObjectField where
  object : String
  field : String
  deriving DecidableEq

/-! ## Selections -/

namespace Selection

/-- Something of the selection is left inside the type: the field is known there, or the type of the
fragment is known and the fragment is defined, and something is left beneath it. An inline fragment
without a condition is one on the enclosing type. -/
inductive Survives (schema : Schema) (document : Document) : String → Selection → Prop
  | leaf {typeName returned alias? name arguments directives} :
    schema.fieldType? typeName name = some returned →
    Survives schema document typeName (.field alias? name arguments directives [])
  | composite {typeName returned alias? name arguments directives selections selection} :
    schema.fieldType? typeName name = some returned → selection ∈ selections →
    Survives schema document returned selection →
    Survives schema document typeName (.field alias? name arguments directives selections)
  | inline {typeName condition? directives selections selection} :
    schema.hasType (condition?.getD typeName) = true → selection ∈ selections →
    Survives schema document (condition?.getD typeName) selection →
    Survives schema document typeName (.inline condition? directives selections)
  | spread {typeName name directives fragment selection} :
    document.fragment? name = some fragment → schema.hasType fragment.condition = true →
    selection ∈ fragment.selections → Survives schema document fragment.condition selection →
    Survives schema document typeName (.spread name directives)

/-- Inside the type, the selection asks for the last field on this way. A fragment is applied to an
object if a value of its type may be the object, and what does not survive is not asked for. -/
inductive Asks (schema : Schema) (document : Document) :
    String → Selection → List ObjectField → Prop
  | field {typeName object alias? name arguments directives selections} :
    Survives schema document typeName (.field alias? name arguments directives selections) →
    Asks schema document typeName (.field alias? name arguments directives selections)
      [⟨object, name⟩]
  | nested {typeName returned object alias? name arguments directives selections selection path} :
    schema.fieldType? typeName name = some returned → selection ∈ selections →
    Asks schema document returned selection path →
    Asks schema document typeName (.field alias? name arguments directives selections)
      (⟨object, name⟩ :: path)
  | inline {typeName condition? directives selections selection asked path} :
    schema.hasType (condition?.getD typeName) = true →
    schema.MayBe (condition?.getD typeName) asked.object → selection ∈ selections →
    Asks schema document (condition?.getD typeName) selection (asked :: path) →
    Asks schema document typeName (.inline condition? directives selections) (asked :: path)
  | spread {typeName name directives fragment selection asked path} :
    document.fragment? name = some fragment → schema.hasType fragment.condition = true →
    schema.MayBe fragment.condition asked.object → selection ∈ fragment.selections →
    Asks schema document fragment.condition selection (asked :: path) →
    Asks schema document typeName (.spread name directives) (asked :: path)

variable {schema : Schema} {document : Document} {typeName : String}

theorem survives_field_iff {alias? : Option String} {name : String} {arguments : Arguments}
    {directives : List Directive} {selections : List Selection} :
    (Selection.field alias? name arguments directives selections).Survives schema document typeName ↔
      ∃ returned, schema.fieldType? typeName name = some returned ∧
        (selections = [] ∨ ∃ selection ∈ selections, selection.Survives schema document returned) := by
  constructor
  · intro h
    cases h with
    | leaf hfield => exact ⟨_, hfield, Or.inl rfl⟩
    | composite hfield hmem hbeneath => exact ⟨_, hfield, Or.inr ⟨_, hmem, hbeneath⟩⟩
  · rintro ⟨returned, hfield, rfl | ⟨selection, hmem, hbeneath⟩⟩
    · exact .leaf hfield
    · exact .composite hfield hmem hbeneath

theorem survives_inline_iff {condition? : Option String} {directives : List Directive}
    {selections : List Selection} :
    (Selection.inline condition? directives selections).Survives schema document typeName ↔
      schema.hasType (condition?.getD typeName) = true ∧
        ∃ selection ∈ selections,
          selection.Survives schema document (condition?.getD typeName) := by
  constructor
  · rintro (_ | _ | ⟨hknown, hmem, hinner⟩)
    exact ⟨hknown, _, hmem, hinner⟩
  · rintro ⟨hknown, selection, hmem, hinner⟩
    exact .inline hknown hmem hinner

theorem survives_spread_iff {name : String} {directives : List Directive} :
    (Selection.spread name directives).Survives schema document typeName ↔
      ∃ fragment, document.fragment? name = some fragment ∧
        schema.hasType fragment.condition = true ∧
          ∃ selection ∈ fragment.selections,
            selection.Survives schema document fragment.condition := by
  constructor
  · rintro (_ | _ | _ | ⟨hfragment, hknown, hmem, hinner⟩)
    exact ⟨_, hfragment, hknown, _, hmem, hinner⟩
  · rintro ⟨fragment, hfragment, hknown, selection, hmem, hinner⟩
    exact .spread hfragment hknown hmem hinner

theorem asks_field_iff {alias? : Option String} {name : String} {arguments : Arguments}
    {directives : List Directive} {selections : List Selection} {asked : ObjectField}
    {path : List ObjectField} :
    (Selection.field alias? name arguments directives selections).Asks schema document typeName
        (asked :: path) ↔
      asked.field = name ∧ ∃ returned, schema.fieldType? typeName name = some returned ∧
        (path = [] ∧ (selections = [] ∨
            ∃ selection ∈ selections, selection.Survives schema document returned) ∨
          ∃ selection ∈ selections, selection.Asks schema document returned path) := by
  constructor
  · intro h
    cases h with
    | field hsurvives =>
      obtain ⟨returned, hfield, hbeneath⟩ := survives_field_iff.1 hsurvives
      exact ⟨rfl, returned, hfield, Or.inl ⟨rfl, hbeneath⟩⟩
    | nested hfield hmem hnested => exact ⟨rfl, _, hfield, Or.inr ⟨_, hmem, hnested⟩⟩
  · obtain ⟨object, field⟩ := asked
    rintro ⟨rfl, returned, hfield, ⟨rfl, hbeneath⟩ | ⟨selection, hmem, hnested⟩⟩
    · exact .field (survives_field_iff.2 ⟨returned, hfield, hbeneath⟩)
    · exact .nested hfield hmem hnested

theorem asks_inline_iff {condition? : Option String} {directives : List Directive}
    {selections : List Selection} {asked : ObjectField} {path : List ObjectField} :
    (Selection.inline condition? directives selections).Asks schema document typeName
        (asked :: path) ↔
      schema.hasType (condition?.getD typeName) = true ∧
        schema.MayBe (condition?.getD typeName) asked.object ∧
          ∃ selection ∈ selections,
            selection.Asks schema document (condition?.getD typeName) (asked :: path) := by
  constructor
  · rintro (_ | _ | ⟨hknown, hobject, hmem, hinner⟩)
    exact ⟨hknown, hobject, _, hmem, hinner⟩
  · rintro ⟨hknown, hobject, selection, hmem, hinner⟩
    exact .inline hknown hobject hmem hinner

theorem asks_spread_iff {name : String} {directives : List Directive} {asked : ObjectField}
    {path : List ObjectField} :
    (Selection.spread name directives).Asks schema document typeName (asked :: path) ↔
      ∃ fragment, document.fragment? name = some fragment ∧
        schema.hasType fragment.condition = true ∧ schema.MayBe fragment.condition asked.object ∧
          ∃ selection ∈ fragment.selections,
            selection.Asks schema document fragment.condition (asked :: path) := by
  constructor
  · rintro (_ | _ | _ | ⟨hfragment, hknown, hobject, hmem, hinner⟩)
    exact ⟨_, hfragment, hknown, hobject, _, hmem, hinner⟩
  · rintro ⟨fragment, hfragment, hknown, hobject, selection, hmem, hinner⟩
    exact .spread hfragment hknown hobject hmem hinner

/-- What asks for anything survives. -/
theorem Asks.survives {selection : Selection} {path : List ObjectField}
    (h : selection.Asks schema document typeName path) :
    selection.Survives schema document typeName := by
  induction h with
  | field hsurvives => exact hsurvives
  | nested hfield hmem _ ih => exact .composite hfield hmem ih
  | inline hknown _ hmem _ ih => exact .inline hknown hmem ih
  | spread hfragment hknown _ hmem _ ih => exact .spread hfragment hknown hmem ih

end Selection

/-! ## Usages -/

/-- The usage asks for the last field on this way. A part is applied to an object if a value of its
type may be the object. -/
inductive Usage.Asks (schema : Schema) : Usage → List ObjectField → Prop
  | field {usage field object} : field ∈ usage.fields → Asks schema usage [⟨object, field.name⟩]
  | nested {usage field nested object path} :
    field ∈ usage.fields → field.nested? = some nested → Asks schema nested path →
    Asks schema usage (⟨object, field.name⟩ :: path)
  | part {usage part asked path} :
    part ∈ usage.parts → schema.MayBe part.1 asked.object →
    Asks schema part.2 (asked :: path) → Asks schema usage (asked :: path)

/-- The field has this name, and asks for what is beneath it on this way. -/
def FieldUse.Asks (schema : Schema) (name : String) (path : List ObjectField) (field : FieldUse) :
    Prop :=
  field.name = name ∧ (path = [] ∨ ∃ nested, field.nested? = some nested ∧ nested.Asks schema path)

theorem FieldUse.asks_leaf_iff {schema : Schema} {name asked : String} {path : List ObjectField} :
    (FieldUse.leaf name).Asks schema asked path ↔ name = asked ∧ path = [] := by
  simp [FieldUse.Asks, leaf, FieldUse.name, nested?]

theorem FieldUse.asks_nested_iff {schema : Schema} {name asked : String} {usage : Usage}
    {path : List ObjectField} :
    (FieldUse.nested name usage).Asks schema asked path ↔
      name = asked ∧ (path = [] ∨ usage.Asks schema path) := by
  simp [FieldUse.Asks, nested, FieldUse.name, nested?]

/-- Arguments play no part. -/
theorem FieldUse.asks_withArguments {schema : Schema} {name : String} {path : List ObjectField}
    {field : FieldUse} {arguments : Arguments} :
    (field.withArguments arguments).Asks schema name path ↔ field.Asks schema name path := by
  unfold FieldUse.withArguments
  split
  · rfl
  · rfl

/-- A union of two uses of a field asks for what one of them asks for, if it is so for what is beneath
them. -/
theorem FieldUse.asks_merge {schema : Schema} {name : String} {path : List ObjectField}
    {known field : FieldUse} (hname : known.name = field.name)
    (hnested : ∀ new, field.nested? = some new → ∀ old : Usage,
      (old.merge new).Asks schema path ↔ old.Asks schema path ∨ new.Asks schema path) :
    (known.merge field).Asks schema name path ↔
      known.Asks schema name path ∨ field.Asks schema name path := by
  have hbeneath : (∃ nested, (known.merge field).nested? = some nested ∧
        nested.Asks schema path) ↔
      (∃ nested, known.nested? = some nested ∧ nested.Asks schema path) ∨
        ∃ nested, field.nested? = some nested ∧ nested.Asks schema path := by
    simp only [FieldUse.nested?_merge_eq_some]
    cases hnew : field.nested? with
    | none => simp
    | some new =>
      cases hold : known.nested? with
      | none => simp
      | some old => simpa using hnested new hnew old
  unfold FieldUse.Asks
  rw [FieldUse.name_merge, hbeneath, hname, ← and_or_left, or_or_distrib_left]

namespace Usage

variable {schema : Schema}

theorem asks_cons_iff {usage : Usage} {asked : ObjectField} {path : List ObjectField} :
    usage.Asks schema (asked :: path) ↔
      (∃ field ∈ usage.fields, field.Asks schema asked.field path) ∨
        ∃ part ∈ usage.parts, schema.MayBe part.1 asked.object ∧
          part.2.Asks schema (asked :: path) := by
  constructor
  · intro h
    cases h with
    | field hmem => exact Or.inl ⟨_, hmem, rfl, Or.inl rfl⟩
    | nested hmem hnested hasks => exact Or.inl ⟨_, hmem, rfl, Or.inr ⟨_, hnested, hasks⟩⟩
    | part hmem hobject hasks => exact Or.inr ⟨_, hmem, hobject, hasks⟩
  · obtain ⟨object, name⟩ := asked
    rintro (⟨field, hmem, rfl, rfl | ⟨nested, hnested, hasks⟩⟩ | ⟨part, hmem, hobject, hasks⟩)
    · exact .field hmem
    · exact .nested hmem hnested hasks
    · exact .part hmem hobject hasks

/-- Something is always asked for. -/
theorem not_asks_nil {usage : Usage} : ¬ usage.Asks schema [] := by
  rintro ⟨⟩

theorem not_asks_empty {path : List ObjectField} : ¬ Usage.empty.Asks schema path := by
  cases path with
  | nil => exact not_asks_nil
  | cons asked path =>
    rw [asks_cons_iff]
    simp [empty, fields, parts]

theorem asks_ofField_iff {field : FieldUse} {asked : ObjectField} {path : List ObjectField} :
    (ofField field).Asks schema (asked :: path) ↔ field.Asks schema asked.field path := by
  rw [asks_cons_iff]
  simp [ofField, fields, parts]

theorem asks_ofPart_iff {typeName : String} {part : Usage} {asked : ObjectField}
    {path : List ObjectField} :
    (ofPart typeName part).Asks schema (asked :: path) ↔
      schema.MayBe typeName asked.object ∧ part.Asks schema (asked :: path) := by
  rw [asks_cons_iff]
  simp [ofPart, fields, parts]

/-- **A union asks for what one of the two usages asks for.** -/
theorem asks_merge {old new : Usage} {path : List ObjectField} :
    (old.merge new).Asks schema path ↔ old.Asks schema path ∨ new.Asks schema path := by
  induction new using Usage.induction generalizing old path with
  | step new ihFields ihParts =>
    cases path with
    | nil => simp only [not_asks_nil, or_self]
    | cons asked path =>
      -- beneath a field the path gets shorter, and in a part it stays the same
      rw [asks_cons_iff, asks_cons_iff, asks_cons_iff, fields_merge, parts_merge,
        exists_mem_mergeFields, exists_mem_mergeParts, or_or_or_comm]
      · intro part hpart known hname
        rw [ihParts part hpart, hname, and_or_left]
      · intro field hfield known hname
        exact FieldUse.asks_merge hname fun nested hnested old => ihFields field hfield nested hnested

end Usage

/-! ## Where fields lead -/

namespace Schema

/-- The field of the outer object may return the inner object. -/
def MayReturn (schema : Schema) (outer inner : ObjectField) : Prop :=
  ∃ returned, schema.fieldType? outer.object outer.field = some returned ∧
    schema.MayBe returned inner.object

/-- The inner object may be returned by the field on each type that has it and whose values may be the
outer object. -/
def AllReturn (schema : Schema) (outer inner : ObjectField) : Prop :=
  ∀ typeName returned, schema.MayBe typeName outer.object →
    schema.fieldType? typeName outer.field = some returned → schema.MayBe returned inner.object

/-- **All types agree** on what a field returns, if implementers keep what their abstract types
promise. -/
theorem allReturn_of_mayReturn {schema : Schema} (hschema : schema.WellFormed)
    (hobjects : schema.ListsObjects) (hcovariant : schema.Covariant) {outer inner : ObjectField}
    (h : schema.MayReturn outer inner) : schema.AllReturn outer inner := by
  obtain ⟨narrower, hnarrower, hinner⟩ := h
  intro typeName returned hmayBe hreturned
  rcases hmayBe with hsame | himplements
  · rw [hsame, hreturned, Option.some.injEq] at hnarrower
    rw [hnarrower]; exact hinner
  · -- the object's own type returns the same type, or an implementer, which stands for itself alone
    obtain ⟨other, hother, hlisted⟩ :=
      hcovariant typeName outer.object himplements outer.field returned hreturned
    rw [hnarrower, Option.some.injEq] at hother
    subst hother
    rcases hlisted with rfl | himplements
    · exact hinner
    · rw [eq_of_mayBe_implementer hschema hobjects himplements hinner]
      exact Or.inr himplements

end Schema

end SelectionRecall
