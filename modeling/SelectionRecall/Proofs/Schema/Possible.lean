import SelectionRecall.Proofs.Schema.Faults

/-!
# Possible types

Which objects a value of a type may be, and what is asked of a schema whose abstract types keep what
they promise.

* `Schema.MayBe`: the types of the objects that a value of a type may be.
* `Schema.WellFormed`: only abstract types have implementers, as in every schema that is built.
* `Schema.ListsObjects`: all implementers are object types.
* `Schema.Covariant`: implementers have the fields of the abstract type, and return no more.
* `Schema.possible`, `Schema.Overlap`: the objects of a type, and types with a common one.
* `Schema.KeepsFieldTypes`: implementers return the same as the abstract type.
* `Schema.wellFormed_of_ofIntrospection`, `Schema.eq_of_mayBe_implementer`,
  `Schema.covariant_of_types`, `Schema.keepsFieldTypes_of_types`.
-/

namespace SelectionRecall

namespace Schema

section

variable (schema : Schema)

/-- A value of the type may be an object of this type, which is the type itself or an implementer. -/
def MayBe (typeName object : String) : Prop :=
  object = typeName ∨ object ∈ schema.implementers typeName

/-- Only abstract types have implementers. -/
def WellFormed : Prop :=
  ∀ type ∈ schema.types, type.kind.isAbstract = false → type.implementers = []

/-- All implementers are object types. -/
def ListsObjects : Prop :=
  ∀ type ∈ schema.types, ∀ object ∈ type.implementers, schema.kind? object = some .object

/-- A field that is known on an abstract type is known on its implementers, where it returns the same
type or an implementer of it. -/
def Covariant : Prop :=
  ∀ typeName, ∀ object ∈ schema.implementers typeName, ∀ field returned,
    schema.fieldType? typeName field = some returned →
      ∃ narrower, schema.fieldType? object field = some narrower ∧ schema.MayBe returned narrower

/-- A field that is known on an abstract type is known on its implementers with the same return type. -/
def KeepsFieldTypes : Prop :=
  ∀ typeName, ∀ object ∈ schema.implementers typeName, ∀ field returned,
    schema.fieldType? typeName field = some returned →
      schema.fieldType? object field = some returned

/-- The object types of the values of a type: an object type itself, or the implementers of an abstract
one. Values of any other type are no objects. -/
def possible (typeName : String) : List String :=
  match schema.kind? typeName with
  | none => []
  | some kind =>
    if kind = .object then [typeName] else if kind.isAbstract then schema.implementers typeName else []

/-- Some object is a value of both types. -/
def Overlap (first second : String) : Prop :=
  ∃ object ∈ schema.possible first, object ∈ schema.possible second

instance (first second : String) : Decidable (schema.Overlap first second) :=
  inferInstanceAs (Decidable (∃ object ∈ schema.possible first, object ∈ schema.possible second))

instance (typeName object : String) : Decidable (schema.MayBe typeName object) :=
  inferInstanceAs (Decidable (object = typeName ∨ object ∈ schema.implementers typeName))

instance : Decidable schema.WellFormed :=
  inferInstanceAs (Decidable (∀ type ∈ schema.types,
    type.kind.isAbstract = false → type.implementers = []))

instance : Decidable schema.ListsObjects :=
  inferInstanceAs (Decidable (∀ type ∈ schema.types, ∀ object ∈ type.implementers,
    schema.kind? object = some .object))

end

variable {schema : Schema}

/-- **Built schemas are well-formed.** -/
theorem wellFormed_of_ofIntrospection {introspection : Introspection}
    (h : ofIntrospection introspection = .ok schema) : schema.WellFormed := by
  obtain ⟨-, -, queryType, -, rfl⟩ := (ofIntrospection_eq_ok_iff introspection schema).1 h
  intro type htype hconcrete
  obtain ⟨entry, -, rfl⟩ := List.mem_map.1 htype
  have hkind : entry.kind.isAbstract = false := hconcrete
  change introspection.implementersOf entry = []
  unfold Introspection.implementersOf
  rw [hkind]; rfl

/-- Implementers are those that a type of the schema lists. -/
theorem exists_type_of_mem_implementers {typeName object : String}
    (h : object ∈ schema.implementers typeName) :
    ∃ type, schema.type? typeName = some type ∧ type ∈ schema.types ∧
      object ∈ type.implementers := by
  unfold implementers at h
  cases htype : schema.type? typeName with
  | none => rw [htype] at h; simp at h
  | some type =>
    rw [htype] at h
    exact ⟨type, rfl, List.mem_of_find?_eq_some htype, h⟩

/-- An implementer stands for itself alone. -/
theorem eq_of_mayBe_implementer (hschema : schema.WellFormed) (hobjects : schema.ListsObjects)
    {typeName implementer object : String} (h : implementer ∈ schema.implementers typeName)
    (hobject : schema.MayBe implementer object) : object = implementer := by
  rcases hobject with rfl | hmem
  · rfl
  -- an object type lists no implementers
  obtain ⟨owner, -, howner, hlisted⟩ := exists_type_of_mem_implementers h
  have hkind := hobjects owner howner implementer hlisted
  obtain ⟨type, htype, hmemType, hmemObject⟩ := exists_type_of_mem_implementers hmem
  unfold kind? at hkind
  rw [htype, Option.map_some, Option.some.injEq] at hkind
  have hnone := hschema type hmemType (by rw [hkind]; rfl)
  rw [hnone] at hmemObject
  simp at hmemObject

/-- A known field is one that the type declares, or the one that all composite types have. -/
theorem mem_fields_of_fieldType? {typeName field returned : String} {type : SchemaType}
    (htype : schema.type? typeName = some type)
    (h : schema.fieldType? typeName field = some returned) :
    (field, returned) ∈ (typenameField, typenameType) :: type.fields := by
  unfold fieldType? at h
  rw [htype] at h
  dsimp only at h
  cases hlookup : type.fields.lookup field with
  | some declared =>
    rw [hlookup, Option.some.injEq] at h
    exact List.mem_cons_of_mem _ (h ▸ Keyed.mem_of_lookup hlookup)
  | none =>
    rw [hlookup] at h
    dsimp only at h
    split at h
    · rename_i hname
      rw [hname.1, ← Option.some.inj h]; exact List.mem_cons_self
    · simp at h

/-- It is enough to look at the fields that types declare, and at the one that all of them have. -/
theorem covariant_of_types
    (h : ∀ type ∈ schema.types, ∀ object ∈ type.implementers,
      ∀ field ∈ (typenameField, typenameType) :: type.fields,
        (schema.fieldType? object field.1).any fun narrower =>
          decide (schema.MayBe field.2 narrower)) : schema.Covariant := by
  intro typeName object hobject field returned hreturned
  obtain ⟨type, htype, hmem, hlisted⟩ := exists_type_of_mem_implementers hobject
  have hfield := mem_fields_of_fieldType? htype hreturned
  obtain ⟨narrower, hknown, hmayBe⟩ := (Option.any_eq_true _ _).1 (h type hmem object hlisted _ hfield)
  exact ⟨narrower, hknown, of_decide_eq_true hmayBe⟩

/-- So it is here. -/
theorem keepsFieldTypes_of_types
    (h : ∀ type ∈ schema.types, ∀ object ∈ type.implementers,
      ∀ field ∈ (typenameField, typenameType) :: type.fields,
        schema.fieldType? object field.1 = some field.2) : schema.KeepsFieldTypes := by
  intro typeName object hobject field returned hreturned
  obtain ⟨type, htype, hmem, hlisted⟩ := exists_type_of_mem_implementers hobject
  exact h type hmem object hlisted _ (mem_fields_of_fieldType? htype hreturned)

end Schema

end SelectionRecall
