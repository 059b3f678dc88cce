import SelectionRecall.Proofs.Schema.Possible

/-!
# Built schemas are closed

A schema that is built holds the types of its introspection result, each under its own name, and no
name in it leads outside. Names that would are among the faults of the introspection result, and a
result with faults is refused.

* `Schema.Indexes`: the schema holds what the introspection result declares.
* `Schema.Closed`: return types, implementers and root types are types of the schema.
* `Introspection.violations_eq_zero`, `Introspection.mem_typeNames_of_returns`: what is known of a
  result without faults.
* `Schema.closed_of_ofIntrospection`: built schemas index their results, and are closed.
-/

namespace SelectionRecall

namespace Introspection

variable {introspection : Introspection}

/-- In a result without faults nothing refers to nothing. -/
theorem violations_eq_zero (h : introspection.referenceErrors = []) (error : ReferenceError) :
    introspection.violations error = 0 := by
  rw [← count_referenceErrors, h]; rfl

/-- Then fields return declared types. -/
theorem mem_typeNames_of_returns (h : introspection.referenceErrors = []) {entry : TypeEntry}
    (hentry : entry ∈ introspection.types) {field returned : String}
    (hreturns : entry.Returns field returned) : returned ∈ introspection.typeNames := by
  by_contra hundeclared
  -- else it would be counted as a fault of this entry, and there is none
  have hnone := violations_eq_zero h (.undefinedFieldType entry.name field returned)
  have hsum := (Nat.add_eq_zero_iff.1 hnone).1
  have hentryNone := List.sum_eq_zero_iff_forall_eq_nat.1 hsum _ (List.mem_map_of_mem hentry)
  rw [violationsOf, if_pos ⟨rfl, hreturns, hundeclared⟩] at hentryNone
  cases hentryNone

/-- And root types are object types. -/
theorem declaresObject_of_root? (h : introspection.referenceErrors = []) {operation : OperationType}
    {root : String} (hroot : introspection.root? operation = some root) :
    introspection.DeclaresObject root := by
  by_contra hnoObject
  have hnone := violations_eq_zero h (.invalidRoot operation root)
  have hrootNone := (Nat.add_eq_zero_iff.1 hnone).2
  rw [rootViolations, if_pos ⟨hroot, hnoObject⟩] at hrootNone
  cases hrootNone

/-- Only declared types stand behind a type. -/
theorem mem_typeNames_of_mem_implementersOf {entry : TypeEntry} {object : String}
    (h : object ∈ introspection.implementersOf entry) : object ∈ introspection.typeNames := by
  unfold implementersOf at h
  split at h
  · split at h
    · exact (introspection.declares_iff object).1 (List.mem_filter.1 h).2
    · obtain ⟨other, hother, rfl⟩ := List.mem_map.1 h
      exact List.mem_map_of_mem (List.mem_filter.1 hother).1
  · cases h

end Introspection

namespace Schema

/-- **The schema holds what the introspection result declares.** -/
structure Indexes (schema : Schema) (introspection : Introspection) : Prop where
  /-- The types are the declared ones, with their kinds. -/
  types : schema.types.map (fun type => (type.name, type.kind)) =
    introspection.types.map fun entry => (entry.name, entry.kind)
  /-- Each type is found under its own name, and under no other one. -/
  found : ∀ name type, schema.type? name = some type ↔ type ∈ schema.types ∧ type.name = name
  /-- The kind of a type is the declared one. -/
  kinds : ∀ name kind, schema.kind? name = some kind ↔
    ∃ entry ∈ introspection.types, entry.name = name ∧ entry.kind = kind
  /-- A type has the fields that the declared one returns something for. -/
  fields : ∀ name field returned,
    (∃ type, schema.type? name = some type ∧ type.fields.lookup field = some returned) ↔
      ∃ entry ∈ introspection.types, entry.name = name ∧ entry.Returns field returned
  /-- The root types are the declared ones. -/
  roots : ∀ operation, schema.root? operation = introspection.root? operation

/-- **No name leads outside the schema.** -/
structure Closed (schema : Schema) : Prop where
  /-- Fields return types of the schema. -/
  fields : ∀ type ∈ schema.types, ∀ field ∈ type.fields, schema.hasType field.2 = true
  /-- Types of the schema stand behind abstract ones. -/
  implementers : ∀ type ∈ schema.types, ∀ object ∈ type.implementers, schema.hasType object = true
  /-- Operations start from object types. -/
  roots : ∀ operation root, schema.root? operation = some root → schema.kind? root = some .object
  /-- Nothing stands behind other types. -/
  wellFormed : schema.WellFormed

variable {introspection : Introspection} {schema : Schema}

/-- What is found in a built schema is a declared type. -/
theorem type?_eq_some_iff (h : ofIntrospection introspection = .ok schema) (name : String)
    (type : SchemaType) :
    schema.type? name = some type ↔
      ∃ entry ∈ introspection.types, entry.name = name ∧ introspection.schemaType entry = type := by
  obtain ⟨hdistinct, -, queryType, -, rfl⟩ := (ofIntrospection_eq_ok_iff introspection schema).1 h
  change (introspection.types.map introspection.schemaType).find? _ = _ ↔ _
  rw [List.find?_map, Option.map_eq_some_iff]
  constructor
  · rintro ⟨entry, hfound, rfl⟩
    have hname := List.find?_some hfound
    rw [Function.comp_apply, decide_eq_true_iff] at hname
    exact ⟨entry, List.mem_of_find?_eq_some hfound, hname, rfl⟩
  · rintro ⟨entry, hentry, rfl, rfl⟩
    exact ⟨entry, Keyed.find?_of_mem hdistinct hentry, rfl⟩

theorem hasType_iff (h : ofIntrospection introspection = .ok schema) (name : String) :
    schema.hasType name = true ↔ name ∈ introspection.typeNames := by
  unfold hasType
  rw [Option.isSome_iff_exists]
  simp only [type?_eq_some_iff h]
  constructor
  · rintro ⟨-, entry, hentry, rfl, -⟩
    exact List.mem_map_of_mem hentry
  · intro hname
    obtain ⟨entry, hentry, hentryName⟩ := List.mem_map.1 hname
    exact ⟨_, entry, hentry, hentryName, rfl⟩

theorem kind?_eq_some_iff (h : ofIntrospection introspection = .ok schema) (name : String)
    (kind : TypeKind) :
    schema.kind? name = some kind ↔
      ∃ entry ∈ introspection.types, entry.name = name ∧ entry.kind = kind := by
  unfold kind?
  rw [Option.map_eq_some_iff]
  simp only [type?_eq_some_iff h]
  constructor
  · rintro ⟨-, ⟨entry, hentry, hname, rfl⟩, hkind⟩
    exact ⟨entry, hentry, hname, hkind⟩
  · rintro ⟨entry, hentry, hname, hkind⟩
    exact ⟨_, ⟨entry, hentry, hname, rfl⟩, hkind⟩

theorem indexes_of_ofIntrospection (h : ofIntrospection introspection = .ok schema) :
    schema.Indexes introspection where
  types := by
    obtain ⟨-, -, queryType, -, rfl⟩ := (ofIntrospection_eq_ok_iff introspection schema).1 h
    exact List.map_map
  found := by
    intro name type
    rw [type?_eq_some_iff h]
    obtain ⟨-, -, queryType, -, rfl⟩ := (ofIntrospection_eq_ok_iff introspection schema).1 h
    change _ ↔ type ∈ introspection.types.map introspection.schemaType ∧ _
    rw [List.mem_map]
    constructor
    · rintro ⟨entry, hentry, hname, rfl⟩
      exact ⟨⟨entry, hentry, rfl⟩, hname⟩
    · rintro ⟨⟨entry, hentry, rfl⟩, hname⟩
      exact ⟨entry, hentry, hname, rfl⟩
  kinds := kind?_eq_some_iff h
  fields := by
    intro name field returned
    simp only [type?_eq_some_iff h, ← Introspection.TypeEntry.lookup_fieldTypes_eq_some_iff]
    constructor
    · rintro ⟨-, ⟨entry, hentry, hname, rfl⟩, hfield⟩
      exact ⟨entry, hentry, hname, hfield⟩
    · rintro ⟨entry, hentry, hname, hfield⟩
      exact ⟨_, ⟨entry, hentry, hname, rfl⟩, hfield⟩
  roots := by
    obtain ⟨-, -, queryType, hquery, rfl⟩ := (ofIntrospection_eq_ok_iff introspection schema).1 h
    intro operation
    cases operation with
    | query => exact hquery.symm
    | mutation => rfl
    | subscription => rfl

/-- **Built schemas are closed**, and hold what was declared: the types under their own names with
their kinds, their fields, and the root types. -/
theorem closed_of_ofIntrospection (h : ofIntrospection introspection = .ok schema) :
    schema.Indexes introspection ∧ schema.Closed := by
  have hindexes := indexes_of_ofIntrospection h
  obtain ⟨-, hnoErrors, queryType, -, hschema⟩ :=
    (ofIntrospection_eq_ok_iff introspection schema).1 h
  have htypes : schema.types = introspection.types.map introspection.schemaType := by rw [hschema]
  refine ⟨hindexes, ?_, ?_, ?_, wellFormed_of_ofIntrospection h⟩
  · intro type htype field hfield
    rw [htypes] at htype
    obtain ⟨entry, hentry, rfl⟩ := List.mem_map.1 htype
    have hreturns := (entry.mem_fieldTypes_iff field.1 field.2).1 hfield
    exact (hasType_iff h _).2 (Introspection.mem_typeNames_of_returns hnoErrors hentry hreturns)
  · intro type htype object hobject
    rw [htypes] at htype
    obtain ⟨entry, -, rfl⟩ := List.mem_map.1 htype
    exact (hasType_iff h _).2 (Introspection.mem_typeNames_of_mem_implementersOf hobject)
  · intro operation root hroot
    rw [hindexes.roots] at hroot
    exact (hindexes.kinds root .object).2 (Introspection.declaresObject_of_root? hnoErrors hroot)

/-- Animals, which list no possible types. The name of an animal was first declared to return a type
that does not exist. -/
def animals : Introspection where
  queryType? := some "Query"
  mutationType? := none
  subscriptionType? := none
  types :=
    let reference (name : String) : Introspection.Reference := .mk .object (some name) none
    [⟨.object, "Query", some [⟨"all", .mk .list none (some (reference "Animal"))⟩], some [], none⟩,
      ⟨.interface, "Animal", some [⟨"name", reference "String"⟩], none, none⟩,
      ⟨.object, "Cat", some [⟨"name", reference "Name"⟩, ⟨"name", reference "String"⟩],
        some [reference "Animal"], none⟩,
      ⟨.scalar, "String", none, none, none⟩]

/-- The interface has the object type behind it that names it. -/
theorem closed_of_ofIntrospection_animals :
    ∃ schema, ofIntrospection animals = .ok schema ∧ schema.Indexes animals ∧ schema.Closed ∧
      schema.implementers "Animal" = ["Cat"] := by
  have hnoErrors : animals.referenceErrors = [] :=
    animals.referenceErrors_eq_nil_iff.2 (by decide +kernel)
  have hok : ofIntrospection animals =
      .ok ⟨"Query", none, none, animals.types.map animals.schemaType⟩ :=
    (ofIntrospection_eq_ok_iff animals _).2 ⟨by decide +kernel, hnoErrors, "Query", rfl, rfl⟩
  obtain ⟨hindexes, hclosed⟩ := closed_of_ofIntrospection hok
  exact ⟨_, hok, hindexes, hclosed, by decide +kernel⟩

end Schema

end SelectionRecall
