import SelectionRecall.Proofs.Schema.Closed

/-!
# What stands behind abstract types

An interface or a union either lists its possible types, or lists nothing and has the object types that
name it among their interfaces. In a schema that is built nothing of the second kind is lost. Of what an
abstract type lists, a type that is not declared keeps the schema from being built, but a reference
whose wrappers end without a name does not: it is passed over. So an abstract type has one implementer
for each reference that it lists just if each of them has a name.

* `TypeEntry.Mentions`: a type that names an interface among its interfaces.
* `Reference.forall₂_wraps_filterMap`: the named types of those references that have one.
* `Introspection.implementersOf_of_listed`: what is listed by a type of a result without faults.
* `Schema.implementers_of_ofIntrospection`: what stands behind each abstract type.
* `Schema.implementers_of_ofIntrospection_shelter`: an implementer that is passed over.
-/

namespace SelectionRecall

namespace Introspection

/-- One of the interfaces that the type names is this one. -/
def TypeEntry.Mentions (entry : TypeEntry) (interface : String) : Prop :=
  ∃ reference ∈ entry.interfaces?.getD [], reference.Wraps interface

theorem TypeEntry.implements_iff (entry : TypeEntry) (interface : String) :
    entry.implements interface = true ↔ entry.kind = .object ∧ entry.Mentions interface := by
  simp [implements, Mentions, Reference.namedType?_eq_some_iff]

namespace Reference

/-- The named types of references are those of the references that have one, in order. -/
theorem forall₂_wraps_filterMap (references : List Reference) :
    List.Forall₂ Wraps (references.filter fun reference => ¬ reference.Unnamed)
      (references.filterMap namedType?) := by
  induction references with
  | nil => exact .nil
  | cons reference rest ih =>
    cases hnamed : reference.namedType? with
    | none =>
      have hunnamed := (namedType?_eq_none_iff reference).1 hnamed
      rwa [List.filter_cons_of_neg (by simpa using hunnamed), List.filterMap_cons_none hnamed]
    | some name =>
      have hwraps := (namedType?_eq_some_iff reference name).1 hnamed
      have hkept : ¬ reference.Unnamed := fun hunnamed => hunnamed name hwraps
      rw [List.filter_cons_of_pos (by simpa using hkept), List.filterMap_cons_some hnamed]
      exact .cons hwraps ih

/-- So there is one for each reference just if all of them have one. -/
theorem forall₂_wraps_filterMap_iff (references : List Reference) :
    List.Forall₂ Wraps references (references.filterMap namedType?) ↔
      ∀ reference ∈ references, ¬ reference.Unnamed := by
  constructor
  · intro heach
    generalize references.filterMap namedType? = names at heach
    induction heach with
    | nil => exact List.forall_mem_nil _
    | cons hwraps _ ih => exact List.forall_mem_cons.2 ⟨fun hunnamed => hunnamed _ hwraps, ih⟩
  · intro hnamed
    have hall := forall₂_wraps_filterMap references
    rwa [List.filter_eq_self.2 fun reference hreference =>
      decide_eq_true (hnamed reference hreference)] at hall

end Reference

variable {introspection : Introspection}

/-- In a result without faults nothing that an abstract type lists is undeclared, so that all of it
stands behind the type. -/
theorem implementersOf_of_listed (h : introspection.referenceErrors = []) {entry : TypeEntry}
    (hentry : entry ∈ introspection.types) (habstract : entry.kind.isAbstract = true)
    {references : List Reference} (hlisted : entry.possibleTypes? = some references) :
    introspection.implementersOf entry = references.filterMap Reference.namedType? := by
  obtain ⟨-, -, hpossible, -⟩ := (introspection.referenceErrors_eq_nil_iff.1 h).1 entry hentry
  unfold undefinedPossibleTypes at hpossible
  rw [if_pos habstract, hlisted, Option.getD_some, List.filterMap_eq_nil_iff] at hpossible
  unfold implementersOf
  rw [if_pos habstract, hlisted]
  refine List.filter_eq_self.2 fun name hname => ?_
  by_contra hundeclared
  have hreported := hpossible name hname
  rw [if_neg hundeclared] at hreported
  cases hreported

/-- An abstract type that lists nothing has the object types that name it behind it. -/
theorem implementersOf_of_unlisted {entry : TypeEntry} (habstract : entry.kind.isAbstract = true)
    (hunlisted : entry.possibleTypes? = none) :
    introspection.implementersOf entry =
      (introspection.types.filter fun other => other.implements entry.name).map TypeEntry.name := by
  unfold implementersOf
  rw [if_pos habstract, hunlisted]

end Introspection

namespace Schema

open Introspection

variable {introspection : Introspection} {schema : Schema}

/-- The types behind a declared type of a built schema. -/
theorem implementers_eq_implementersOf (h : ofIntrospection introspection = .ok schema)
    {entry : TypeEntry} (hentry : entry ∈ introspection.types) :
    schema.implementers entry.name = introspection.implementersOf entry := by
  have hfound := (type?_eq_some_iff h entry.name _).2 ⟨entry, hentry, rfl, rfl⟩
  unfold implementers
  rw [hfound]
  rfl

/-- **What stands behind an abstract type of a built schema.** If the type lists possible types, they
are the named types of those that have one, in order, and there is one for each of them just if all of
them have one. If it lists nothing, they are the object types that name it among their interfaces, once
each and in the order of the types. -/
theorem implementers_of_ofIntrospection (h : ofIntrospection introspection = .ok schema)
    {entry : TypeEntry} (hentry : entry ∈ introspection.types)
    (habstract : entry.kind.isAbstract = true) :
    (∀ references, entry.possibleTypes? = some references →
      List.Forall₂ Reference.Wraps (references.filter fun reference => ¬ reference.Unnamed)
        (schema.implementers entry.name) ∧
      (List.Forall₂ Reference.Wraps references (schema.implementers entry.name) ↔
        ∀ reference ∈ references, ¬ reference.Unnamed)) ∧
    (entry.possibleTypes? = none →
      (schema.implementers entry.name).Sublist introspection.typeNames ∧
      (schema.implementers entry.name).Nodup ∧
      ∀ object, object ∈ schema.implementers entry.name ↔
        ∃ other ∈ introspection.types, other.name = object ∧ other.kind = .object ∧
          other.Mentions entry.name) := by
  obtain ⟨hdistinct, hnoErrors, -⟩ := (ofIntrospection_eq_ok_iff introspection schema).1 h
  rw [implementers_eq_implementersOf h hentry]
  constructor
  · intro references hlisted
    rw [implementersOf_of_listed hnoErrors hentry habstract hlisted]
    exact ⟨Reference.forall₂_wraps_filterMap references,
      Reference.forall₂_wraps_filterMap_iff references⟩
  · intro hunlisted
    rw [implementersOf_of_unlisted habstract hunlisted]
    have hsublist : ((introspection.types.filter fun other => other.implements entry.name).map
        TypeEntry.name).Sublist introspection.typeNames := List.filter_sublist.map _
    refine ⟨hsublist, hdistinct.sublist hsublist, fun object => ?_⟩
    simp only [List.mem_map, List.mem_filter, TypeEntry.implements_iff]
    constructor
    · rintro ⟨other, ⟨hother, hkind, hmentions⟩, hname⟩
      exact ⟨other, hother, hname, hkind, hmentions⟩
    · rintro ⟨other, hother, hname, hkind, hmentions⟩
      exact ⟨other, ⟨hother, hkind, hmentions⟩, hname⟩

/-- A shelter, whose animals are listed with a reference that ends without a name. Who has a name is not
listed, and cats and dogs name it among their interfaces. -/
def shelter : Introspection where
  queryType? := some "Query"
  mutationType? := none
  subscriptionType? := none
  types :=
    let reference (name : String) : Introspection.Reference := .mk .object (some name) none
    let name : Introspection.Field := ⟨"name", .mk .nonNull none (some (reference "String"))⟩
    [⟨.object, "Query", some [⟨"all", .mk .list none (some (reference "Animal"))⟩], some [], none⟩,
      ⟨.object, "Dog", some [name],
        some [.mk .nonNull none (some (reference "Named")), reference "Named"], none⟩,
      ⟨.interface, "Animal", some [name], none, some [reference "Cat", .mk .nonNull none none]⟩,
      ⟨.interface, "Named", some [name], none, none⟩,
      ⟨.object, "Cat", some [name], some [reference "Animal", reference "Named"], none⟩,
      ⟨.scalar, "String", none, none, none⟩]

theorem ofIntrospection_shelter :
    ofIntrospection shelter = .ok ⟨"Query", none, none, shelter.types.map shelter.schemaType⟩ := by
  have hnoErrors : shelter.referenceErrors = [] :=
    shelter.referenceErrors_eq_nil_iff.2 (by decide +kernel)
  exact (ofIntrospection_eq_ok_iff shelter _).2 ⟨by decide +kernel, hnoErrors, "Query", rfl, rfl⟩

/-- **A reference without a name is passed over.** The schema is built, and the interface has one type
behind it where it lists two. Nobody who names the other interface is lost. -/
theorem implementers_of_ofIntrospection_shelter :
    ∃ schema, ofIntrospection shelter = .ok schema ∧
      schema.implementers "Animal" = ["Cat"] ∧
      ¬ List.Forall₂ Reference.Wraps [.mk .object (some "Cat") none, .mk .nonNull none none]
        (schema.implementers "Animal") ∧
      schema.implementers "Named" = ["Dog", "Cat"] ∧
      ∀ object, object ∈ schema.implementers "Named" ↔
        ∃ other ∈ shelter.types, other.name = object ∧ other.kind = .object ∧
          other.Mentions "Named" := by
  have hanimal : shelter.types[2] ∈ shelter.types := List.getElem_mem _
  have hnamed : shelter.types[3] ∈ shelter.types := List.getElem_mem _
  obtain ⟨hlisted, -⟩ := implementers_of_ofIntrospection ofIntrospection_shelter hanimal rfl
  obtain ⟨-, hunlisted⟩ := implementers_of_ofIntrospection ofIntrospection_shelter hnamed rfl
  have hunnamed : Reference.Unnamed (.mk .nonNull none none) := by decide
  refine ⟨_, ofIntrospection_shelter, by decide +kernel, fun heach => ?_, by decide +kernel,
    (hunlisted rfl).2.2⟩
  exact (hlisted _ rfl).2.1 heach _ (by simp) hunnamed

end Schema

end SelectionRecall
