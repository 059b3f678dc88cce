import Mathlib.Data.Option.Basic
import SelectionRecall.Proofs.Schema.Implementers

/-!
# The order of declarations

Types may be declared in any order: what refers to a type does not ask whether it comes before or after.
The same declarations in another order have the same faults, and give a schema just if the first ones do.
Both schemas then say the same. Only the implementers of an abstract type that lists none come in the
order of the declarations.

* `Introspection.Reordered`: the same declarations in another order.
* `Introspection.Reordered.referenceErrors_perm`: they have the same faults.
* `SchemaType.Reordered`, `Schema.Reordered`: types and schemas that say the same.
* `Schema.ComesOut`: two outcomes that differ by the order of declarations alone.
* `Schema.comesOut_of_reordered`: the order of declarations makes no other difference.
* `Schema.comesOut_of_reordered_shelter`: the difference that it makes.
-/

namespace SelectionRecall

namespace Introspection

/-- The second result declares the same root types, and the same types in another order. -/
structure Reordered (introspection other : Introspection) : Prop where
  queryType : other.queryType? = introspection.queryType?
  mutationType : other.mutationType? = introspection.mutationType?
  subscriptionType : other.subscriptionType? = introspection.subscriptionType?
  types : introspection.types.Perm other.types

namespace Reordered

variable {introspection other : Introspection}

theorem root?_eq (h : introspection.Reordered other) (operation : OperationType) :
    other.root? operation = introspection.root? operation := by
  cases operation with
  | query => exact h.queryType
  | mutation => exact h.mutationType
  | subscription => exact h.subscriptionType

theorem typeNames_perm (h : introspection.Reordered other) :
    introspection.typeNames.Perm other.typeNames := h.types.map TypeEntry.name

theorem declares_eq (h : introspection.Reordered other) : other.declares = introspection.declares :=
  funext fun _ => h.types.symm.any_eq

theorem invalidRoot_eq (h : introspection.Reordered other) :
    other.invalidRoot = introspection.invalidRoot := by
  funext operation root?
  cases root? with
  | none => rfl
  | some name => rw [invalidRoot, invalidRoot, h.types.any_eq]

/-- **The same faults** are found, in another order. -/
theorem referenceErrors_perm (h : introspection.Reordered other) :
    introspection.referenceErrors.Perm other.referenceErrors := by
  have hfields : other.undefinedFields = introspection.undefinedFields := by
    funext entry; rw [undefinedFields, h.declares_eq]; rfl
  have hpossible : other.undefinedPossibleTypes = introspection.undefinedPossibleTypes := by
    funext entry; rw [undefinedPossibleTypes, h.declares_eq]; rfl
  have hinterfaces : other.undefinedInterfaces = introspection.undefinedInterfaces := by
    funext entry; rw [undefinedInterfaces, h.declares_eq]; rfl
  -- undefined fields are told by the names of their owners, which sorts both lists of types
  have hsorted : introspection.sortedTypes.Perm other.sortedTypes :=
    (List.mergeSort_perm _ _).trans (h.types.trans (List.mergeSort_perm _ _).symm)
  unfold referenceErrors
  rw [hfields, hpossible, hinterfaces, h.invalidRoot_eq, h.queryType, h.mutationType,
    h.subscriptionType]
  refine .append_right _ (.append_right _ (.append_right _ ?_))
  exact (((h.types.flatMap_right _).append (hsorted.flatMap_right _)).append
    (h.types.flatMap_right _)).append (h.types.flatMap_right _)

/-- What a type lists stands behind it in the order of the list. -/
theorem implementersOf_eq (h : introspection.Reordered other) {entry : TypeEntry}
    (hlisted : entry.possibleTypes?.isSome) :
    other.implementersOf entry = introspection.implementersOf entry := by
  obtain ⟨references, hreferences⟩ := Option.isSome_iff_exists.1 hlisted
  unfold implementersOf
  rw [hreferences, h.declares_eq]

/-- Otherwise the types behind it come in another order. -/
theorem implementersOf_perm (h : introspection.Reordered other) (entry : TypeEntry) :
    (introspection.implementersOf entry).Perm (other.implementersOf entry) := by
  cases hlisted : entry.possibleTypes? with
  | some references => rw [h.implementersOf_eq (by rw [hlisted]; rfl)]
  | none =>
    unfold implementersOf
    rw [hlisted]
    cases entry.kind.isAbstract with
    | false => exact .refl _
    | true => exact (h.types.filter _).map _

end Reordered

end Introspection

/-- Two types that say the same, with implementers in another order. -/
structure SchemaType.Reordered (type other : SchemaType) : Prop where
  name : other.name = type.name
  kind : other.kind = type.kind
  fields : other.fields = type.fields
  implementers : type.implementers.Perm other.implementers

namespace Schema

/-- **Two schemas of the same declarations that say the same**: the same types under the same names and
the same root types. Where the declarations list possible types, the same implementers come in the same
order. -/
structure Reordered (introspection : Introspection) (schema other : Schema) : Prop where
  names : (schema.types.map SchemaType.name).Perm (other.types.map SchemaType.name)
  found : ∀ name, Option.Rel SchemaType.Reordered (schema.type? name) (other.type? name)
  roots : ∀ operation, other.root? operation = schema.root? operation
  listed : ∀ entry ∈ introspection.types, entry.possibleTypes?.isSome →
    other.implementers entry.name = schema.implementers entry.name

/-- **Two outcomes of the same declarations**: schemas that say the same, or errors of the same kind,
where all references that lead nowhere are told in either order. -/
inductive ComesOut (introspection : Introspection) :
    Except SchemaError Schema → Except SchemaError Schema → Prop
  | built {schema other} :
    Reordered introspection schema other → ComesOut introspection (.ok schema) (.ok other)
  | duplicateType {name other} :
    ComesOut introspection (.error (.duplicateType name)) (.error (.duplicateType other))
  | noQueryType : ComesOut introspection (.error .noQueryType) (.error .noQueryType)
  | brokenReferences {errors others : List ReferenceError} :
    errors.Perm others →
      ComesOut introspection (.error (.brokenReferences errors)) (.error (.brokenReferences others))

variable {introspection other : Introspection} {schema : Schema}

/-- When names repeat, one of them is told. -/
theorem ofIntrospection_of_not_nodup (h : ¬ introspection.typeNames.Nodup) :
    ∃ name, ofIntrospection introspection = .error (.duplicateType name) := by
  rw [← Introspection.duplicate?_eq_none_iff] at h
  obtain ⟨name, hname⟩ := Option.ne_none_iff_exists'.1 h
  exact ⟨name, by rw [ofIntrospection, hname]⟩

/-- When they do not, a missing query type is told. -/
theorem ofIntrospection_of_queryType?_eq_none (h : introspection.typeNames.Nodup)
    (hquery : introspection.queryType? = none) :
    ofIntrospection introspection = .error .noQueryType := by
  rw [ofIntrospection, introspection.duplicate?_eq_none_iff.2 h, hquery]

/-- When it is not missing, all faults are told. -/
theorem ofIntrospection_of_referenceErrors_ne_nil (h : introspection.typeNames.Nodup)
    (hquery : introspection.queryType?.isSome) (herrors : introspection.referenceErrors ≠ []) :
    ofIntrospection introspection = .error (.brokenReferences introspection.referenceErrors) := by
  obtain ⟨queryType, hsome⟩ := Option.isSome_iff_exists.1 hquery
  obtain ⟨error, rest, hfaults⟩ := List.exists_cons_of_ne_nil herrors
  rw [ofIntrospection, introspection.duplicate?_eq_none_iff.2 h, hsome, hfaults]

/-- Schemas that are built from the same declarations say the same. -/
theorem reordered_of_ofIntrospection (h : introspection.Reordered other) {reordered : Schema}
    (hschema : ofIntrospection introspection = .ok schema)
    (hother : ofIntrospection other = .ok reordered) :
    Reordered introspection schema reordered where
  names := by
    obtain ⟨-, -, queryType, -, rfl⟩ := (ofIntrospection_eq_ok_iff introspection schema).1 hschema
    obtain ⟨-, -, queryType', -, rfl⟩ := (ofIntrospection_eq_ok_iff other reordered).1 hother
    change ((introspection.types.map introspection.schemaType).map _).Perm
      ((other.types.map other.schemaType).map _)
    rw [List.map_map, List.map_map]
    exact h.typeNames_perm
  found := by
    intro name
    cases hfound : schema.type? name with
    | some type =>
      obtain ⟨entry, hentry, hname, rfl⟩ := (type?_eq_some_iff hschema name type).1 hfound
      rw [(type?_eq_some_iff hother name _).2 ⟨entry, h.types.mem_iff.1 hentry, hname, rfl⟩]
      exact .some ⟨rfl, rfl, rfl, h.implementersOf_perm entry⟩
    | none =>
      cases hother' : reordered.type? name with
      | none => exact .none
      | some type =>
        obtain ⟨entry, hentry, hname, -⟩ := (type?_eq_some_iff hother name type).1 hother'
        have hknown := (type?_eq_some_iff hschema name _).2
          ⟨entry, h.types.mem_iff.2 hentry, hname, rfl⟩
        rw [hfound] at hknown
        cases hknown
  roots := by
    intro operation
    rw [(indexes_of_ofIntrospection hschema).roots, (indexes_of_ofIntrospection hother).roots,
      h.root?_eq]
  listed := by
    intro entry hentry hlisted
    rw [implementers_eq_implementersOf hschema hentry,
      implementers_eq_implementersOf hother (h.types.mem_iff.1 hentry), h.implementersOf_eq hlisted]

/-- **The order of declarations does not matter.** The same declarations in another order come out the
same: both give schemas that say the same, or both fail with the same kind of error and, where references
lead nowhere, with the same references. -/
theorem comesOut_of_reordered (h : introspection.Reordered other) :
    ComesOut introspection (ofIntrospection introspection) (ofIntrospection other) := by
  by_cases hdistinct : introspection.typeNames.Nodup
  · have hothers := h.typeNames_perm.nodup_iff.1 hdistinct
    have hperm := h.referenceErrors_perm
    cases hquery : introspection.queryType? with
    | none =>
      rw [ofIntrospection_of_queryType?_eq_none hdistinct hquery,
        ofIntrospection_of_queryType?_eq_none hothers (h.queryType.trans hquery)]
      exact .noQueryType
    | some queryType =>
      have hquery' := h.queryType.trans hquery
      by_cases herrors : introspection.referenceErrors = []
      · rw [herrors, List.nil_perm] at hperm
        have hschema := (ofIntrospection_eq_ok_iff introspection _).2
          ⟨hdistinct, herrors, queryType, hquery, rfl⟩
        have hother := (ofIntrospection_eq_ok_iff other _).2 ⟨hothers, hperm, queryType, hquery', rfl⟩
        rw [hschema, hother]
        exact .built (reordered_of_ofIntrospection h hschema hother)
      · have hfaults : other.referenceErrors ≠ [] := fun hnil => herrors (hnil ▸ hperm).eq_nil
        rw [ofIntrospection_of_referenceErrors_ne_nil hdistinct (by rw [hquery]; rfl) herrors,
          ofIntrospection_of_referenceErrors_ne_nil hothers (by rw [hquery']; rfl) hfaults]
        exact .brokenReferences hperm
  · have hothers := mt h.typeNames_perm.nodup_iff.2 hdistinct
    obtain ⟨name, hname⟩ := ofIntrospection_of_not_nodup hdistinct
    obtain ⟨other, hother⟩ := ofIntrospection_of_not_nodup hothers
    rw [hname, hother]
    exact .duplicateType

/-- The same shelter, told from its end. -/
def shelterReversed : Introspection := { shelter with types := shelter.types.reverse }

/-- **The only difference.** Both schemas are built and say the same, but dogs and cats, who are not
listed, come in the order of the declarations. -/
theorem comesOut_of_reordered_shelter :
    shelter.Reordered shelterReversed ∧
      ComesOut shelter (ofIntrospection shelter) (ofIntrospection shelterReversed) ∧
      ∃ schema other, ofIntrospection shelter = .ok schema ∧
        ofIntrospection shelterReversed = .ok other ∧ Reordered shelter schema other ∧
        schema.implementers "Named" = ["Dog", "Cat"] ∧
        other.implementers "Named" = ["Cat", "Dog"] := by
  have hreordered : shelter.Reordered shelterReversed := ⟨rfl, rfl, rfl, (List.reverse_perm _).symm⟩
  have hout := comesOut_of_reordered hreordered
  refine ⟨hreordered, hout, ?_⟩
  rw [ofIntrospection_shelter] at hout ⊢
  generalize hother : ofIntrospection shelterReversed = outcome at hout
  cases hout with
  | @built _ other hsame =>
    have hnamed : shelter.types[3] ∈ shelterReversed.types :=
      List.mem_reverse.2 (List.getElem_mem _)
    have himplementers := implementers_eq_implementersOf hother hnamed
    exact ⟨_, other, rfl, rfl, hsame, by decide +kernel, himplementers.trans (by decide +kernel)⟩

end Schema

end SelectionRecall
