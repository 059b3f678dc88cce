import Mathlib.Algebra.BigOperators.Group.List.Basic
import Mathlib.Algebra.GroupWithZero.Nat
import Mathlib.Data.List.Nodup
import SelectionRecall.Schema.Building

/-!
# Faults of introspection results

What keeps an introspection result from being a schema. A type name may come up twice, the query type
may be missing, or references lead nowhere: a field wraps no named type, a field, a possible type or an
interface is not declared, or a root type is no declared object type. These faults are counted here
from the declarations alone, and building a schema reports each of them as often as it stands there.

* `Reference.Wraps`: the name inside all wrappers, which `Reference.namedType?` finds.
* `Introspection.RepeatsFirst`, `Introspection.duplicate?_eq_some_iff`: the first name that comes up again.
* `TypeEntry.Returns`, `TypeEntry.mem_fieldTypes_iff`: the definition of a field that counts.
* `Introspection.violations`: how often a reference leads nowhere.
* `Introspection.count_referenceErrors`: so often is it reported.
* `Schema.ofIntrospection_eq_ok_iff`: what is built from a result without faults.
* `Schema.ofIntrospection_cases`: what comes of an introspection result.
-/

namespace SelectionRecall

namespace Introspection

/-! ## Named types -/

namespace Reference

/-- Inside all of its wrappers the reference has this name. -/
inductive Wraps : Reference → String → Prop
  | named {kind name ofType?} : kind.isWrapper = false → Wraps (.mk kind (some name) ofType?) name
  | wrapper {kind name? inner name} :
    kind.isWrapper = true → Wraps inner name → Wraps (.mk kind name? (some inner)) name

/-- **The named type of a reference** is the name inside all of its wrappers. -/
theorem namedType?_eq_some_iff : (reference : Reference) → (name : String) →
    (reference.namedType? = some name ↔ reference.Wraps name)
  | .mk kind name? none, name => by
    rw [namedType?]
    constructor
    · intro h
      split at h
      · cases h
      · rename_i hkind
        rw [h]; exact .named (by simpa using hkind)
    · rintro (hkind | _)
      simp [hkind]
  | .mk kind name? (some inner), name => by
    rw [namedType?]
    constructor
    · intro h
      split at h
      · rename_i hkind
        exact .wrapper hkind ((namedType?_eq_some_iff inner name).1 h)
      · rename_i hkind
        rw [h]; exact .named (by simpa using hkind)
    · rintro (hkind | ⟨hkind, hinner⟩)
      · simp [hkind]
      · rw [if_pos hkind]; exact (namedType?_eq_some_iff inner name).2 hinner

/-- The chain of wrappers ends without a name. -/
def Unnamed (reference : Reference) : Prop := ∀ name, ¬ reference.Wraps name

theorem namedType?_eq_none_iff (reference : Reference) :
    reference.namedType? = none ↔ reference.Unnamed := by
  unfold Unnamed
  simp only [← namedType?_eq_some_iff, Option.eq_none_iff_forall_ne_some, ne_eq]

instance (reference : Reference) (name : String) : Decidable (reference.Wraps name) :=
  decidable_of_iff _ (namedType?_eq_some_iff reference name)

instance (reference : Reference) : Decidable reference.Unnamed :=
  decidable_of_iff _ (namedType?_eq_none_iff reference)

end Reference

/-! ## Repeated names -/

section

variable (introspection : Introspection)

/-- The names of the types, in order. -/
def typeNames : List String := introspection.types.map TypeEntry.name

/-- The first name that an earlier type already has. -/
def RepeatsFirst (name : String) : Prop :=
  ∃ before after, introspection.typeNames = before ++ name :: after ∧ before.Nodup ∧ name ∈ before

theorem declares_iff (name : String) :
    introspection.declares name = true ↔ name ∈ introspection.typeNames := by
  simp [declares, typeNames]

end

/-- What the search finds behind distinct names that it has seen: the first name that comes up again. -/
theorem go_eq_some_iff {seen : List String} (hseen : seen.Nodup) {entries : List TypeEntry}
    {name : String} :
    duplicate?.go seen entries = some name ↔
      ∃ before after, entries.map TypeEntry.name = before ++ name :: after ∧
        (seen ++ before).Nodup ∧ name ∈ seen ++ before := by
  induction entries generalizing seen with
  | nil => simp [duplicate?.go]
  | cons entry rest ih =>
    rw [duplicate?.go]
    split
    · rename_i hknown
      constructor
      · intro h
        rw [← Option.some.inj h]
        exact ⟨[], rest.map TypeEntry.name, rfl, by simpa using hseen, by simpa using hknown⟩
      · rintro ⟨before, after, hnames, hdistinct, -⟩
        -- the entry is seen, so that nothing stands before the name that is found
        cases before with
        | nil => exact congrArg some (List.cons.inj hnames).1
        | cons other before =>
          rw [(List.cons.inj hnames).1] at hknown
          exact absurd rfl ((List.nodup_append.1 hdistinct).2.2 _ hknown _ List.mem_cons_self)
    · rename_i hnew
      rw [ih (List.nodup_cons.2 ⟨hnew, hseen⟩)]
      constructor
      · rintro ⟨before, after, hnames, hdistinct, hname⟩
        exact ⟨entry.name :: before, after, by simp [hnames], List.nodup_middle.2 hdistinct,
          by simpa [or_left_comm] using hname⟩
      · rintro ⟨before, after, hnames, hdistinct, hname⟩
        -- the entry is new, so that something stands before the name that is found
        cases before with
        | nil =>
          rw [List.append_nil, ← (List.cons.inj hnames).1] at hname
          exact absurd hname hnew
        | cons other before =>
          obtain ⟨rfl, hrest⟩ := List.cons.inj hnames
          exact ⟨before, after, hrest, List.nodup_middle.1 hdistinct,
            by simpa [or_left_comm] using hname⟩

/-- It finds none just if no name comes up again. -/
theorem go_eq_none_iff {seen : List String} (hseen : seen.Nodup) {entries : List TypeEntry} :
    duplicate?.go seen entries = none ↔ (seen ++ entries.map TypeEntry.name).Nodup := by
  induction entries generalizing seen with
  | nil => simpa [duplicate?.go] using hseen
  | cons entry rest ih =>
    rw [duplicate?.go, List.map_cons, List.nodup_middle]
    split
    · rename_i hknown
      -- the name is seen, so that it stands there twice
      have htwice : entry.name ∈ seen ++ rest.map TypeEntry.name := List.mem_append_left _ hknown
      simp [htwice]
    · rename_i hnew
      rw [ih (List.nodup_cons.2 ⟨hnew, hseen⟩)]; rfl

section

variable (introspection : Introspection)

/-- **A repeated name is found** just if it is the first one that comes up again. -/
theorem duplicate?_eq_some_iff (name : String) :
    introspection.duplicate? = some name ↔ introspection.RepeatsFirst name :=
  go_eq_some_iff List.nodup_nil

theorem duplicate?_eq_none_iff :
    introspection.duplicate? = none ↔ introspection.typeNames.Nodup :=
  go_eq_none_iff List.nodup_nil

end

/-! ## The fields of a type -/

namespace TypeEntry

/-- The last definition of the field that wraps a named type wraps this one. -/
def Returns (entry : TypeEntry) (field returned : String) : Prop :=
  (((entry.fields?.getD []).filter fun definition => definition.name = field).filterMap fun definition =>
    definition.type.namedType?).getLast? = some returned

instance (entry : TypeEntry) (field returned : String) : Decidable (entry.Returns field returned) :=
  inferInstanceAs (Decidable (_ = some returned))

/-- Adds a field with its named type, if it wraps one. -/
def addField (types : List (String × String)) (field : Field) : List (String × String) :=
  match field.type.namedType? with
  | some returned => Keyed.set field.name returned types
  | none => types

theorem fieldTypes_eq (entry : TypeEntry) :
    entry.fieldTypes = (entry.fields?.getD []).foldl addField [] := rfl

/-- Each name has one place among the fields. -/
theorem nodup_fieldTypes (entry : TypeEntry) : (entry.fieldTypes.map Prod.fst).Nodup := by
  have hfold : ∀ (fields : List Field) (types : List (String × String)),
      (types.map Prod.fst).Nodup → ((fields.foldl addField types).map Prod.fst).Nodup := by
    intro fields
    induction fields with
    | nil => exact fun _ h => h
    | cons field rest ih =>
      intro types h
      refine ih _ ?_
      unfold addField
      split
      · exact Keyed.nodup_map_set h _ _
      · exact h
  exact hfold _ _ List.nodup_nil

/-- **Later definitions of a field replace earlier ones**, as far as they wrap a named type. -/
theorem lookup_fieldTypes_eq_some_iff (entry : TypeEntry) (field returned : String) :
    entry.fieldTypes.lookup field = some returned ↔ entry.Returns field returned := by
  -- the last definition counts, and what was known before if there is none
  have hfold : ∀ (fields : List Field) (types : List (String × String)),
      (fields.foldl addField types).lookup field =
        ((fields.filter fun definition => definition.name = field).filterMap fun definition =>
          definition.type.namedType?).getLast?.or (types.lookup field) := by
    intro fields
    induction fields with
    | nil => simp
    | cons definition rest ih =>
      intro types
      rw [List.foldl_cons, ih, addField]
      by_cases hname : definition.name = field
      · cases htype : definition.type.namedType? with
        | none => simp [hname, htype]
        | some type => simp [hname, htype, Keyed.lookup_set_self, List.getLast?_cons]
      · cases htype : definition.type.namedType? with
        | none => simp [hname]
        | some type => simp [hname, Keyed.lookup_set_of_ne (Ne.symm hname)]
  rw [fieldTypes_eq, hfold, Returns]
  simp

theorem mem_fieldTypes_iff (entry : TypeEntry) (field returned : String) :
    (field, returned) ∈ entry.fieldTypes ↔ entry.Returns field returned := by
  rw [← lookup_fieldTypes_eq_some_iff]
  constructor
  · intro h
    rw [Keyed.lookup_eq_map_find?, Keyed.find?_of_mem entry.nodup_fieldTypes h]; rfl
  · exact Keyed.mem_of_lookup

end TypeEntry

/-! ## References that lead nowhere -/

section

variable (introspection : Introspection)

/-- The name of the root type of a kind of operation. -/
def root? : OperationType → Option String
  | .query => introspection.queryType?
  | .mutation => introspection.mutationType?
  | .subscription => introspection.subscriptionType?

/-- Some object type has this name. -/
def DeclaresObject (name : String) : Prop :=
  ∃ entry ∈ introspection.types, entry.name = name ∧ entry.kind = .object

instance (name : String) : Decidable (introspection.DeclaresObject name) :=
  inferInstanceAs (Decidable (∃ entry ∈ introspection.types, entry.name = name ∧ entry.kind = .object))

/-- How often a type refers to nothing in the way that the error tells. -/
def violationsOf (entry : TypeEntry) : ReferenceError → Nat
  | .unnamedFieldType type field =>
    (entry.fields?.getD []).countP fun definition =>
      entry.name = type ∧ definition.name = field ∧ definition.type.Unnamed
  | .undefinedFieldType type field returned =>
    if entry.name = type ∧ entry.Returns field returned ∧ returned ∉ introspection.typeNames then 1
    else 0
  | .undefinedPossibleType type possible =>
    (entry.possibleTypes?.getD []).countP fun reference =>
      entry.name = type ∧ entry.kind.isAbstract ∧ reference.Wraps possible ∧
        possible ∉ introspection.typeNames
  | .undefinedInterface type interface =>
    (entry.interfaces?.getD []).countP fun reference =>
      entry.name = type ∧ entry.kind = .object ∧ reference.Wraps interface ∧
        interface ∉ introspection.typeNames
  | .invalidRoot _ _ => 0

/-- How often a root type is none in the way that the error tells. -/
def rootViolations : ReferenceError → Nat
  | .invalidRoot operation type =>
    if introspection.root? operation = some type ∧ ¬ introspection.DeclaresObject type then 1 else 0
  | _ => 0

/-- How often something refers to nothing in the way that the error tells. -/
def violations (error : ReferenceError) : Nat :=
  (introspection.types.map fun entry => introspection.violationsOf entry error).sum +
    introspection.rootViolations error

variable {introspection} in
/-- Undeclared names are those that the check for declared ones rejects. -/
theorem declares_eq_false_iff {name : String} :
    introspection.declares name = false ↔ name ∉ introspection.typeNames := by
  rw [← declares_iff, Bool.not_eq_true]

theorem mem_unnamedFields {entry : TypeEntry} {error : ReferenceError} :
    error ∈ entry.unnamedFields ↔ ∃ field ∈ entry.fields?.getD [], field.type.namedType? = none ∧
      error = .unnamedFieldType entry.name field.name := by
  unfold TypeEntry.unnamedFields
  rw [List.mem_filterMap]
  refine exists_congr fun field => and_congr_right fun _ => ?_
  cases field.type.namedType? with
  | none => simp [eq_comm]
  | some type => simp

theorem count_unnamedFields (entry : TypeEntry) (type field : String) :
    entry.unnamedFields.count (.unnamedFieldType type field) =
      introspection.violationsOf entry (.unnamedFieldType type field) := by
  unfold TypeEntry.unnamedFields violationsOf
  rw [List.count_filterMap]
  refine List.countP_congr fun definition _ => ?_
  rw [decide_eq_true_iff, ← Reference.namedType?_eq_none_iff]
  cases definition.type.namedType? <;> simp

theorem count_undefinedFields (entry : TypeEntry) (type field returned : String) :
    (introspection.undefinedFields entry).count (.undefinedFieldType type field returned) =
      introspection.violationsOf entry (.undefinedFieldType type field returned) := by
  have hmem : .undefinedFieldType type field returned ∈ introspection.undefinedFields entry ↔
      entry.name = type ∧ entry.Returns field returned ∧ returned ∉ introspection.typeNames := by
    rw [← TypeEntry.mem_fieldTypes_iff, ← declares_eq_false_iff]
    unfold undefinedFields
    rw [List.mem_filterMap]
    constructor
    · rintro ⟨⟨other, known⟩, hknown, herror⟩
      dsimp only at herror
      split at herror
      · cases herror
      · rename_i hundeclared
        obtain ⟨rfl, rfl, rfl⟩ := ReferenceError.undefinedFieldType.inj (Option.some.inj herror)
        exact ⟨rfl, hknown, by simpa using hundeclared⟩
    · rintro ⟨rfl, hknown, hundeclared⟩
      exact ⟨(field, returned), hknown, by simp [hundeclared]⟩
  -- each field has one entry, so that it is reported at most once
  have hnodup : (introspection.undefinedFields entry).Nodup := by
    refine List.Nodup.filterMap ?_ entry.nodup_fieldTypes.of_map
    rintro ⟨first, firstType⟩ ⟨second, secondType⟩ error hfirst hsecond
    simp only [Option.mem_def, Option.ite_none_left_eq_some, Option.some.injEq] at hfirst hsecond
    obtain ⟨-, hnames, htypes⟩ := ReferenceError.undefinedFieldType.inj (hfirst.2.trans hsecond.2.symm)
    rw [hnames, htypes]
  rw [hnodup.count, violationsOf]
  exact if_congr hmem rfl rfl

/-- References that lead to no declared type are as many as the errors that name it. -/
theorem count_undeclared {make : String → ReferenceError} {error : ReferenceError} {name : String}
    {Holds : Prop} [Decidable Holds] (hmake : ∀ other, make other = error ↔ Holds ∧ other = name)
    (references : List Reference) :
    ((references.filterMap Reference.namedType?).filterMap fun other =>
      if introspection.declares other then none else some (make other)).count error =
      references.countP fun reference =>
        Holds ∧ reference.Wraps name ∧ name ∉ introspection.typeNames := by
  rw [List.filterMap_filterMap, List.count_filterMap]
  refine List.countP_congr fun reference _ => ?_
  rw [decide_eq_true_iff, ← Reference.namedType?_eq_some_iff, ← declares_eq_false_iff]
  cases reference.namedType? with
  | none => simp
  | some other =>
    by_cases hother : other = name
    · subst hother
      cases hknown : introspection.declares other <;> simp [hmake, hknown]
    · cases hknown : introspection.declares other <;> simp [hmake, hknown, hother]

theorem count_undefinedPossibleTypes (entry : TypeEntry) (type possible : String) :
    (introspection.undefinedPossibleTypes entry).count (.undefinedPossibleType type possible) =
      introspection.violationsOf entry (.undefinedPossibleType type possible) := by
  have hmake : ∀ other, ReferenceError.undefinedPossibleType entry.name other =
      .undefinedPossibleType type possible ↔ entry.name = type ∧ other = possible := by simp
  unfold undefinedPossibleTypes violationsOf
  cases entry.kind.isAbstract with
  | false => simp
  | true => simpa using introspection.count_undeclared hmake _

theorem count_undefinedInterfaces (entry : TypeEntry) (type interface : String) :
    (introspection.undefinedInterfaces entry).count (.undefinedInterface type interface) =
      introspection.violationsOf entry (.undefinedInterface type interface) := by
  have hmake : ∀ other, ReferenceError.undefinedInterface entry.name other =
      .undefinedInterface type interface ↔ entry.name = type ∧ other = interface := by simp
  unfold undefinedInterfaces violationsOf
  by_cases hkind : entry.kind = .object
  · simpa [hkind] using introspection.count_undeclared hmake _
  · simp [hkind]

/-- **A type is reported** as often as it refers to nothing. -/
theorem count_typeErrors (entry : TypeEntry) (error : ReferenceError) :
    entry.unnamedFields.count error + (introspection.undefinedFields entry).count error +
        (introspection.undefinedPossibleTypes entry).count error +
        (introspection.undefinedInterfaces entry).count error =
      introspection.violationsOf entry error := by
  -- each list has errors of one kind only, and no list has root types
  have hnone : ∀ {errors : List ReferenceError}, error ∉ errors → errors.count error = 0 :=
    List.count_eq_zero_of_not_mem
  cases error with
  | unnamedFieldType type field =>
    rw [introspection.count_unnamedFields, hnone (by simp [undefinedFields]),
      hnone (by simp [undefinedPossibleTypes]), hnone (by simp [undefinedInterfaces])]
    simp
  | undefinedFieldType type field returned =>
    rw [count_undefinedFields, hnone (by simp [mem_unnamedFields]),
      hnone (by simp [undefinedPossibleTypes]), hnone (by simp [undefinedInterfaces])]
    simp
  | undefinedPossibleType type possible =>
    rw [count_undefinedPossibleTypes, hnone (by simp [mem_unnamedFields]),
      hnone (by simp [undefinedFields]), hnone (by simp [undefinedInterfaces])]
    simp
  | undefinedInterface type interface =>
    rw [count_undefinedInterfaces, hnone (by simp [mem_unnamedFields]),
      hnone (by simp [undefinedFields]), hnone (by simp [undefinedPossibleTypes])]
    simp
  | invalidRoot operation type =>
    rw [hnone (by simp [mem_unnamedFields]), hnone (by simp [undefinedFields]),
      hnone (by simp [undefinedPossibleTypes]), hnone (by simp [undefinedInterfaces])]
    rfl

theorem count_invalidRoot (operation other : OperationType) (root? : Option String) (type : String) :
    (introspection.invalidRoot operation root?).count (.invalidRoot other type) =
      if operation = other ∧ root? = some type ∧ ¬ introspection.DeclaresObject type then 1 else 0 := by
  cases root? with
  | none => simp [invalidRoot]
  | some name =>
    have hobject : (introspection.types.any fun entry => entry.name = name && entry.kind = .object) =
        true ↔ introspection.DeclaresObject name := by simp [DeclaresObject]
    rw [invalidRoot]
    by_cases hdeclared : introspection.DeclaresObject name
    · have hnot : ¬ (operation = other ∧ some name = some type ∧
          ¬ introspection.DeclaresObject type) := by
        rintro ⟨-, hname, hnone⟩
        exact hnone (Option.some.inj hname ▸ hdeclared)
      rw [if_pos (hobject.2 hdeclared), if_neg hnot]; rfl
    · rw [if_neg (mt hobject.1 hdeclared), List.count_singleton]
      refine if_congr ?_ rfl rfl
      suffices operation = other → name = type → ¬ introspection.DeclaresObject type by simpa
      rintro - rfl
      exact hdeclared

/-- **A root type is reported** if it is none. -/
theorem count_rootErrors (error : ReferenceError) :
    (introspection.invalidRoot .query introspection.queryType?).count error +
        (introspection.invalidRoot .mutation introspection.mutationType?).count error +
        (introspection.invalidRoot .subscription introspection.subscriptionType?).count error =
      introspection.rootViolations error := by
  have hnone : ∀ operation root?, (∀ type, error ≠ .invalidRoot operation type) →
      (introspection.invalidRoot operation root?).count error = 0 := by
    intro operation root? hother
    refine List.count_eq_zero_of_not_mem fun hmem => ?_
    cases root? with
    | none => cases hmem
    | some name =>
      rw [invalidRoot] at hmem
      split at hmem
      · cases hmem
      · exact hother name (List.mem_singleton.1 hmem)
  cases error with
  | invalidRoot operation type =>
    simp only [count_invalidRoot, rootViolations]
    cases operation <;> simp <;> rfl
  | _ => rw [hnone _ _ (by simp), hnone _ _ (by simp), hnone _ _ (by simp)]; rfl

/-- **Nothing is masked, repeated or made up**: each error comes up as often as something refers to
nothing in this way. -/
theorem count_referenceErrors (error : ReferenceError) :
    introspection.referenceErrors.count error = introspection.violations error := by
  -- sorting the types moves errors and changes none
  have hsorted : (introspection.sortedTypes.flatMap introspection.undefinedFields).count error =
      (introspection.types.flatMap introspection.undefinedFields).count error :=
    ((List.mergeSort_perm introspection.types _).flatMap_right _).count_eq error
  have htypes : introspection.types.map (introspection.violationsOf · error) =
      introspection.types.map fun entry =>
        entry.unnamedFields.count error + (introspection.undefinedFields entry).count error +
          (introspection.undefinedPossibleTypes entry).count error +
          (introspection.undefinedInterfaces entry).count error :=
    List.map_congr_left fun entry _ => (introspection.count_typeErrors entry error).symm
  unfold referenceErrors violations
  simp only [List.count_append, hsorted, htypes, ← count_rootErrors, List.count_flatMap,
    List.sum_map_add, Function.comp_def]
  omega

/-- Nothing is reported just if no type and no root type is, in whatever order they are looked at. -/
theorem referenceErrors_eq_nil_iff :
    introspection.referenceErrors = [] ↔
      (∀ entry ∈ introspection.types, entry.unnamedFields = [] ∧
        introspection.undefinedFields entry = [] ∧ introspection.undefinedPossibleTypes entry = [] ∧
        introspection.undefinedInterfaces entry = []) ∧
      introspection.invalidRoot .query introspection.queryType? = [] ∧
      introspection.invalidRoot .mutation introspection.mutationType? = [] ∧
      introspection.invalidRoot .subscription introspection.subscriptionType? = [] := by
  unfold referenceErrors sortedTypes
  simp only [List.append_eq_nil_iff, List.flatMap_eq_nil_iff, List.mem_mergeSort, forall_and,
    and_assoc]

end

end Introspection

namespace Schema

variable (introspection : Introspection)

/-- What is built from a result without faults. -/
theorem ofIntrospection_eq_ok_iff (schema : Schema) :
    ofIntrospection introspection = .ok schema ↔
      introspection.typeNames.Nodup ∧ introspection.referenceErrors = [] ∧
        ∃ queryType, introspection.queryType? = some queryType ∧
          schema = ⟨queryType, introspection.mutationType?, introspection.subscriptionType?,
            introspection.types.map introspection.schemaType⟩ := by
  rw [← Introspection.duplicate?_eq_none_iff, ofIntrospection]
  cases introspection.duplicate? with
  | some name => simp
  | none =>
    cases introspection.queryType? with
    | none => simp
    | some queryType =>
      cases introspection.referenceErrors with
      | nil => simp [eq_comm]
      | cons error rest => simp

/-- **What comes of an introspection result.** If type names repeat, the first one that does is told.
Else a missing query type is told. Else all references that lead nowhere are told, each as often as it
stands there, and there is a schema just if there are none. -/
theorem ofIntrospection_cases :
    (¬ introspection.typeNames.Nodup ∧ ∃ name, introspection.RepeatsFirst name ∧
      ofIntrospection introspection = .error (.duplicateType name)) ∨
    (introspection.typeNames.Nodup ∧ introspection.queryType? = none ∧
      ofIntrospection introspection = .error .noQueryType) ∨
    (introspection.typeNames.Nodup ∧ introspection.queryType?.isSome ∧
      ∃ errors : List ReferenceError, (∀ error, errors.count error = introspection.violations error) ∧
        ((errors = [] ∧ ∃ schema, ofIntrospection introspection = .ok schema) ∨
          (errors ≠ [] ∧ ofIntrospection introspection = .error (.brokenReferences errors)))) := by
  cases hduplicate : introspection.duplicate? with
  | some name =>
    refine .inl ⟨?_, name, (introspection.duplicate?_eq_some_iff name).1 hduplicate, ?_⟩
    · rw [← Introspection.duplicate?_eq_none_iff, hduplicate]; simp
    · rw [ofIntrospection, hduplicate]
  | none =>
    have hdistinct := introspection.duplicate?_eq_none_iff.1 hduplicate
    cases hquery : introspection.queryType? with
    | none =>
      refine .inr (.inl ⟨hdistinct, rfl, ?_⟩)
      rw [ofIntrospection, hduplicate, hquery]
    | some queryType =>
      refine .inr (.inr ⟨hdistinct, rfl, introspection.referenceErrors,
        introspection.count_referenceErrors, ?_⟩)
      cases herrors : introspection.referenceErrors with
      | nil =>
        refine .inl ⟨rfl, ?_⟩
        rw [ofIntrospection, hduplicate, hquery, herrors]
        exact ⟨_, rfl⟩
      | cons error rest =>
        refine .inr ⟨by simp, ?_⟩
        rw [ofIntrospection, hduplicate, hquery, herrors]

end Schema

end SelectionRecall
