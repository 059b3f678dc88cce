import Mathlib.Data.List.Perm.Subperm
import SelectionRecall.Proofs.Document.Canonical
import SelectionRecall.Proofs.Usage.Union

/-!
# Equal usages

Usages are equal if they hold the same fields and parts, in whatever order, with equal arguments. Where
names are distinct this can be told from ways into them: the same ways lead on in both, and the fields
that they lead to have equal arguments. With arguments left out only the ways count. As a float that is
not a number equals nothing, a usage with such a float is not even equal to itself. It is still like
itself, and like all that would be equal to it otherwise.

In a union of several usages a way leads on if it does in one of them, and the arguments of a field are
the last ones that are not empty. So the order of the usages does not matter for the ways, and it does
not matter at all if those that have arguments for a field have equal ones.

* `Keyed.rel_find?_iff`, `Keyed.rel_cases`: keyed lists that lead to related entries.
* `Usage.Alike`: the same ways into two usages, and arguments that look the same.
* `Usage.NanFree`, `Usage.nanFree_iff_arguments?`: all floats in a usage are numbers.
* `Usage.equals_iff`, `UsageTable.beq_iff`: equality, told from ways.
* `UsageTable.nanFree_iff_beq_self`: what is equal to itself.
* `Usage.withoutArguments`, `Usage.equals_withoutArguments_iff`: arguments left out.
* `Usage.alike_foldl_merge`: unions in any order.
-/

namespace SelectionRecall

namespace Keyed

variable {α : Type}

/-- What is found on two sides in a relation is missing on both, or found on both and related. -/
theorem rel_cases {Related : α → α → Prop} {first? second? : Option α}
    (h : Option.Rel Related first? second?) :
    (first? = none ∧ second? = none) ∨
      ∃ a b, first? = some a ∧ second? = some b ∧ Related a b := by
  cases h with
  | none => exact .inl ⟨rfl, rfl⟩
  | some h => exact .inr ⟨_, _, rfl, rfl, h⟩

/-- Part of the relation may be told from one side alone. -/
theorem rel_and_iff {Related : α → α → Prop} {Holds : α → Prop} {first? second? : Option α} :
    Option.Rel (fun a b => Related a b ∧ Holds a) first? second? ↔
      Option.Rel Related first? second? ∧ ∀ a, first? = some a → Holds a := by
  cases first? <;> cases second? <;> simp

/-- What looks the same on both sides. -/
theorem rel_eq_iff {β : Type} {view : α → β} {first? second? : Option α} :
    Option.Rel (fun a b => view a = view b) first? second? ↔ first?.map view = second?.map view := by
  cases first? <;> cases second? <;> simp

/-- A key is there just if it leads to an entry. -/
theorem mem_map_iff {keyOf : α → String} {key : String} {entries : List α} :
    key ∈ entries.map keyOf ↔ (entries.find? fun a => keyOf a = key).isSome = true := by
  rw [List.find?_isSome, List.mem_map]
  simp only [decide_eq_true_eq]

/-- **Two lists with distinct keys lead to related entries** just if they are equally long and each entry
of the first one is related to the entry of its key in the second one. -/
theorem rel_find?_iff {keyOf : α → String} {Related : α → α → Prop} {first second : List α}
    (hfirst : (first.map keyOf).Nodup) (hsecond : (second.map keyOf).Nodup) :
    (∀ key, Option.Rel Related (first.find? fun a => keyOf a = key)
        (second.find? fun a => keyOf a = key)) ↔
      first.length = second.length ∧
        ∀ a ∈ first, ∃ b, second.find? (fun b => keyOf b = keyOf a) = some b ∧ Related a b := by
  constructor
  · intro h
    have hkeys : ∀ key, key ∈ first.map keyOf ↔ key ∈ second.map keyOf := by
      intro key
      have hrel := h key
      revert hrel
      rw [mem_map_iff, mem_map_iff]
      cases first.find? fun a => keyOf a = key <;> cases second.find? fun a => keyOf a = key <;> simp
    refine ⟨?_, ?_⟩
    · simpa using ((List.perm_ext_iff_of_nodup hfirst hsecond).2 hkeys).length_eq
    · intro a ha
      have hrel := h (keyOf a)
      rw [find?_of_mem hfirst ha] at hrel
      cases hfind : second.find? fun b => keyOf b = keyOf a with
      | none => rw [hfind] at hrel; cases hrel
      | some b => rw [hfind] at hrel; exact ⟨b, rfl, Option.rel_some_some.1 hrel⟩
  · rintro ⟨hlength, h⟩ key
    -- all keys of the first list are in the second one, which has no room for others
    have hsubset : first.map keyOf ⊆ second.map keyOf := by
      intro other hother
      obtain ⟨a, ha, rfl⟩ := List.mem_map.1 hother
      obtain ⟨b, hb, -⟩ := h a ha
      rw [mem_map_iff, hb]; rfl
    have hperm : (first.map keyOf).Perm (second.map keyOf) :=
      (List.Nodup.subperm hfirst hsubset).perm_of_length_le (by simp [hlength])
    cases hfind : first.find? fun a => keyOf a = key with
    | some a =>
      obtain ⟨hmem, hkey⟩ := Keyed.mem_of_find? hfind
      obtain ⟨b, hb, hrelated⟩ := h a hmem
      rw [← hkey, hb]
      exact Option.rel_some_some.2 hrelated
    | none =>
      have hnone : second.find? (fun a => keyOf a = key) = none := by
        rw [← Option.not_isSome_iff_eq_none, ← mem_map_iff, ← hperm.mem_iff, mem_map_iff, hfind]
        simp
      rw [hnone]
      exact Option.rel_none_none

/-- Values are related just if the pairs that hold them are. -/
theorem rel_lookup_iff_find? {Related : α → α → Prop} {first second : List (String × α)}
    (key : String) :
    Option.Rel Related (first.lookup key) (second.lookup key) ↔
      Option.Rel (fun a b => Related a.2 b.2) (first.find? fun a => a.1 = key)
        (second.find? fun a => a.1 = key) := by
  rw [lookup_eq_map_find?, lookup_eq_map_find?]
  cases first.find? fun a => a.1 = key <;> cases second.find? fun a => a.1 = key <;> simp

/-- So it is with lists of pairs and the values that they lead to. -/
theorem rel_lookup_iff {Related : α → α → Prop} {first second : List (String × α)}
    (hfirst : (first.map Prod.fst).Nodup) (hsecond : (second.map Prod.fst).Nodup) :
    (∀ key, Option.Rel Related (first.lookup key) (second.lookup key)) ↔
      first.length = second.length ∧
        ∀ a ∈ first, ∃ value, second.lookup a.1 = some value ∧ Related a.2 value := by
  have hkeyed := @rel_find?_iff _ _ (fun a b => Related a.2 b.2) _ _ hfirst hsecond
  simp only [rel_lookup_iff_find?, hkeyed, exists_lookup_iff]

end Keyed

namespace Usage

/-! ## Equality step by step -/

theorem equalNested_iff (nested? other? : Option Usage) :
    equalNested nested? other? = true ↔
      Option.Rel (fun nested other => nested.equals other = true) nested? other? := by
  cases nested? <;> cases other? <;> simp [equalNested]

/-- Two uses of a field have equal arguments and equal usages beneath them. -/
def EqualUses (field other : FieldUse) : Prop :=
  (field.arguments == other.arguments) = true ∧
    Option.Rel (fun nested other => nested.equals other = true) field.nested? other.nested?

theorem equalFields_iff (other : Usage) (fields : List FieldUse) :
    equalFields other fields = true ↔
      ∀ field ∈ fields, ∃ known, other.field? field.name = some known ∧ EqualUses field known := by
  induction fields with
  | nil => simp [equalFields]
  | cons head rest ih =>
    obtain ⟨name, arguments, nested?⟩ := head
    rw [equalFields, Bool.and_eq_true, ih, List.forall_mem_cons]
    refine and_congr_left fun _ => ?_
    show _ ↔ ∃ known, other.field? name = some known ∧ EqualUses (.mk name arguments nested?) known
    cases other.field? name with
    | none => simp
    | some known =>
      simp only [Option.some.injEq, exists_eq_left', Bool.and_eq_true, equalNested_iff]
      rfl

theorem equalParts_iff (other : Usage) (parts : List (String × Usage)) :
    equalParts other parts = true ↔
      ∀ part ∈ parts, ∃ known, other.part? part.1 = some known ∧ part.2.equals known = true := by
  induction parts with
  | nil => simp [equalParts]
  | cons head rest ih =>
    rw [equalParts, Bool.and_eq_true, ih, List.forall_mem_cons]
    refine and_congr_left fun _ => ?_
    cases other.part? head.1 <;> simp

/-- Usages with distinct names are equal just if fields of one name have equal arguments, and each step
leads to equal usages. -/
theorem equals_iff_step {usage other : Usage} (husage : usage.Distinct) (hother : other.Distinct) :
    usage.equals other = true ↔
      (∀ name, Option.Rel (fun field known => (field.arguments == known.arguments) = true)
          (usage.field? name) (other.field? name)) ∧
        ∀ step, Option.Rel (fun inner other => inner.equals other = true) (usage.step? step)
          (other.step? step) := by
  obtain ⟨⟨hfieldNames, hpartNames⟩, -⟩ := distinct_iff.1 husage
  obtain ⟨⟨hotherFieldNames, hotherPartNames⟩, -⟩ := distinct_iff.1 hother
  have hunfold : usage.equals other = true ↔
      (usage.fields.length = other.fields.length ∧ equalFields other usage.fields = true) ∧
        (usage.parts.length = other.parts.length ∧ equalParts other usage.parts = true) := by
    cases usage
    simp only [equals, Bool.and_eq_true, beq_iff_eq, fields, parts]
    tauto
  have hfields : usage.fields.length = other.fields.length ∧ equalFields other usage.fields = true ↔
      ∀ name, Option.Rel EqualUses (usage.field? name) (other.field? name) := by
    rw [equalFields_iff]
    exact (Keyed.rel_find?_iff hfieldNames hotherFieldNames).symm
  have hparts : usage.parts.length = other.parts.length ∧ equalParts other usage.parts = true ↔
      ∀ typeName, Option.Rel (fun inner other => inner.equals other = true) (usage.part? typeName)
        (other.part? typeName) := by
    have hkeyed := @Keyed.rel_lookup_iff _ (fun inner other : Usage => inner.equals other = true) _ _
      hpartNames hotherPartNames
    rw [equalParts_iff]
    exact hkeyed.symm
  rw [hunfold, hfields, hparts]
  -- a use of a field is its arguments, told by name, and what is nested in it, told by the step
  constructor
  · rintro ⟨h, hpart⟩
    refine ⟨?_, ?_⟩
    · intro name
      have hrel := h name
      cases hfind : usage.field? name <;> cases hfind' : other.field? name <;> simp_all [EqualUses]
    · intro step
      cases step with
      | part typeName => exact hpart typeName
      | field name =>
        have hrel := h name
        unfold step?
        dsimp only
        cases hfind : usage.field? name <;> cases hfind' : other.field? name <;> simp_all [EqualUses]
  · rintro ⟨harguments, hstep⟩
    refine ⟨?_, fun typeName => hstep (.part typeName)⟩
    intro name
    have hsame := harguments name
    have hnested := hstep (.field name)
    unfold step? at hnested
    dsimp only at hnested
    cases hfind : usage.field? name <;> cases hfind' : other.field? name <;> simp_all [EqualUses]

/-! ## Equality told from ways -/

/-- What a way leads to is what the rest of it leads to behind its first step. -/
theorem arguments?_cons (usage : Usage) (step : Step) (path : List Step) (name : String) :
    usage.arguments? (step :: path) name =
      (usage.step? step).bind fun inner => inner.arguments? path name :=
  Option.bind_assoc _ _ _

/-- The same ways lead into both usages, and the fields that they lead to have arguments that look the
same. -/
structure Alike (view : Arguments → Arguments) (usage other : Usage) : Prop where
  ways : ∀ path, (usage.at? path).isSome = (other.at? path).isSome
  arguments : ∀ path name,
    (usage.arguments? path name).map view = (other.arguments? path name).map view

section

variable {view : Arguments → Arguments} {usage other : Usage}

theorem Alike.refl (usage : Usage) : usage.Alike view usage := ⟨fun _ => rfl, fun _ _ => rfl⟩

theorem Alike.symm (h : usage.Alike view other) : other.Alike view usage :=
  ⟨fun path => (h.ways path).symm, fun path name => (h.arguments path name).symm⟩

theorem Alike.trans {third : Usage} (h : usage.Alike view other) (h' : other.Alike view third) :
    usage.Alike view third :=
  ⟨fun path => (h.ways path).trans (h'.ways path),
    fun path name => (h.arguments path name).trans (h'.arguments path name)⟩

/-- Usages are alike just if their own fields are, and each step leads to usages that are. -/
theorem alike_iff_step :
    usage.Alike view other ↔
      (∀ name, ((usage.field? name).map fun field => view field.arguments) =
          (other.field? name).map fun field => view field.arguments) ∧
        ∀ step, Option.Rel (Alike view) (usage.step? step) (other.step? step) := by
  constructor
  · intro h
    refine ⟨?_, ?_⟩
    · intro name
      have hown := h.arguments [] name
      simpa [arguments?, at?, Function.comp_def] using hown
    · intro step
      have hway := h.ways [step]
      simp only [at?] at hway
      cases husage : usage.step? step with
      | none => cases hother : other.step? step <;> simp_all
      | some inner =>
        cases hother : other.step? step with
        | none => simp_all
        | some deep =>
          refine Option.rel_some_some.2 ⟨?_, ?_⟩
          · intro path
            have hdeep := h.ways (step :: path)
            simpa only [at?, husage, hother, Option.bind_some] using hdeep
          · intro path name
            have hdeep := h.arguments (step :: path) name
            simpa only [arguments?_cons, husage, hother, Option.bind_some] using hdeep
  · rintro ⟨hown, hstep⟩
    -- a step leads nowhere in both usages, or to usages that are alike
    have hcases : ∀ step, (usage.step? step = none ∧ other.step? step = none) ∨
        ∃ inner deep, usage.step? step = some inner ∧ other.step? step = some deep ∧
          inner.Alike view deep := fun step => Keyed.rel_cases (hstep step)
    refine ⟨?_, ?_⟩
    · intro path
      cases path with
      | nil => rfl
      | cons step rest =>
        simp only [at?]
        rcases hcases step with ⟨husage, hother⟩ | ⟨inner, deep, husage, hother, halike⟩
        · rw [husage, hother]
        · rw [husage, hother]; exact halike.ways rest
    · intro path name
      cases path with
      | nil => simpa [arguments?, at?, Function.comp_def] using hown name
      | cons step rest =>
        rw [arguments?_cons, arguments?_cons]
        rcases hcases step with ⟨husage, hother⟩ | ⟨inner, deep, husage, hother, halike⟩
        · rw [husage, hother]
        · rw [husage, hother]; exact halike.arguments rest name

end

/-- What holds of a usage if it holds of all that steps lead to, holds of all usages. -/
theorem step_induction {Holds : Usage → Prop}
    (step : ∀ usage : Usage, (∀ step inner, usage.step? step = some inner → Holds inner) → Holds usage)
    (usage : Usage) : Holds usage := by
  induction usage using Usage.induction with
  | step usage ihFields ihParts =>
    refine step usage fun way inner hinner => ?_
    cases way with
    | field name =>
      obtain ⟨field, hfield, hnested⟩ := Option.bind_eq_some_iff.1 hinner
      exact ihFields field (List.mem_of_find?_eq_some hfield) inner hnested
    | part typeName => exact ihParts (typeName, inner) (Keyed.mem_of_lookup hinner)

/-! ## Floats that are numbers -/

/-- All floats in the arguments of fields, at every depth, are numbers. -/
def NanFree : Usage → Prop :=
  Everywhere fun usage => ∀ field ∈ usage.fields, field.arguments.holdNan = false

section

variable {usage other : Usage}

/-- It can be told step by step. -/
theorem nanFree_iff_step (h : usage.Distinct) :
    usage.NanFree ↔
      (∀ name field, usage.field? name = some field → field.arguments.holdNan = false) ∧
        ∀ step inner, usage.step? step = some inner → inner.NanFree := by
  constructor
  · intro hnumbers
    obtain ⟨hlocal, hfields, hparts⟩ := everywhere_iff.1 hnumbers
    refine ⟨fun name field hfield => hlocal field (List.mem_of_find?_eq_some hfield), ?_⟩
    intro step inner hinner
    cases step with
    | field name =>
      obtain ⟨field, hfield, hnested⟩ := Option.bind_eq_some_iff.1 hinner
      exact hfields field (List.mem_of_find?_eq_some hfield) inner hnested
    | part typeName => exact hparts (typeName, inner) (Keyed.mem_of_lookup hinner)
  · rintro ⟨hown, hstep⟩
    refine everywhere_iff.2 ⟨?_, ?_, ?_⟩
    · exact fun field hfield => hown field.name field (h.field?_eq hfield)
    · exact fun field hfield nested hnested => hstep _ nested (h.step?_field hfield hnested)
    · exact fun part hpart => hstep _ part.2 (h.step?_part hpart)

/-- **It can be told from ways.** -/
theorem nanFree_iff_arguments? (h : usage.Distinct) :
    usage.NanFree ↔ ∀ path name arguments,
      usage.arguments? path name = some arguments → arguments.holdNan = false := by
  induction usage using step_induction with
  | step usage ih =>
    rw [nanFree_iff_step h]
    constructor
    · rintro ⟨hown, hstep⟩ path name arguments harguments
      cases path with
      | nil =>
        obtain ⟨field, hfield, rfl⟩ := Option.map_eq_some_iff.1 harguments
        exact hown name field hfield
      | cons step rest =>
        rw [arguments?_cons] at harguments
        obtain ⟨inner, hinner, hdeep⟩ := Option.bind_eq_some_iff.1 harguments
        exact (ih step inner hinner (h.step? hinner)).1 (hstep step inner hinner) rest name arguments hdeep
    · intro hways
      refine ⟨fun name field hfield => hways [] name field.arguments ?_, fun step inner hinner => ?_⟩
      · simp [arguments?, at?, hfield]
      · refine (ih step inner hinner (h.step? hinner)).2 fun path name arguments harguments => ?_
        refine hways (step :: path) name arguments ?_
        rw [arguments?_cons, hinner]
        exact harguments

/-- Of usages that are alike both are free of such floats or none. -/
theorem Alike.nanFree_iff (h : usage.Alike Arguments.canonical other) (husage : usage.Distinct)
    (hother : other.Distinct) : usage.NanFree ↔ other.NanFree := by
  have hnumbers : ∀ {usage other : Usage}, usage.Alike Arguments.canonical other → usage.Distinct →
      other.Distinct → usage.NanFree → other.NanFree := by
    intro usage other h husage hother hfree
    rw [nanFree_iff_arguments? husage] at hfree
    refine (nanFree_iff_arguments? hother).2 fun path name arguments harguments => ?_
    have hsame := h.arguments path name
    rw [harguments, Option.map_some] at hsame
    obtain ⟨known, hknown, hcanonical⟩ := Option.map_eq_some_iff.1 hsame
    rw [← Arguments.holdNan_eq_of_canonical_eq hcanonical]
    exact hfree path name known hknown
  exact ⟨hnumbers h husage hother, hnumbers h.symm hother husage⟩

/-- Unions keep it. -/
theorem NanFree.merge {old new : Usage} (hold : old.NanFree) (hnew : new.NanFree) :
    (old.merge new).NanFree :=
  Everywhere.merge (forall_arguments_merge (·.holdNan = false)) hold hnew

/-- So do the fields alone. -/
theorem NanFree.unconditional (h : usage.NanFree) : usage.unconditional.NanFree := by
  obtain ⟨hlocal, hfields, -⟩ := everywhere_iff.1 h
  exact everywhere_iff.2 ⟨hlocal, hfields, by simp [Usage.unconditional, parts]⟩

/-- So does a part. -/
theorem NanFree.ofPart (h : usage.NanFree) (typeName : String) : (Usage.ofPart typeName usage).NanFree :=
  everywhere_iff.2 ⟨by simp, by simp, List.forall_mem_singleton.2 h⟩

/-- **Usages are equal** just if the same ways lead into both, to fields with equal arguments: they are
alike, and all floats in them are numbers. -/
theorem equals_iff (husage : usage.Distinct) (hother : other.Distinct) :
    usage.equals other = true ↔ usage.Alike Arguments.canonical other ∧ usage.NanFree := by
  induction usage using step_induction generalizing other with
  | step usage ih =>
    have hsteps : ∀ step,
        Option.Rel (fun inner other => inner.equals other = true) (usage.step? step)
            (other.step? step) ↔
          Option.Rel (Alike Arguments.canonical) (usage.step? step) (other.step? step) ∧
            ∀ inner, usage.step? step = some inner → inner.NanFree := by
      intro step
      rw [← Keyed.rel_and_iff]
      cases hinner : usage.step? step with
      | none => cases other.step? step <;> simp
      | some inner =>
        cases hdeep : other.step? step with
        | none => simp
        | some deep =>
          rw [Option.rel_some_some, Option.rel_some_some]
          exact ih step inner hinner (husage.step? hinner) (hother.step? hdeep)
    rw [equals_iff_step husage hother, alike_iff_step, nanFree_iff_step husage]
    simp only [Arguments.beq_iff, Keyed.rel_and_iff, Keyed.rel_eq_iff, hsteps, forall_and]
    exact and_and_and_comm

end

/-! ## Arguments left out -/

mutual

/-- The usage with no arguments in it. -/
def withoutArguments : Usage → Usage
  | .mk fields parts => .mk (fieldsWithoutArguments fields) (partsWithoutArguments parts)

/-- The fields with no arguments in them. -/
def fieldsWithoutArguments : List FieldUse → List FieldUse
  | [] => []
  | .mk name _ nested? :: rest =>
    .mk name [] (nestedWithoutArguments nested?) :: fieldsWithoutArguments rest

/-- What is beneath a field, with no arguments in it. -/
def nestedWithoutArguments : Option Usage → Option Usage
  | none => none
  | some nested => some nested.withoutArguments

/-- The parts with no arguments in them. -/
def partsWithoutArguments : List (String × Usage) → List (String × Usage)
  | [] => []
  | (typeName, part) :: rest => (typeName, part.withoutArguments) :: partsWithoutArguments rest

end

theorem fields_withoutArguments (usage : Usage) :
    usage.withoutArguments.fields = usage.fields.map fun field =>
      .mk field.name [] (field.nested?.map withoutArguments) := by
  obtain ⟨fields, parts⟩ := usage
  rw [withoutArguments]
  show fieldsWithoutArguments fields = fields.map _
  induction fields with
  | nil => rw [fieldsWithoutArguments]; rfl
  | cons head rest ih =>
    obtain ⟨name, arguments, nested?⟩ := head
    rw [fieldsWithoutArguments, ih, List.map_cons]
    cases nested? <;> rw [nestedWithoutArguments] <;> rfl

theorem parts_withoutArguments (usage : Usage) :
    usage.withoutArguments.parts = usage.parts.map fun part => (part.1, part.2.withoutArguments) := by
  obtain ⟨fields, parts⟩ := usage
  rw [withoutArguments]
  show partsWithoutArguments parts = parts.map _
  induction parts with
  | nil => rw [partsWithoutArguments]; rfl
  | cons head rest ih => rw [partsWithoutArguments, ih]; rfl

theorem field?_withoutArguments (usage : Usage) (name : String) :
    usage.withoutArguments.field? name = (usage.field? name).map fun field =>
      .mk field.name [] (field.nested?.map withoutArguments) := by
  unfold field?
  rw [fields_withoutArguments, List.find?_map]
  rfl

theorem part?_withoutArguments (usage : Usage) (typeName : String) :
    usage.withoutArguments.part? typeName = (usage.part? typeName).map withoutArguments := by
  unfold part?
  rw [parts_withoutArguments, Keyed.lookup_eq_map_find?, Keyed.lookup_eq_map_find?, List.find?_map,
    Option.map_map, Option.map_map]
  rfl

/-- The same ways lead into a usage without arguments. -/
theorem at?_withoutArguments (usage : Usage) (path : List Step) :
    usage.withoutArguments.at? path = (usage.at? path).map withoutArguments := by
  have hstep : ∀ (usage : Usage) (step : Step),
      usage.withoutArguments.step? step = (usage.step? step).map withoutArguments := by
    intro usage step
    cases step with
    | part typeName => exact part?_withoutArguments usage typeName
    | field name =>
      unfold step?
      dsimp only
      rw [field?_withoutArguments]
      cases usage.field? name <;> rfl
  induction path generalizing usage with
  | nil => rfl
  | cons step rest ih =>
    simp only [at?]
    rw [hstep]
    cases usage.step? step with
    | none => rfl
    | some inner => exact ih inner

theorem arguments?_withoutArguments (usage : Usage) (path : List Step) (name : String) :
    usage.withoutArguments.arguments? path name = (usage.arguments? path name).map fun _ => [] := by
  unfold arguments?
  rw [at?_withoutArguments]
  cases usage.at? path with
  | none => rfl
  | some inner =>
    simp only [Option.map_some, Option.bind_some]
    rw [field?_withoutArguments]
    cases inner.field? name <;> rfl

theorem Distinct.withoutArguments {usage : Usage} (h : usage.Distinct) :
    usage.withoutArguments.Distinct := by
  induction usage using Usage.induction with
  | step usage ihFields ihParts =>
    obtain ⟨⟨hfieldNames, hpartNames⟩, hfields, hparts⟩ := distinct_iff.1 h
    refine distinct_iff.2 ⟨⟨?_, ?_⟩, ?_, ?_⟩
    · unfold fieldNames
      rw [fields_withoutArguments, List.map_map]
      exact hfieldNames
    · unfold partNames
      rw [parts_withoutArguments, List.map_map]
      exact hpartNames
    · rw [fields_withoutArguments]
      refine List.forall_mem_map.2 fun field hfield nested hnested => ?_
      obtain ⟨inner, hinner, rfl⟩ := Option.map_eq_some_iff.1 hnested
      exact ihFields field hfield inner hinner (hfields field hfield inner hinner)
    · rw [parts_withoutArguments]
      exact List.forall_mem_map.2 fun part hpart => ihParts part hpart (hparts part hpart)

/-- Where no arguments are left none of them holds a float. -/
theorem Distinct.nanFree_withoutArguments {usage : Usage} (h : usage.Distinct) :
    usage.withoutArguments.NanFree := by
  refine (nanFree_iff_arguments? h.withoutArguments).2 fun path name arguments harguments => ?_
  rw [arguments?_withoutArguments] at harguments
  obtain ⟨_, -, rfl⟩ := Option.map_eq_some_iff.1 harguments
  rfl

/-- **Without arguments usages are equal** just if the same ways lead into both, to the same fields. -/
theorem equals_withoutArguments_iff {usage other : Usage} (husage : usage.Distinct)
    (hother : other.Distinct) :
    usage.withoutArguments.equals other.withoutArguments = true ↔ usage.Alike (fun _ => []) other := by
  rw [equals_iff husage.withoutArguments hother.withoutArguments,
    and_iff_left husage.nanFree_withoutArguments]
  have hways : ∀ (usage : Usage) path,
      (usage.withoutArguments.at? path).isSome = (usage.at? path).isSome := by
    intro usage path
    rw [at?_withoutArguments, Option.isSome_map]
  have harguments : ∀ (usage : Usage) path name,
      (usage.withoutArguments.arguments? path name).map Arguments.canonical =
        (usage.arguments? path name).map fun _ => [] := by
    intro usage path name
    rw [arguments?_withoutArguments]
    cases usage.arguments? path name <;> rfl
  constructor
  · intro h
    exact ⟨by simpa only [hways] using h.ways, by simpa only [harguments] using h.arguments⟩
  · intro h
    exact ⟨by simpa only [hways] using h.ways, by simpa only [harguments] using h.arguments⟩

end Usage

/-! ## Unions of several usages -/

namespace Arguments

/-- Which arguments count does not depend on the form of their values. -/
theorem canonical_newer (old new : Arguments) :
    (old.newer new).canonical = old.canonical.newer new.canonical := by
  cases new <;> rfl

/-- What arguments look like can be told before they are united or after. -/
theorem map_merge_newer {view : Arguments → Arguments}
    (hnewer : ∀ old new, view (old.newer new) = (view old).newer (view new))
    (known? added? : Option Arguments) :
    (Option.merge newer known? added?).map view =
      Option.merge newer (known?.map view) (added?.map view) := by
  cases known? <;> cases added? <;> simp [hnewer]

/-- Two lists of arguments may come in any order, if one of them is empty or they are the same. -/
theorem newer_comm {first second : Arguments}
    (h : first ≠ [] → second ≠ [] → first = second) (known? : Option Arguments) :
    Option.merge newer (Option.merge newer known? (some first)) (some second) =
      Option.merge newer (Option.merge newer known? (some second)) (some first) := by
  cases first with
  | nil => cases second <;> cases known? <;> rfl
  | cons argument rest =>
    cases second with
    | nil => cases known? <;> rfl
    | cons other others => rw [h (List.cons_ne_nil _ _) (List.cons_ne_nil _ _)]

end Arguments

namespace Usage

/-- A way leads into a union of usages if it leads into one of them. -/
theorem isSome_at?_foldl_merge {usages : List Usage} (h : ∀ usage ∈ usages, usage.Distinct)
    (first : Usage) (path : List Step) :
    ((usages.foldl merge first).at? path).isSome =
      ((first.at? path).isSome || usages.any fun usage => (usage.at? path).isSome) := by
  induction usages generalizing first with
  | nil => simp
  | cons usage rest ih =>
    obtain ⟨husage, hrest⟩ := List.forall_mem_cons.1 h
    rw [List.foldl_cons, ih hrest, at?_merge husage, Option.isSome_merge, List.any_cons,
      Bool.or_assoc]

section

variable {view : Arguments → Arguments} (hnil : view [] = [])
  (hnewer : ∀ old new, view (old.newer new) = (view old).newer (view new))

include hnewer

/-- The arguments of a field in a union of usages are those of the last usage that has any for it. -/
theorem arguments?_foldl_merge {usages : List Usage} (h : ∀ usage ∈ usages, usage.Distinct)
    (first : Usage) (path : List Step) (name : String) :
    ((usages.foldl merge first).arguments? path name).map view =
      usages.foldl
        (fun known usage => Option.merge Arguments.newer known
          ((usage.arguments? path name).map view))
        ((first.arguments? path name).map view) := by
  induction usages generalizing first with
  | nil => rfl
  | cons usage rest ih =>
    obtain ⟨husage, hrest⟩ := List.forall_mem_cons.1 h
    rw [List.foldl_cons, List.foldl_cons, ih hrest, arguments?_merge husage,
      Arguments.map_merge_newer hnewer]

include hnil

/-- **Unions in any order are alike**, if usages that have arguments for the same field have arguments for
it that look the same. -/
theorem alike_foldl_merge {usages others : List Usage} (hperm : usages.Perm others)
    (h : ∀ usage ∈ usages, usage.Distinct)
    (hagree : ∀ usage ∈ usages, ∀ other ∈ usages, ∀ path name known added,
      usage.arguments? path name = some known → other.arguments? path name = some added →
        known ≠ [] → added ≠ [] → view known = view added)
    (first : Usage) : (usages.foldl merge first).Alike view (others.foldl merge first) := by
  have hothers : ∀ usage ∈ others, usage.Distinct := fun usage husage => h usage (hperm.mem_iff.2 husage)
  refine ⟨?_, ?_⟩
  · intro path
    rw [isSome_at?_foldl_merge h, isSome_at?_foldl_merge hothers, hperm.any_eq]
  · intro path name
    rw [arguments?_foldl_merge hnewer h, arguments?_foldl_merge hnewer hothers]
    -- two neighbours change places: at most one has arguments, or they look the same
    refine hperm.foldl_eq' ?_ _
    intro usage husage other hother arguments?
    have hsame := hagree usage husage other hother path name
    cases hknown : usage.arguments? path name with
    | none => simp
    | some known =>
      cases hadded : other.arguments? path name with
      | none => simp
      | some added =>
        refine Arguments.newer_comm ?_ arguments?
        intro hview hview'
        refine hsame known added hknown hadded ?_ ?_
        · exact fun hempty => hview (hempty ▸ hnil)
        · exact fun hempty => hview' (hempty ▸ hnil)

end

end Usage

/-! ## Tables -/

namespace UsageTable

/-- Tables are equal just if they are as usages. -/
theorem equals_eq_toUsage (table other : UsageTable) :
    table.equals other = table.toUsage.equals other.toUsage := by
  rw [Bool.eq_iff_iff]
  have hunfold : table.toUsage.equals other.toUsage = true ↔
      table.entries.length = other.entries.length ∧
        Usage.equalParts other.toUsage table.entries = true := by
    simp [toUsage, Usage.equals, Usage.equalFields, Usage.fields, Usage.parts]
  rw [hunfold, Usage.equalParts_iff]
  simp only [equals, size, Bool.and_eq_true, beq_iff_eq, List.all_eq_true]
  refine and_congr_right fun _ => forall_congr' fun entry => imp_congr_right fun _ => ?_
  have hpart : other.toUsage.part? entry.1 = other.get? entry.1 := rfl
  rw [hpart]
  cases other.get? entry.1 with
  | none => simp
  | some usage => simp [BEq.beq]

/-- The table with no arguments in it. -/
def withoutArguments (table : UsageTable) : UsageTable :=
  ⟨table.entries.map fun entry => (entry.1, entry.2.withoutArguments)⟩

theorem toUsage_withoutArguments (table : UsageTable) :
    table.withoutArguments.toUsage = table.toUsage.withoutArguments := by
  refine Usage.eq_of_parts ?_ ?_
  · rw [Usage.fields_withoutArguments]; rfl
  · rw [Usage.parts_withoutArguments]; rfl

/-- Tables are alike if they are as usages: the same ways lead into both, and the fields that they lead to
have arguments of one canonical form. -/
def Alike (table other : UsageTable) : Prop :=
  table.toUsage.Alike Arguments.canonical other.toUsage

theorem Alike.refl (table : UsageTable) : table.Alike table := Usage.Alike.refl table.toUsage

/-- All floats in the usages of the table are numbers. -/
def NanFree (table : UsageTable) : Prop := ∀ entry ∈ table.entries, entry.2.NanFree

theorem nanFree_toUsage {table : UsageTable} : table.toUsage.NanFree ↔ table.NanFree := by
  have hnoFields : ∀ field ∈ table.toUsage.fields, False := by simp [toUsage, Usage.fields]
  constructor
  · exact fun h => (Usage.everywhere_iff.1 h).2.2
  · exact fun h => Usage.everywhere_iff.2
      ⟨fun field hfield => (hnoFields field hfield).elim,
        fun field hfield => (hnoFields field hfield).elim, h⟩

/-- Unions keep it. -/
theorem NanFree.mergeAll {table other : UsageTable} (h : table.NanFree) (hother : other.NanFree) :
    (table.mergeAll other).NanFree := by
  rw [← nanFree_toUsage, toUsage_mergeAll]
  exact (nanFree_toUsage.2 h).merge (nanFree_toUsage.2 hother)

/-- So do unions of several tables. -/
theorem NanFree.foldl_mergeAll {table : UsageTable} {tables : List UsageTable} (h : table.NanFree)
    (htables : ∀ other ∈ tables, other.NanFree) : (tables.foldl UsageTable.mergeAll table).NanFree := by
  induction tables generalizing table with
  | nil => exact h
  | cons head rest ih =>
    obtain ⟨hhead, hrest⟩ := List.forall_mem_cons.1 htables
    exact ih (h.mergeAll hhead) hrest

/-- **Tables are equal** just if they are alike and all floats in them are numbers. -/
theorem beq_iff {table other : UsageTable} (htable : table.Distinct) (hother : other.Distinct) :
    (table == other) = true ↔ table.Alike other ∧ table.NanFree := by
  have hequals : (table == other) = table.equals other := rfl
  rw [hequals, equals_eq_toUsage, ← nanFree_toUsage]
  exact Usage.equals_iff htable.toUsage hother.toUsage

/-- **Tables without such floats** are those that are equal to themselves. -/
theorem nanFree_iff_beq_self {table : UsageTable} (h : table.Distinct) :
    table.NanFree ↔ (table == table) = true := by
  rw [beq_iff h h, and_iff_right (.refl table)]

/-- Without arguments they are equal just if the same ways lead into both, to the same fields. -/
theorem beq_withoutArguments_iff {table other : UsageTable} (htable : table.Distinct)
    (hother : other.Distinct) :
    (table.withoutArguments == other.withoutArguments) = true ↔
      table.toUsage.Alike (fun _ => []) other.toUsage := by
  have hequals : (table.withoutArguments == other.withoutArguments) =
      table.withoutArguments.equals other.withoutArguments := rfl
  rw [hequals, equals_eq_toUsage, toUsage_withoutArguments, toUsage_withoutArguments]
  exact Usage.equals_withoutArguments_iff htable.toUsage hother.toUsage

end UsageTable

end SelectionRecall
