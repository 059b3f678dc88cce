import SelectionRecall.Proofs.Document.Inlining
import SelectionRecall.Proofs.Usage.Meaning
import SelectionRecall.Proofs.Usage.Nesting

/-!
# Parts that can apply

A part of a selection for a type can apply only if its own type has an object in common with that type.
In a document each fragment is checked against the type that it stands in. Reading may take it away
from there: what stands in a fragment on an interface is taken over by the implementer that the fragment
is read in, with the parts in it, and what is beneath a field goes along, though the field may return
another type there. So a part counts for a type, its owner, that the fragment need not have been checked
against. The parts of a usage can apply just if each fragment that becomes one can apply to its owner.

* `Schema.observe_eq_inlined`: reading a document is reading it with all spreads in place.
* `Selection.Carries`: the fragments in a selection that become parts, with their owners.
* `Selection.Encloses`: the selection sets in a selection, with the types they are read inside.
* `Schema.throughout_observeSelection_iff`: the parts in what is read can apply just if all that the
  selection carries can.
* `Schema.forall_seen_observeSelection_iff`: so it is with what is seen on the way.
-/

namespace SelectionRecall

namespace Schema

variable {schema : Schema}

/-! ## Reading with spreads in place -/

/-- Nothing is read in spreads. -/
def noSpread : SpreadReader := fun _ _ => .nothing

mutual

/-- A selection is read as it is with each spread replaced by something that is read in the same way. -/
theorem observeSelection_replaceSpreads {spread : SpreadReader} {replacement : String → Selection}
    (h : ∀ typeName name,
      spread typeName name = schema.observeSelection noSpread typeName (replacement name))
    (typeName : String) (selection : Selection) :
    schema.observeSelection spread typeName selection =
      schema.observeSelection noSpread typeName (selection.replaceSpreads replacement) := by
  cases selection with
  | field alias? name arguments directives selections =>
    have hempty :
        (Selection.replaceAllSpreads replacement selections).isEmpty = selections.isEmpty := by
      cases selections <;> rfl
    have hnested := fun returned =>
      observeSelections_replaceSpreads h returned .empty selections
    rw [Selection.replaceSpreads, observeSelection, observeSelection, hempty]
    simp only [hnested]
  | inline condition? directives selections =>
    rw [Selection.replaceSpreads, observeSelection, observeSelection,
      observeSelections_replaceSpreads h]
  | spread name directives =>
    rw [Selection.replaceSpreads, observeSelection]
    exact h typeName name

/-- So are several selections. -/
theorem observeSelections_replaceSpreads {spread : SpreadReader} {replacement : String → Selection}
    (h : ∀ typeName name,
      spread typeName name = schema.observeSelection noSpread typeName (replacement name))
    (typeName : String) (usage : Usage) (selections : List Selection) :
    schema.observeSelections spread typeName usage selections =
      schema.observeSelections noSpread typeName usage
        (Selection.replaceAllSpreads replacement selections) := by
  cases selections with
  | nil => rw [Selection.replaceAllSpreads, observeSelections, observeSelections]
  | cons selection rest =>
    rw [Selection.replaceAllSpreads, observeSelections, observeSelections,
      observeSelection_replaceSpreads h typeName selection]
    simp only [observeSelections_replaceSpreads h typeName _ rest]

end

/-- A selection of nothing is read as nothing. -/
theorem observeSelection_nothing (spread : SpreadReader) (typeName : String) :
    schema.observeSelection spread typeName .nothing = .nothing := by
  rw [Selection.nothing, observeSelection]
  split
  · rw [observeSelections]; rfl
  · rfl

/-- A spread is read as what it stands for. -/
theorem spreadReader_eq_inlineFragment (document : Document) (depth : Nat) (around : List String)
    (typeName name : String) :
    schema.spreadReader document.fragment? depth around typeName name =
      schema.observeSelection noSpread typeName (document.inlineFragment depth around name) := by
  -- both descend into fragments by the same depth, with the same fragments around them
  induction depth generalizing around typeName name with
  | zero => rw [Document.inlineFragment, observeSelection_nothing]; rfl
  | succ depth ih =>
    rw [spreadReader, Document.inlineFragment]
    cases document.fragment? name with
    | none => exact (observeSelection_nothing _ _).symm
    | some fragment =>
      dsimp only
      split
      · exact (observeSelection_nothing _ _).symm
      · rw [observeSelection, observeSelections_replaceSpreads fun typeName name =>
          ih _ typeName name]
        rfl

/-- **Reading a document** is reading it with all spreads in place. -/
theorem observe_eq_inlined (document : Document) (typeName : String) (selections : List Selection) :
    schema.observe document typeName selections =
      schema.observeSelections noSpread typeName .empty (document.inlined selections) :=
  observeSelections_replaceSpreads
    (fun typeName name => spreadReader_eq_inlineFragment document _ [] typeName name)
    typeName .empty selections

end Schema

/-! ## What a selection carries -/

/-- A fragment that becomes a part: the type that the part counts for, the type that the fragment stands
in, and the type that it is on. -/
structure Carried where
  owner : String
  enclosing : String
  condition : String

namespace Selection

/-- The fragment becomes a part when the selection is read inside a type and counts for an owner. What
is beneath a field counts for the type that the owner returns there. A fragment on the type that is read
inside, or on an interface that it implements, counts for the same owner. Any other one of which
something survives becomes a part of the owner, and what is in it counts for its own type. -/
inductive Carries (schema : Schema) : (owner typeName : String) → Selection → Carried → Prop
  | field {owner typeName counted returned alias? name arguments directives selections selection
      carried} :
    schema.fieldType? typeName name = some returned →
    schema.fieldType? owner name = some counted → selection ∈ selections →
    Carries schema counted returned selection carried →
    Carries schema owner typeName (.field alias? name arguments directives selections) carried
  | taken {owner typeName condition? directives selections selection carried} :
    schema.hasType (condition?.getD typeName) = true →
    schema.MayBe (condition?.getD typeName) typeName → selection ∈ selections →
    Carries schema owner (condition?.getD typeName) selection carried →
    Carries schema owner typeName (.inline condition? directives selections) carried
  | part {owner typeName condition? directives selections selection} :
    schema.hasType (condition?.getD typeName) = true →
    ¬ schema.MayBe (condition?.getD typeName) typeName → selection ∈ selections →
    selection.Survives schema ⟨[]⟩ (condition?.getD typeName) →
    Carries schema owner typeName (.inline condition? directives selections)
      ⟨owner, typeName, condition?.getD typeName⟩
  | inPart {owner typeName condition? directives selections selection carried} :
    schema.hasType (condition?.getD typeName) = true →
    ¬ schema.MayBe (condition?.getD typeName) typeName → selection ∈ selections →
    Carries schema (condition?.getD typeName) (condition?.getD typeName) selection carried →
    Carries schema owner typeName (.inline condition? directives selections) carried

/-- The selection set lies in the selection and is read inside this type on its own: it is that of a
field, or of a fragment on another type than the one around it. -/
inductive Encloses (schema : Schema) : String → Selection → String → List Selection → Prop
  | field {typeName returned alias? name arguments directives selections} :
    schema.fieldType? typeName name = some returned →
    Encloses schema typeName (.field alias? name arguments directives selections) returned selections
  | beneath {typeName returned alias? name arguments directives selections selection innerType inner} :
    schema.fieldType? typeName name = some returned → selection ∈ selections →
    Encloses schema returned selection innerType inner →
    Encloses schema typeName (.field alias? name arguments directives selections) innerType inner
  | fragment {typeName condition? directives selections} :
    schema.hasType (condition?.getD typeName) = true → condition?.getD typeName ≠ typeName →
    Encloses schema typeName (.inline condition? directives selections) (condition?.getD typeName)
      selections
  | within {typeName condition? directives selections selection innerType inner} :
    schema.hasType (condition?.getD typeName) = true → selection ∈ selections →
    Encloses schema (condition?.getD typeName) selection innerType inner →
    Encloses schema typeName (.inline condition? directives selections) innerType inner

variable {schema : Schema}

/-- A fragment that is carried stands in the selection, on a type of the schema. -/
theorem Carries.standing {owner typeName : String} {selection : Selection} {carried : Carried}
    (h : selection.Carries schema owner typeName carried) (document : Document) :
    (carried.enclosing, carried.condition) ∈ selection.standing schema document typeName ∧
      schema.hasType carried.condition = true := by
  induction h with
  | field hreturned _ hmem _ ih => exact ⟨mem_standing_field hreturned hmem ih.1, ih.2⟩
  | taken _ _ hmem _ ih => exact ⟨mem_standing_inline hmem ih.1, ih.2⟩
  | @part _ _ condition? _ _ _ hknown hother _ _ =>
    refine ⟨?_, hknown⟩
    cases condition? with
    | none => exact absurd (.inl rfl) hother
    | some condition => rw [Selection.standing]; exact List.mem_cons_self
  | inPart _ _ hmem _ ih => exact ⟨mem_standing_inline hmem ih.1, ih.2⟩

/-- What stands in an enclosed selection set stands in the selection. -/
theorem Encloses.standing {typeName innerType : String} {selection : Selection}
    {inner : List Selection} (h : selection.Encloses schema typeName innerType inner)
    {document : Document} {deep : Selection} (hdeep : deep ∈ inner) {pair : String × String}
    (hpair : pair ∈ deep.standing schema document innerType) :
    pair ∈ selection.standing schema document typeName := by
  induction h with
  | field hreturned => exact mem_standing_field hreturned hdeep hpair
  | beneath hreturned hmem _ ih => exact mem_standing_field hreturned hmem (ih hdeep hpair)
  | fragment _ _ => exact mem_standing_inline hdeep hpair
  | within _ hmem _ ih => exact mem_standing_inline hmem (ih hdeep hpair)

section

variable {owner typeName : String} {selections : List Selection} {Holds : Carried → Prop}

theorem forall_carries_field_iff {alias? : Option String} {name : String} {arguments : Arguments}
    {directives : List Directive} :
    (∀ carried, (field alias? name arguments directives selections).Carries schema owner typeName
        carried → Holds carried) ↔
      ∀ returned, schema.fieldType? typeName name = some returned →
        ∀ counted, schema.fieldType? owner name = some counted → ∀ selection ∈ selections,
          ∀ carried, selection.Carries schema counted returned carried → Holds carried := by
  constructor
  · intro h returned hreturned counted hcounted selection hmem carried hcarries
    exact h carried (.field hreturned hcounted hmem hcarries)
  · rintro h carried (⟨hreturned, hcounted, hmem, hcarries⟩ | _ | _ | _)
    exact h _ hreturned _ hcounted _ hmem carried hcarries

theorem forall_carries_inline_iff {condition? : Option String} {directives : List Directive}
    (hknown : schema.hasType (condition?.getD typeName) = true) :
    (∀ carried, (inline condition? directives selections).Carries schema owner typeName carried →
        Holds carried) ↔
      if schema.MayBe (condition?.getD typeName) typeName then
        ∀ selection ∈ selections, ∀ carried,
          selection.Carries schema owner (condition?.getD typeName) carried → Holds carried
      else
        ((∃ selection ∈ selections, selection.Survives schema ⟨[]⟩ (condition?.getD typeName)) →
          Holds ⟨owner, typeName, condition?.getD typeName⟩) ∧
        ∀ selection ∈ selections, ∀ carried,
          selection.Carries schema (condition?.getD typeName) (condition?.getD typeName) carried →
            Holds carried := by
  split
  · rename_i hmayBe
    constructor
    · exact fun h selection hmem carried hcarries => h carried (.taken hknown hmayBe hmem hcarries)
    · rintro h carried (_ | ⟨-, -, hmem, hcarries⟩ | ⟨-, hother, -, -⟩ | ⟨-, hother, -, -⟩)
      · exact h _ hmem carried hcarries
      · exact absurd hmayBe hother
      · exact absurd hmayBe hother
  · rename_i hother
    constructor
    · intro h
      refine ⟨?_, fun selection hmem carried hcarries =>
        h carried (.inPart hknown hother hmem hcarries)⟩
      rintro ⟨selection, hmem, hsurvives⟩
      exact h _ (.part hknown hother hmem hsurvives)
    · rintro ⟨hpart, hinner⟩ carried
        (_ | ⟨-, hmayBe, -, -⟩ | ⟨-, -, hmem, hsurvives⟩ | ⟨-, -, hmem, hcarries⟩)
      · exact absurd hmayBe hother
      · exact hpart ⟨_, hmem, hsurvives⟩
      · exact hinner _ hmem carried hcarries

theorem forall_encloses_field_iff {Holds : String → List Selection → Prop} {alias? : Option String}
    {name returned : String} {arguments : Arguments} {directives : List Directive}
    (hreturned : schema.fieldType? typeName name = some returned) :
    (∀ innerType inner, (field alias? name arguments directives selections).Encloses schema typeName
        innerType inner → Holds innerType inner) ↔
      (∀ selection ∈ selections, ∀ innerType inner,
        selection.Encloses schema returned innerType inner → Holds innerType inner) ∧
      Holds returned selections := by
  constructor
  · intro h
    refine ⟨?_, h returned selections (.field hreturned)⟩
    exact fun selection hmem innerType inner hinner =>
      h innerType inner (.beneath hreturned hmem hinner)
  · rintro ⟨hbeneath, hown⟩ innerType inner (hsame | ⟨hsame, hmem, hinner⟩ | _ | _)
    · rw [hreturned, Option.some.injEq] at hsame
      exact hsame ▸ hown
    · rw [hreturned, Option.some.injEq] at hsame
      subst hsame
      exact hbeneath _ hmem innerType inner hinner

theorem forall_encloses_inline_iff {Holds : String → List Selection → Prop}
    {condition? : Option String} {directives : List Directive}
    (hknown : schema.hasType (condition?.getD typeName) = true) :
    (∀ innerType inner, (inline condition? directives selections).Encloses schema typeName innerType
        inner → Holds innerType inner) ↔
      (∀ selection ∈ selections, ∀ innerType inner,
        selection.Encloses schema (condition?.getD typeName) innerType inner →
          Holds innerType inner) ∧
      (condition?.getD typeName ≠ typeName → Holds (condition?.getD typeName) selections) := by
  constructor
  · intro h
    refine ⟨?_, fun hother => h _ selections (.fragment hknown hother)⟩
    exact fun selection hmem innerType inner hinner => h innerType inner (.within hknown hmem hinner)
  · rintro ⟨hbeneath, hown⟩ innerType inner (_ | _ | ⟨-, hother⟩ | ⟨-, hmem, hinner⟩)
    · exact hown hother
    · exact hbeneath _ hmem innerType inner hinner

end

end Selection

/-! ## What is read -/

namespace Usage

variable {schema : Schema} {typeName : String}

/-- The types of the parts have objects in common with the type of the usage. -/
def PartsOverlap (schema : Schema) (typeName : String) (usage : Usage) : Prop :=
  ∀ part ∈ usage.parts, schema.Overlap typeName part.1

theorem partsOverlap_merge_iff {old new : Usage} :
    (old.merge new).PartsOverlap schema typeName ↔
      old.PartsOverlap schema typeName ∧ new.PartsOverlap schema typeName := by
  unfold PartsOverlap
  rw [parts_merge]
  refine forall_mem_mergeParts_iff ?_
  intro part _ known hname
  rw [hname, and_self]

/-- Nothing has no parts at any depth. -/
theorem throughout_of_isEmpty {usage : Usage} (h : usage.isEmpty = true) :
    usage.Throughout schema (PartsOverlap schema) typeName := by
  obtain ⟨fields, parts⟩ := usage
  unfold isEmpty at h
  rw [Bool.and_eq_true] at h
  obtain rfl : fields = [] := List.isEmpty_iff.1 h.1
  obtain rfl : parts = [] := List.isEmpty_iff.1 h.2
  exact throughout_empty_iff.2 (by simp [PartsOverlap])

end Usage

namespace Observed

variable {schema : Schema} {owner typeName name returned condition : String} {arguments : Arguments}
  {inner : Observed}

theorem isEmpty_field :
    (field returned name arguments inner).usage.isEmpty = inner.usage.isEmpty := by
  unfold field
  split
  · rename_i h
    rw [h]; rfl
  · rename_i h
    rw [Bool.not_eq_true] at h
    rw [h]; rfl

theorem isEmpty_fragment :
    (fragment schema typeName condition inner).usage.isEmpty = inner.usage.isEmpty := by
  unfold fragment
  split
  · rename_i h
    rw [h]; rfl
  · rename_i h
    rw [Bool.not_eq_true] at h
    split
    · rfl
    · split
      · rfl
      · rw [h]; rfl

/-- The parts beneath a field can apply at the type that the owner returns there. -/
theorem throughout_field_iff :
    (field returned name arguments inner).usage.Throughout schema (Usage.PartsOverlap schema) owner ↔
      ∀ counted, schema.fieldType? owner name = some counted →
        inner.usage.Throughout schema (Usage.PartsOverlap schema) counted := by
  unfold field
  split
  · rename_i hempty
    constructor
    · exact fun _ _ _ => Usage.throughout_of_isEmpty hempty
    · exact fun _ => Usage.throughout_of_isEmpty rfl
  · rw [Usage.throughout_ofField_iff, FieldUse.name_withArguments, FieldUse.nested?_withArguments]
    simp [Usage.PartsOverlap, FieldUse.nested, FieldUse.name, FieldUse.nested?]

/-- The parts of a fragment that is taken over can apply to the owner. One that becomes a part can apply
to the owner, unless nothing is left of it, and the parts in it to its own type. -/
theorem throughout_fragment_iff :
    (fragment schema typeName condition inner).usage.Throughout schema (Usage.PartsOverlap schema)
        owner ↔
      if schema.MayBe condition typeName then
        inner.usage.Throughout schema (Usage.PartsOverlap schema) owner
      else (inner.usage.isEmpty = false → schema.Overlap owner condition) ∧
        inner.usage.Throughout schema (Usage.PartsOverlap schema) condition := by
  unfold fragment
  split
  · rename_i hempty
    have hall : ∀ typeName, inner.usage.Throughout schema (Usage.PartsOverlap schema) typeName :=
      fun _ => Usage.throughout_of_isEmpty hempty
    have hnothing : Usage.empty.Throughout schema (Usage.PartsOverlap schema) owner :=
      Usage.throughout_of_isEmpty rfl
    simp [hempty, hall, hnothing]
  · rename_i hleft
    rw [Bool.not_eq_true] at hleft
    split
    · rename_i hsame
      rw [if_pos (.inl hsame.symm)]
    · rename_i hother
      split
      · rename_i himplements
        rw [if_pos (.inr himplements)]
      · rename_i hpart
        have hneither : ¬ schema.MayBe condition typeName := by
          rintro (hsame | himplements)
          · exact hother hsame.symm
          · exact hpart himplements
        rw [if_neg hneither, Usage.throughout_ofPart_iff]
        simp [Usage.PartsOverlap, hleft]

/-- What is beneath a field is seen last, after all that is seen in it. -/
theorem forall_seen_field_iff :
    (∀ entry ∈ (field returned name arguments inner).seen,
        entry.2.Throughout schema (Usage.PartsOverlap schema) entry.1) ↔
      (∀ entry ∈ inner.seen, entry.2.Throughout schema (Usage.PartsOverlap schema) entry.1) ∧
        inner.usage.Throughout schema (Usage.PartsOverlap schema) returned := by
  unfold field
  split
  · rename_i hempty
    rw [and_iff_left (Usage.throughout_of_isEmpty hempty)]
  · rw [List.forall_mem_append, List.forall_mem_singleton]

/-- So is what is in a fragment on another type. -/
theorem forall_seen_fragment_iff :
    (∀ entry ∈ (fragment schema typeName condition inner).seen,
        entry.2.Throughout schema (Usage.PartsOverlap schema) entry.1) ↔
      (∀ entry ∈ inner.seen, entry.2.Throughout schema (Usage.PartsOverlap schema) entry.1) ∧
        (condition ≠ typeName →
          inner.usage.Throughout schema (Usage.PartsOverlap schema) condition) := by
  unfold fragment
  split
  · rename_i hempty
    rw [and_iff_left fun _ => Usage.throughout_of_isEmpty hempty]
  · split
    · rename_i hsame
      simp [hsame]
    · rename_i hother
      have hlast : (condition ≠ typeName →
          inner.usage.Throughout schema (Usage.PartsOverlap schema) condition) ↔
            inner.usage.Throughout schema (Usage.PartsOverlap schema) condition :=
        ⟨fun h => h hother, fun h _ => h⟩
      rw [hlast]
      split
      · rw [List.forall_mem_append, List.forall_mem_singleton]
      · rw [List.forall_mem_append, List.forall_mem_singleton]

end Observed

namespace Schema

variable {schema : Schema}

mutual

/-- Something is left of a selection just if it survives. -/
theorem isEmpty_observeSelection (typeName : String) (selection : Selection) :
    (schema.observeSelection noSpread typeName selection).usage.isEmpty = false ↔
      selection.Survives schema ⟨[]⟩ typeName := by
  cases selection with
  | field alias? name arguments directives selections =>
    rw [observeSelection, Selection.survives_field_iff]
    cases hreturned : schema.fieldType? typeName name with
    | none => simp [Observed.nothing]
    | some returned =>
      dsimp only
      split
      · rename_i hleaf
        simp [List.isEmpty_iff.1 hleaf]
      · rename_i hcomposite
        rw [Observed.isEmpty_field, isEmpty_observeSelections]
        simp only [List.isEmpty_iff] at hcomposite
        simp [hcomposite]
  | inline condition? directives selections =>
    rw [observeSelection, Selection.survives_inline_iff]
    split
    · rename_i hknown
      rw [Observed.isEmpty_fragment, isEmpty_observeSelections]
      simp [hknown]
    · rename_i hunknown
      simp [hunknown, Observed.nothing]
  | spread name directives =>
    rw [observeSelection, Selection.survives_spread_iff]
    simp [noSpread, Observed.nothing, Document.fragment?, Document.fragments]

/-- Something is left of several, and of what was there before. -/
theorem isEmpty_observeSelections (typeName : String) (usage : Usage) (selections : List Selection) :
    (schema.observeSelections noSpread typeName usage selections).usage.isEmpty = false ↔
      usage.isEmpty = false ∨
        ∃ selection ∈ selections, selection.Survives schema ⟨[]⟩ typeName := by
  cases selections with
  | nil => simp [observeSelections]
  | cons selection rest =>
    rw [observeSelections]
    unfold Observed.andThen
    dsimp only
    rw [isEmpty_observeSelections typeName _ rest, Usage.isEmpty_merge,
      isEmpty_observeSelection typeName selection, or_assoc]
    simp only [List.mem_cons, exists_eq_or_imp]

end

/-- The parts of a union can apply just if those of both usages can. -/
theorem throughout_union_iff {owner : String} {old new : Usage} :
    (old.merge new).Throughout schema (Usage.PartsOverlap schema) owner ↔
      old.Throughout schema (Usage.PartsOverlap schema) owner ∧
        new.Throughout schema (Usage.PartsOverlap schema) owner :=
  Usage.throughout_merge_iff Usage.partsOverlap_merge_iff

mutual

/-- **The parts in what is read can apply** just if each fragment that the selection carries can. -/
theorem throughout_observeSelection_iff (owner typeName : String) (selection : Selection) :
    (schema.observeSelection noSpread typeName selection).usage.Throughout schema
        (Usage.PartsOverlap schema) owner ↔
      ∀ carried, selection.Carries schema owner typeName carried →
        schema.Overlap carried.owner carried.condition := by
  have hnothing : Usage.empty.Throughout schema (Usage.PartsOverlap schema) owner :=
    Usage.throughout_of_isEmpty rfl
  cases selection with
  | field alias? name arguments directives selections =>
    rw [observeSelection, Selection.forall_carries_field_iff]
    cases hreturned : schema.fieldType? typeName name with
    | none => simp [Observed.nothing, hnothing]
    | some returned =>
      simp only [Option.some.injEq, forall_eq']
      split
      · rename_i hleaf
        rw [List.isEmpty_iff.1 hleaf, Usage.throughout_ofField_iff, FieldUse.nested?_withArguments]
        simp [Usage.PartsOverlap, FieldUse.leaf, FieldUse.nested?]
      · rw [Observed.throughout_field_iff]
        refine forall_congr' fun counted => imp_congr_right fun _ => ?_
        rw [throughout_observeSelections_iff counted returned .empty selections]
        exact and_iff_right (Usage.throughout_of_isEmpty rfl)
  | inline condition? directives selections =>
    rw [observeSelection]
    split
    · rename_i hknown
      have hempty : ∀ typeName, Usage.empty.Throughout schema (Usage.PartsOverlap schema) typeName :=
        fun _ => Usage.throughout_of_isEmpty rfl
      rw [Observed.throughout_fragment_iff, Selection.forall_carries_inline_iff hknown,
        isEmpty_observeSelections, throughout_observeSelections_iff owner _ .empty selections,
        throughout_observeSelections_iff _ _ .empty selections]
      simp [hempty]
    · rename_i hunknown
      refine ⟨?_, fun _ => hnothing⟩
      rintro - carried (_ | ⟨hknown, -, -, -⟩ | ⟨hknown, -, -, -⟩ | ⟨hknown, -, -, -⟩)
      · exact absurd hknown hunknown
      · exact absurd hknown hunknown
      · exact absurd hknown hunknown
  | spread name directives =>
    rw [observeSelection]
    refine ⟨?_, fun _ => hnothing⟩
    rintro - carried (_ | _ | _ | _)

/-- So it is with several selections that are added to a usage. -/
theorem throughout_observeSelections_iff (owner typeName : String) (usage : Usage)
    (selections : List Selection) :
    (schema.observeSelections noSpread typeName usage selections).usage.Throughout schema
        (Usage.PartsOverlap schema) owner ↔
      usage.Throughout schema (Usage.PartsOverlap schema) owner ∧
        ∀ selection ∈ selections, ∀ carried, selection.Carries schema owner typeName carried →
          schema.Overlap carried.owner carried.condition := by
  cases selections with
  | nil => simp [observeSelections]
  | cons selection rest =>
    rw [observeSelections]
    unfold Observed.andThen
    dsimp only
    rw [throughout_observeSelections_iff owner typeName _ rest, throughout_union_iff,
      throughout_observeSelection_iff owner typeName selection, and_assoc, List.forall_mem_cons]

end

mutual

/-- **The parts in what is seen can apply** just if each fragment that a selection set carries can, for
the type that the set is read inside. -/
theorem forall_seen_observeSelection_iff (typeName : String) (selection : Selection) :
    (∀ entry ∈ (schema.observeSelection noSpread typeName selection).seen,
        entry.2.Throughout schema (Usage.PartsOverlap schema) entry.1) ↔
      ∀ innerType inner, selection.Encloses schema typeName innerType inner →
        ∀ deep ∈ inner, ∀ carried, deep.Carries schema innerType innerType carried →
          schema.Overlap carried.owner carried.condition := by
  cases selection with
  | field alias? name arguments directives selections =>
    rw [observeSelection]
    cases hreturned : schema.fieldType? typeName name with
    | none =>
      refine ⟨?_, fun _ => by simp [Observed.nothing]⟩
      rintro - innerType inner (hsame | ⟨hsame, -, -⟩ | _ | _)
      · rw [hreturned] at hsame; cases hsame
      · rw [hreturned] at hsame; cases hsame
    | some returned =>
      rw [Selection.forall_encloses_field_iff hreturned]
      dsimp only
      split
      · rename_i hleaf
        simp [List.isEmpty_iff.1 hleaf]
      · rw [Observed.forall_seen_field_iff,
          forall_seen_observeSelections_iff returned .empty selections,
          throughout_observeSelections_iff returned returned .empty selections]
        exact and_congr_right fun _ => and_iff_right (Usage.throughout_of_isEmpty rfl)
  | inline condition? directives selections =>
    rw [observeSelection]
    split
    · rename_i hknown
      rw [Selection.forall_encloses_inline_iff hknown, Observed.forall_seen_fragment_iff,
        forall_seen_observeSelections_iff _ .empty selections,
        throughout_observeSelections_iff _ _ .empty selections]
      refine and_congr_right fun _ => imp_congr_right fun _ => ?_
      exact and_iff_right (Usage.throughout_of_isEmpty rfl)
    · rename_i hunknown
      refine ⟨?_, fun _ => by simp [Observed.nothing]⟩
      rintro - innerType inner (_ | _ | ⟨hknown, -⟩ | ⟨hknown, -, -⟩)
      · exact absurd hknown hunknown
      · exact absurd hknown hunknown
  | spread name directives =>
    rw [observeSelection]
    refine ⟨?_, fun _ => by simp [noSpread, Observed.nothing]⟩
    rintro - innerType inner (_ | _ | _ | _)

/-- So it is with several selections. -/
theorem forall_seen_observeSelections_iff (typeName : String) (usage : Usage)
    (selections : List Selection) :
    (∀ entry ∈ (schema.observeSelections noSpread typeName usage selections).seen,
        entry.2.Throughout schema (Usage.PartsOverlap schema) entry.1) ↔
      ∀ selection ∈ selections, ∀ innerType inner,
        selection.Encloses schema typeName innerType inner → ∀ deep ∈ inner, ∀ carried,
          deep.Carries schema innerType innerType carried →
            schema.Overlap carried.owner carried.condition := by
  cases selections with
  | nil => simp [observeSelections]
  | cons selection rest =>
    rw [observeSelections]
    unfold Observed.andThen
    dsimp only
    rw [List.forall_mem_append, forall_seen_observeSelection_iff typeName selection,
      forall_seen_observeSelections_iff typeName _ rest, List.forall_mem_cons]

end

/-- So it is with selections of a document. -/
theorem forall_seen_observe_iff (document : Document) (typeName : String)
    (selections : List Selection) :
    (∀ entry ∈ (schema.observe document typeName selections).seen,
        entry.2.Throughout schema (Usage.PartsOverlap schema) entry.1) ↔
      ∀ selection ∈ document.inlined selections, ∀ innerType inner,
        selection.Encloses schema typeName innerType inner → ∀ deep ∈ inner, ∀ carried,
          deep.Carries schema innerType innerType carried →
            schema.Overlap carried.owner carried.condition := by
  rw [observe_eq_inlined]
  exact forall_seen_observeSelections_iff typeName .empty (document.inlined selections)

end Schema

/-! ## What documents show -/

namespace Document

/-- The document carries the fragment: some selection set in a query or subscription does, for the type
that the set is read inside. -/
def Carries (schema : Schema) (document : Document) (carried : Carried) : Prop :=
  ∃ operation ∈ document.operations, operation.type ≠ .mutation ∧
    ∃ root, schema.root? operation.type = some root ∧
      ∃ selection ∈ document.inlined operation.selections, ∃ innerType inner,
        selection.Encloses schema root innerType inner ∧
          ∃ deep ∈ inner, deep.Carries schema innerType innerType carried

/-- Each fragment on a type of the schema is on one that overlaps the type that it stands in. -/
def Overlapping (schema : Schema) (document : Document) : Prop :=
  ∀ definition ∈ document.definitions, ∀ pair ∈ definition.standing schema document,
    schema.hasType pair.2 = true → schema.Overlap pair.1 pair.2

variable {schema : Schema} {document : Document}

instance : Decidable (document.Overlapping schema) :=
  inferInstanceAs (Decidable (∀ definition ∈ document.definitions,
    ∀ pair ∈ definition.standing schema document,
      schema.hasType pair.2 = true → schema.Overlap pair.1 pair.2))

/-- The parts in what a document shows can apply just if each fragment that it carries can. -/
theorem forall_observations_iff :
    (∀ entry ∈ document.observations schema,
        entry.2.Throughout schema (Usage.PartsOverlap schema) entry.1) ↔
      ∀ carried, document.Carries schema carried →
        schema.Overlap carried.owner carried.condition := by
  constructor
  · rintro h carried ⟨operation, hoperation, hquery, root, hroot, selection, hselection, innerType,
      inner, hinner, deep, hdeep, hcarries⟩
    have hseen : ∀ entry ∈ (schema.observe document root operation.selections).seen,
        entry.2.Throughout schema (Usage.PartsOverlap schema) entry.1 := fun entry hentry =>
      h entry (mem_observations.2 ⟨operation, hoperation, hquery, root, hroot, hentry⟩)
    exact (Schema.forall_seen_observe_iff document root _).1 hseen selection hselection innerType
      inner hinner deep hdeep carried hcarries
  · intro h entry hentry
    obtain ⟨operation, hoperation, hquery, root, hroot, hmem⟩ := mem_observations.1 hentry
    refine (Schema.forall_seen_observe_iff document root _).2 ?_ entry hmem
    intro selection hselection innerType inner hinner deep hdeep carried hcarries
    exact h carried ⟨operation, hoperation, hquery, root, hroot, selection, hselection, innerType,
      inner, hinner, deep, hdeep, hcarries⟩

/-- A fragment that is carried overlaps the type that it stands in, if all fragments of the document
do. -/
theorem Carries.overlap {carried : Carried} (h : document.Carries schema carried)
    (hdocument : document.Overlapping schema) :
    schema.Overlap carried.enclosing carried.condition := by
  obtain ⟨operation, hoperation, -, root, hroot, selection, hselection, innerType, inner, hinner, deep,
    hdeep, hcarries⟩ := h
  have hfragments : ∀ fragment ∈ document.fragments, ∀ pair ∈
      Selection.standingInAll schema document fragment.condition fragment.selections,
      schema.hasType pair.2 = true → schema.Overlap pair.1 pair.2 :=
    fun fragment hfragment => hdocument (.fragment fragment) (mem_fragments.1 hfragment)
  have hown : ∀ pair ∈ Selection.standingInAll schema document root operation.selections,
      schema.hasType pair.2 = true → schema.Overlap pair.1 pair.2 := by
    obtain ⟨definition, hdefinition, hsome⟩ := List.mem_filterMap.1 hoperation
    cases definition with
    | fragment => cases hsome
    | operation other =>
      cases hsome
      have hstanding := hdocument (.operation operation) hdefinition
      rw [Definition.standing, hroot] at hstanding
      exact hstanding
  have hinlined := forall_standing_inlined hfragments hown
  obtain ⟨hstands, hknown⟩ := hcarries.standing document
  exact hinlined (carried.enclosing, carried.condition)
    (Selection.mem_standingInAll.2 ⟨selection, hselection, hinner.standing hdeep hstands⟩) hknown

end Document

/-- The parts in the usages of the table can apply, at every depth. -/
def UsageTable.PartsOverlap (schema : Schema) (table : UsageTable) : Prop :=
  ∀ entry ∈ table.entries, entry.2.Throughout schema (Usage.PartsOverlap schema) entry.1

namespace UsageTable

variable {schema : Schema}

theorem partsOverlap_empty : empty.PartsOverlap schema := by simp [UsageTable.PartsOverlap, empty]

theorem partsOverlap_mergeEntries_iff {table : UsageTable} {entries : List (String × Usage)} :
    (table.mergeEntries entries).PartsOverlap schema ↔
      table.PartsOverlap schema ∧
        ∀ entry ∈ entries, entry.2.Throughout schema (Usage.PartsOverlap schema) entry.1 :=
  @forall_mem_mergeEntries_iff
    (fun typeName usage => usage.Throughout schema (Usage.PartsOverlap schema) typeName)
    Schema.throughout_union_iff table entries

/-- The parts can apply after a document is learned just if those before can, and each fragment that the
document carries. -/
theorem partsOverlap_mergeAll_iff {table : UsageTable} {document : Document} :
    (table.mergeAll (document.usages schema)).PartsOverlap schema ↔
      table.PartsOverlap schema ∧ ∀ carried, document.Carries schema carried →
        schema.Overlap carried.owner carried.condition := by
  have husages : (document.usages schema).PartsOverlap schema ↔ _ := partsOverlap_mergeEntries_iff
  rw [Document.forall_observations_iff, and_iff_right partsOverlap_empty] at husages
  rw [← husages]
  exact partsOverlap_mergeEntries_iff

end UsageTable

end SelectionRecall
