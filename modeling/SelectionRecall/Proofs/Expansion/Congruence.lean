import SelectionRecall.Proofs.Expansion.Filled
import SelectionRecall.Proofs.Usage.Congruence

/-!
# Equal usages expand alike

Expansion asks a table for usages, and the supply whether a fragment covers or selects one. None of
this tells equal usages apart, so expansions with equal tables go through supplies that differ in the
form of equal usages only: they take the same names in the same order. So the definitions of a document
come out the same, and generated fragments differ in the order of their selections and the form of
equal arguments.

* `FragmentSupply.Same`: supplies with the same names for equal usages.
* `FragmentSupply.Same.request`: requests for equal usages have one answer.
* `Expansion.expandDefinitions_same`: expansion of definitions with equal tables.
* `Definition.Rearranged`, `Expansion.expand_same`: documents expanded with equal tables.
* `UsageTable.congruence_of_same`: nothing tells equal tables apart.
-/

namespace SelectionRecall

/-- Fragments of one name on one type that select equal usages. -/
structure SuppliedFragment.Same (fragment other : SuppliedFragment) : Prop where
  name : fragment.name = other.name
  typeName : fragment.typeName = other.typeName
  usage : fragment.usage.Same other.usage

/-- Equal fragments select equal usages. -/
theorem SuppliedFragment.Same.selects_eq {fragment other : SuppliedFragment}
    (h : fragment.Same other) {usage added : Usage} (husage : usage.Same added) (typeName : String) :
    fragment.selects typeName usage = other.selects typeName added := by
  have hequal : (fragment.usage == usage) = (other.usage == added) := by
    rw [Bool.eq_iff_iff]
    constructor
    · intro hselects
      have hsame : fragment.usage.Same usage := ⟨h.usage.left, husage.left, hselects⟩
      exact (h.usage.symm.trans (hsame.trans husage)).equal
    · intro hselects
      have hsame : other.usage.Same added := ⟨h.usage.right, husage.right, hselects⟩
      exact (h.usage.trans (hsame.trans husage.symm)).equal
  unfold selects
  rw [h.typeName, hequal]

/-- Among equal fragments the first one that selects a usage has one name. -/
theorem SuppliedFragment.map_find?_selects {fragments others : List SuppliedFragment}
    (h : List.Forall₂ SuppliedFragment.Same fragments others) {usage added : Usage}
    (husage : usage.Same added) (typeName : String) :
    (fragments.find? (·.selects typeName usage)).map SuppliedFragment.name =
      (others.find? (·.selects typeName added)).map SuppliedFragment.name := by
  induction h with
  | nil => rfl
  | cons hhead _ ih =>
    rw [List.find?_cons, List.find?_cons, hhead.selects_eq husage]
    split
    · exact congrArg some hhead.name
    · exact ih

/-! ## Requests -/

namespace FragmentSupply

/-- **Supplies are the same** if they differ in the form of generated usages only. -/
structure Same (supply other : FragmentSupply) : Prop where
  suffix : supply.suffix = other.suffix
  authored : supply.authored = other.authored
  generated : List.Forall₂ SuppliedFragment.Same supply.generated other.generated
  taken : supply.taken = other.taken

/-- Two runs have the same result, and leave supplies that are the same. -/
structure SameOutcome {α : Type} (first second : α × FragmentSupply) : Prop where
  result : first.1 = second.1
  supply : first.2.Same second.2

variable {supply other : FragmentSupply} {usage added : Usage}

/-- Equal usages are served by fragments of one name. -/
theorem Same.map_serving? (h : supply.Same other) (husage : usage.Same added) (typeName : String) :
    (supply.serving? typeName usage).map SuppliedFragment.name =
      (other.serving? typeName added).map SuppliedFragment.name := by
  have hauthored : (fun fragment : SuppliedFragment => fragment.covers typeName usage) =
      fun fragment => fragment.covers typeName added := by
    funext fragment
    unfold SuppliedFragment.covers
    rw [husage.covers_right]
  unfold serving?
  rw [h.authored, hauthored]
  cases other.authored.find? fun fragment => fragment.covers typeName added with
  | some fragment => rfl
  | none => exact SuppliedFragment.map_find?_selects h.generated husage typeName

/-- **Requests for equal usages have one answer.** -/
theorem Same.request (h : supply.Same other) (husage : usage.Same added) (typeName : String) :
    SameOutcome (supply.request typeName usage) (other.request typeName added) := by
  have hserving := h.map_serving? husage typeName
  unfold FragmentSupply.request
  cases hserved : supply.serving? typeName usage with
  | some fragment =>
    cases hserved' : other.serving? typeName added with
    | some known =>
      rw [hserved, hserved', Option.map_some, Option.map_some, Option.some.injEq] at hserving
      exact ⟨hserving, h⟩
    | none => rw [hserved, hserved'] at hserving; cases hserving
  | none =>
    cases hserved' : other.serving? typeName added with
    | some known => rw [hserved, hserved'] at hserving; cases hserving
    | none =>
      -- both generate a fragment, under the first name that is free in both
      have hname : freshName supply.taken (typeName ++ supply.suffix) =
          freshName other.taken (typeName ++ other.suffix) := by rw [h.taken, h.suffix]
      refine ⟨hname, h.suffix, h.authored, ?_, ?_⟩
      · exact List.rel_append h.generated (.cons ⟨hname, rfl, husage⟩ .nil)
      · exact congrArg₂ List.cons hname h.taken

end FragmentSupply

/-! ## Expansion -/

/-- Expansions with equal tables, and otherwise the same. -/
structure Expansion.Same (expansion other : Expansion) : Prop where
  options : expansion.options = other.options
  schema : expansion.schema = other.schema
  table : expansion.table.Same other.table

namespace Expansion

open FragmentSupply (SameOutcome)

variable {expansion other : Expansion} (h : expansion.Same other)

include h

/-- The same directives are markers. -/
theorem Same.isMarker_eq : expansion.isMarker = other.isMarker := by
  funext directive
  unfold isMarker
  rw [h.options]

/-- The same selections are marked. -/
theorem Same.anyMarks_eq (selections : List Selection) :
    expansion.anyMarks selections = other.anyMarks selections := by
  rw [Bool.eq_iff_iff, anyMarks_iff, anyMarks_iff, h.options]

/-- The same documents are marked. -/
theorem Same.isMarked_eq (document : Document) :
    expansion.isMarked document = other.isMarked document := by
  rw [Bool.eq_iff_iff, isMarked_iff, isMarked_iff, h.options]

/-- The same fragments are offered. -/
theorem Same.supplyOf_eq (document : Document) :
    expansion.supplyOf document = other.supplyOf document := by
  have hregister : expansion.register document = other.register document := by
    funext supply fragment
    unfold register
    rw [h.anyMarks_eq, h.schema]
  unfold supplyOf
  rw [hregister, h.options]

/-- Implementers request equal usages of the same types. -/
theorem Same.requestFor? (abstractName implementer : String) :
    Option.Rel (fun request known => request.1 = known.1 ∧ request.2.Same known.2)
      (expansion.requestFor? abstractName implementer)
      (other.requestFor? abstractName implementer) := by
  unfold Expansion.requestFor?
  rcases Keyed.rel_cases (h.table.getNonEmpty? implementer) with
    ⟨hfirst, hsecond⟩ | ⟨usage, added, hfirst, hsecond, hsame⟩
  · rw [hfirst, hsecond]
    -- the implementer was not seen, so the fields of the abstract type are asked for
    rcases Keyed.rel_cases (h.table.get? abstractName) with
      ⟨husage, hadded⟩ | ⟨usage, added, husage, hadded, hsame⟩
    · rw [husage, hadded]; exact Option.rel_none_none
    · have hfields := hsame.unconditional
      rw [husage, hadded, Option.map_some, Option.map_some, Option.filter_some, Option.filter_some,
        hfields.isEmpty_eq]
      cases added.unconditional.isEmpty with
      | true => exact Option.rel_none_none
      | false => exact Option.rel_some_some.2 ⟨rfl, hfields⟩
  · rw [hfirst, hsecond]
    exact Option.rel_some_some.2 ⟨rfl, hsame⟩

/-- Filling a marker on an abstract type has the same result. -/
theorem fillAbstract_same {supply known : FragmentSupply} (hsupply : supply.Same known)
    (abstractName : String) (implementers : List String) :
    SameOutcome (expansion.fillAbstract abstractName implementers supply)
      (other.fillAbstract abstractName implementers known) := by
  induction implementers generalizing supply known with
  | nil => exact ⟨rfl, hsupply⟩
  | cons implementer rest ih =>
    unfold fillAbstract
    rcases Keyed.rel_cases (h.requestFor? abstractName implementer) with
      ⟨hfirst, hsecond⟩ | ⟨⟨typeName, usage⟩, ⟨-, added⟩, hfirst, hsecond, rfl, hsame⟩
    · rw [hfirst, hsecond]; exact ih hsupply
    · rw [hfirst, hsecond]
      have hserved := hsupply.request hsame typeName
      have hothers := ih hserved.supply
      refine ⟨?_, hothers.supply⟩
      dsimp only
      rw [hserved.result, hothers.result]

/-- Filling a marker has the same result. -/
theorem fill_same {supply known : FragmentSupply} (hsupply : supply.Same known) (typeName : String) :
    SameOutcome (expansion.fill typeName supply) (other.fill typeName known) := by
  unfold fill
  rw [h.schema]
  split
  · exact fillAbstract_same h hsupply typeName _
  · rcases Keyed.rel_cases (h.table.getNonEmpty? typeName) with
      ⟨hfirst, hsecond⟩ | ⟨usage, added, hfirst, hsecond, hsame⟩
    · rw [hfirst, hsecond]; exact ⟨rfl, hsupply⟩
    · rw [hfirst, hsecond]
      have hserved := hsupply.request hsame typeName
      refine ⟨?_, hserved.supply⟩
      dsimp only
      rw [hserved.result]

/-- So has adding to a field. -/
theorem fillField_same {supply known : FragmentSupply} (hsupply : supply.Same known)
    (directives : List Directive) (type? : Option String) :
    SameOutcome (expansion.fillField directives type? supply)
      (other.fillField directives type? known) := by
  unfold fillField
  cases type? with
  | none => exact ⟨rfl, hsupply⟩
  | some typeName =>
    dsimp only
    rw [h.isMarker_eq]
    split
    · exact fill_same h hsupply typeName
    · exact ⟨rfl, hsupply⟩

omit h

mutual

/-- Expanding a selection has the same result. -/
theorem expandSelection_same (h : expansion.Same other) {supply known : FragmentSupply}
    (hsupply : supply.Same known) (parent? : Option String) (selection : Selection) :
    SameOutcome (expansion.expandSelection parent? supply selection)
      (other.expandSelection parent? known selection) := by
  cases selection with
  | field alias? name arguments directives selections =>
    rw [expandSelection, expandSelection, h.schema, h.isMarker_eq]
    let type? := parent?.bind fun parent => other.schema.fieldType? parent name
    have hinner := expandSelections_same h hsupply type? selections
    have hadded := fillField_same h hinner.supply directives type?
    refine ⟨?_, hadded.supply⟩
    dsimp only
    rw [hinner.result, hadded.result]
  | inline condition? directives selections =>
    rw [expandSelection, expandSelection]
    have hinner := expandSelections_same h hsupply (condition?.or parent?) selections
    refine ⟨?_, hinner.supply⟩
    dsimp only
    rw [hinner.result]
  | spread fragment directives => exact ⟨rfl, hsupply⟩

/-- So has expanding selections. -/
theorem expandSelections_same (h : expansion.Same other) {supply known : FragmentSupply}
    (hsupply : supply.Same known) (parent? : Option String) (selections : List Selection) :
    SameOutcome (expansion.expandSelections parent? supply selections)
      (other.expandSelections parent? known selections) := by
  cases selections with
  | nil => exact ⟨rfl, hsupply⟩
  | cons selection rest =>
    rw [expandSelections, expandSelections]
    have hfirst := expandSelection_same h hsupply parent? selection
    have hothers := expandSelections_same h hfirst.supply parent? rest
    refine ⟨?_, hothers.supply⟩
    dsimp only
    rw [hfirst.result, hothers.result]

end

include h

/-- So has expanding a definition. -/
theorem expandDefinition_same {supply known : FragmentSupply} (hsupply : supply.Same known)
    (definition : Definition) :
    SameOutcome (expansion.expandDefinition supply definition)
      (other.expandDefinition known definition) := by
  cases definition with
  | operation operation =>
    have hinner := expandSelections_same h hsupply (other.schema.root? operation.type)
      operation.selections
    unfold expandDefinition
    rw [h.schema]
    refine ⟨?_, hinner.supply⟩
    dsimp only
    rw [hinner.result]
  | fragment fragment =>
    have hinner := expandSelections_same h hsupply (some fragment.condition) fragment.selections
    refine ⟨?_, hinner.supply⟩
    unfold expandDefinition
    dsimp only
    rw [hinner.result]

/-- **Expansion with equal tables** has the same result on definitions, and leaves supplies that are
the same. -/
theorem expandDefinitions_same {supply known : FragmentSupply} (hsupply : supply.Same known)
    (definitions : List Definition) :
    SameOutcome (expansion.expandDefinitions supply definitions)
      (other.expandDefinitions known definitions) := by
  induction definitions generalizing supply known with
  | nil => exact ⟨rfl, hsupply⟩
  | cons definition rest ih =>
    rw [expandDefinitions, expandDefinitions]
    have hfirst := expandDefinition_same h hsupply definition
    have hothers := ih hfirst.supply
    refine ⟨?_, hothers.supply⟩
    dsimp only
    rw [hfirst.result, hothers.result]

end Expansion

/-! ## Generated fragments -/

/-- A fragment of the same name on the same type, with its selections in another order. -/
inductive Definition.Rearranged : Definition → Definition → Prop
  | fragment {name condition directives selections rearranged} :
    Selection.RearrangedAll selections rearranged →
      Definition.Rearranged (.fragment ⟨name, condition, directives, selections⟩)
        (.fragment ⟨name, condition, directives, rearranged⟩)

theorem SuppliedFragment.Same.rearranged {fragment other : SuppliedFragment}
    (h : fragment.Same other) : fragment.definition.Rearranged other.definition := by
  unfold definition Usage.toFragment
  rw [h.name, h.typeName]
  exact .fragment h.usage.rearranged

namespace Expansion

/-- **Equal tables expand a document alike**: its definitions come out the same, and behind them come
as many fragments, each with the same name on the same type and with the same selections in another
order. -/
theorem expand_same {expansion other : Expansion} (h : expansion.Same other) (document : Document) :
    (expansion.expand document).definitions.take document.definitions.length =
        (other.expand document).definitions.take document.definitions.length ∧
      List.Forall₂ Definition.Rearranged
        ((expansion.expand document).definitions.drop document.definitions.length)
        ((other.expand document).definitions.drop document.definitions.length) := by
  -- both start from one supply, in which nothing is generated yet
  have hnone : (other.supplyOf document).Same (other.supplyOf document) := by
    refine ⟨rfl, rfl, ?_, rfl⟩
    rw [generated_supplyOf]; exact .nil
  have hexpanded := expandDefinitions_same h hnone document.definitions
  have hmarked := h.isMarked_eq document
  unfold expand
  rw [hmarked, h.supplyOf_eq]
  split
  · have hlength : ∀ expansion : Expansion,
        (expansion.expandDefinitions (other.supplyOf document) document.definitions).1.length =
          document.definitions.length := fun expansion => expansion.length_expandDefinitions _ _
    refine ⟨?_, ?_⟩
    · dsimp only
      rw [List.take_left' (hlength expansion), List.take_left' (hlength other), hexpanded.result]
    · dsimp only
      rw [List.drop_left' (hlength expansion), List.drop_left' (hlength other),
        List.forall₂_map_left_iff, List.forall₂_map_right_iff]
      exact hexpanded.supply.generated.imp fun _ _ hsame => hsame.rearranged
  · refine ⟨rfl, ?_⟩
    rw [List.drop_length]; exact .nil

end Expansion

/-- **Nothing tells equal tables apart.** What is equal may be added to both, and they stay equal. They
are empty together, and lead to equal usages, empty or not, of which the same holds: equal usages are
empty together, have equal fields, and cover the same and are covered by the same. And a document is
expanded alike with both: its definitions come out the same, and the fragments that come behind them
differ in the order of selections and in the form of equal arguments, and in nothing else. -/
theorem UsageTable.congruence_of_same {table other : UsageTable} (h : table.Same other) :
    ((∀ typeName usage added, usage.Same added →
        (table.merge typeName usage).Same (other.merge typeName added)) ∧
      ∀ observed added : UsageTable, observed.Same added →
        (table.mergeAll observed).Same (other.mergeAll added)) ∧
    (table.isEmpty = other.isEmpty ∧
      ∀ typeName, Option.Rel Usage.Same (table.get? typeName) (other.get? typeName) ∧
        Option.Rel Usage.Same (table.getNonEmpty? typeName) (other.getNonEmpty? typeName)) ∧
    (∀ usage added : Usage, usage.Same added →
      usage.isEmpty = added.isEmpty ∧ usage.unconditional.Same added.unconditional ∧
        ∀ inner deep : Usage, inner.Same deep → usage.covers inner = added.covers deep) ∧
    ∀ (options : MarkerOptions) (schema : Schema) (document : Document),
      let first := (Expansion.mk options schema table).expand document
      let second := (Expansion.mk options schema other).expand document
      first.definitions.take document.definitions.length =
          second.definitions.take document.definitions.length ∧
        List.Forall₂ Definition.Rearranged (first.definitions.drop document.definitions.length)
          (second.definitions.drop document.definitions.length) := by
  refine ⟨⟨?_, ?_⟩, ⟨h.isEmpty_eq, ?_⟩, ?_, ?_⟩
  · exact fun typeName usage added hadded => h.merge hadded typeName
  · exact fun observed added hadded => h.mergeAll hadded
  · exact fun typeName => ⟨h.get? typeName, h.getNonEmpty? typeName⟩
  · exact fun usage added hsame =>
      ⟨hsame.isEmpty_eq, hsame.unconditional, fun inner deep hinner => hsame.covers_eq hinner⟩
  · intro options schema document
    have hexpansions : (Expansion.mk options schema table).Same (Expansion.mk options schema other) :=
      ⟨rfl, rfl, h⟩
    exact Expansion.expand_same hexpansions document

/-- What was seen of pets and dogs, with one of the two zeros as an argument. -/
def petUsages (negative : Bool) : List (String × Usage) :=
  [("Pet", .ofField (.leaf "name")), ("Dog", .ofField (.leaf "name")),
    ("Dog", .ofField (.mk "barks" [("pitch", .float (.zero negative))] none))]

/-- **Tables that saw the same in opposite orders**, with different zeros. They are equal, and a document
with a marker has the same definitions and the same fragments after expansion with both, though the
fields that are known of dogs, which the generated fragment selects, come in opposite orders. -/
theorem UsageTable.congruence_of_same_pet :
    let table := UsageTable.empty.mergeEntries (petUsages false)
    let other := UsageTable.empty.mergeEntries (petUsages true).reverse
    let expand := fun table : UsageTable =>
      (Expansion.mk {} Expansion.petExpansion.schema table).expand Expansion.petDocument
    table.Same other ∧
      (table.get? "Dog").map Usage.fieldNames = some ["name", "barks"] ∧
      (other.get? "Dog").map Usage.fieldNames = some ["barks", "name"] ∧
      (expand table).definitions.take 2 = (expand other).definitions.take 2 ∧
      List.Forall₂ Definition.Rearranged ((expand table).definitions.drop 2)
        ((expand other).definitions.drop 2) ∧
      (expand other).fragmentNames = ["Named", "DogFragment"] := by
  intro table other expand
  have hfield : ∀ name arguments, (Usage.ofField (.mk name arguments none)).Distinct := fun _ _ =>
    Usage.distinct_iff.2 ⟨⟨List.nodup_cons.2 ⟨by simp, List.nodup_nil⟩, List.nodup_nil⟩,
      by simp [Usage.DistinctBeneath, FieldUse.nested?], by simp⟩
  have hentries : ∀ negative, ∀ entry ∈ petUsages negative, entry.2.Distinct := by
    simp [petUsages, FieldUse.leaf, hfield]
  have htable : table.Distinct := UsageTable.distinct_empty.mergeEntries (hentries false)
  have hother : other.Distinct := UsageTable.distinct_empty.mergeEntries fun entry hentry =>
    hentries true entry (List.mem_reverse.1 hentry)
  have hsame : table.Same other := ⟨htable, hother, by decide +kernel⟩
  obtain ⟨-, -, -, hexpand⟩ := UsageTable.congruence_of_same hsame
  obtain ⟨hkept, hadded⟩ := hexpand {} Expansion.petExpansion.schema Expansion.petDocument
  exact ⟨hsame, by decide +kernel, by decide +kernel, hkept, hadded, by decide +kernel⟩

end SelectionRecall
