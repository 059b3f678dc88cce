import Mathlib.Data.List.Nodup
import Mathlib.Data.List.Perm.Subperm
import Mathlib.Logic.Relation
import SelectionRecall.Proofs.Usage.Merge
import SelectionRecall.Usage.Fragment

/-!
# What stands in a document

Selections at any depth, and what is read off them: the directives of fields and the names of the
fragments that are spread.

* `Selection.nodes`: a selection and everything beneath it.
* `Selection.spreadsOf`: the names that are spread somewhere in selections.
* `Document.fragmentNames`, `Document.Closed`: the names that a document defines, and that it
  defines every name that it spreads.
* `Document.mem_of_fragment?`, `Document.fragment?_of_mem`: the fragment of a name.
* `Document.Spreads`, `Document.Acyclic`: spreads between fragments, and that none leads back.
* `Usage.toSelections_eq`, `Usage.mem_nodesOf_toSelections`: the selections of a usage, and what is
  beneath them.
* `Usage.isPlain_of_mem_toSelections`: they hold no directive and no spread.
-/

namespace SelectionRecall

/-- In lists that are related entry by entry, each entry of the second one has a partner. -/
theorem exists_mem_of_forall₂ {α β : Type} {related : α → β → Prop} {first : List α}
    {second : List β} (h : List.Forall₂ related first second) {b : β} (hb : b ∈ second) :
    ∃ a ∈ first, related a b := by
  induction h with
  | nil => simp at hb
  | cons hhead _ ih =>
    rcases List.mem_cons.1 hb with rfl | htail
    · exact ⟨_, List.mem_cons_self, hhead⟩
    · obtain ⟨a, ha, hrelated⟩ := ih htail
      exact ⟨a, List.mem_cons_of_mem _ ha, hrelated⟩

namespace Selection

mutual

/-- The selection and everything beneath it, in the order of the text. -/
def nodes : Selection → List Selection
  | .field alias? name arguments directives selections =>
    .field alias? name arguments directives selections :: nodesOf selections
  | .inline condition? directives selections =>
    .inline condition? directives selections :: nodesOf selections
  | .spread fragment directives => [.spread fragment directives]

/-- The selections and everything beneath them. -/
def nodesOf : List Selection → List Selection
  | [] => []
  | selection :: rest => selection.nodes ++ nodesOf rest

end

/-- The directives of a field. -/
def fieldDirectives : Selection → List Directive
  | .field _ _ _ directives _ => directives
  | .inline _ _ _ | .spread _ _ => []

/-- The fragment that the selection is a spread of, if it is one. -/
def spread? : Selection → Option String
  | .spread fragment _ => some fragment
  | .field _ _ _ _ _ | .inline _ _ _ => none

/-- The names of the fragments that are spread somewhere in the selections. -/
def spreadsOf (selections : List Selection) : List String := (nodesOf selections).filterMap spread?

/-- A field or an inline fragment without directives. -/
def IsPlain : Selection → Prop
  | .field _ _ _ directives _ => directives = []
  | .inline _ directives _ => directives = []
  | .spread _ _ => False

theorem mem_nodesOf {selections : List Selection} {node : Selection} :
    node ∈ nodesOf selections ↔ ∃ selection ∈ selections, node ∈ selection.nodes := by
  induction selections with
  | nil => simp [nodesOf]
  | cons selection rest ih => simp [nodesOf, ih]

theorem nodesOf_append (first second : List Selection) :
    nodesOf (first ++ second) = nodesOf first ++ nodesOf second := by
  induction first with
  | nil => rfl
  | cons selection rest ih => simp only [List.cons_append, nodesOf, ih, List.append_assoc]

@[simp]
theorem spreadsOf_nil : spreadsOf [] = [] := rfl

@[simp]
theorem spreadsOf_append (first second : List Selection) :
    spreadsOf (first ++ second) = spreadsOf first ++ spreadsOf second := by
  rw [spreadsOf, nodesOf_append, List.filterMap_append]; rfl

theorem spreadsOf_cons (selection : Selection) (rest : List Selection) :
    spreadsOf (selection :: rest) = spreadsOf [selection] ++ spreadsOf rest := by
  rw [← spreadsOf_append]; rfl

@[simp]
theorem spreadsOf_field (alias? : Option String) (name : String) (arguments : Arguments)
    (directives : List Directive) (selections : List Selection) :
    spreadsOf [.field alias? name arguments directives selections] = spreadsOf selections := by
  simp only [spreadsOf, nodesOf, nodes, List.append_nil]
  rw [List.filterMap_cons_none rfl]

@[simp]
theorem spreadsOf_inline (condition? : Option String) (directives : List Directive)
    (selections : List Selection) :
    spreadsOf [.inline condition? directives selections] = spreadsOf selections := by
  simp only [spreadsOf, nodesOf, nodes, List.append_nil]
  rw [List.filterMap_cons_none rfl]

@[simp]
theorem spreadsOf_spread (fragment : String) (directives : List Directive) :
    spreadsOf [.spread fragment directives] = [fragment] := by
  simp [spreadsOf, nodesOf, nodes, spread?]

/-- Selections without a spread on any node spread nothing. -/
theorem spreadsOf_eq_nil_of_isPlain {selections : List Selection}
    (h : ∀ node ∈ nodesOf selections, node.IsPlain) : spreadsOf selections = [] := by
  rw [spreadsOf, List.filterMap_eq_nil_iff]
  intro node hnode
  have hplain := h node hnode
  cases node with
  | field => rfl
  | inline => rfl
  | spread => exact hplain.elim

end Selection

namespace Usage

/-- The selections of a usage are those of its fields, then those of its parts. -/
theorem toSelections_eq (usage : Usage) :
    usage.toSelections =
      (usage.fields.map fun field =>
        .field none field.name field.arguments [] ((field.nested?.map toSelections).getD [])) ++
      usage.parts.map fun part => .inline (some part.1) [] part.2.toSelections := by
  have hfields : ∀ fields : List FieldUse, fieldSelections fields = fields.map fun field =>
      .field none field.name field.arguments [] ((field.nested?.map toSelections).getD []) := by
    intro fields
    induction fields with
    | nil => rw [fieldSelections]; rfl
    | cons field rest ih =>
      obtain ⟨name, arguments, nested?⟩ := field
      cases nested? <;> rw [fieldSelections, ih] <;> rfl
  have hparts : ∀ parts : List (String × Usage), partSelections parts = parts.map fun part =>
      .inline (some part.1) [] part.2.toSelections := by
    intro parts
    induction parts with
    | nil => rw [partSelections]; rfl
    | cons part rest ih => rw [partSelections, ih]; rfl
  cases usage with
  | mk fields parts => rw [toSelections, hfields, hparts]; rfl

theorem mem_toSelections {usage : Usage} {selection : Selection} :
    selection ∈ usage.toSelections ↔
      (∃ field ∈ usage.fields, selection =
        .field none field.name field.arguments [] ((field.nested?.map toSelections).getD [])) ∨
      ∃ part ∈ usage.parts, selection = .inline (some part.1) [] part.2.toSelections := by
  rw [toSelections_eq, List.mem_append, List.mem_map, List.mem_map]
  simp only [eq_comm]

/-- A node in the selections of a usage is written for a field or a part of it, or is one in the
selections of a usage beneath them. -/
theorem mem_nodesOf_toSelections {usage : Usage} {node : Selection} :
    node ∈ Selection.nodesOf usage.toSelections ↔
      (∃ field ∈ usage.fields,
        node = .field none field.name field.arguments [] ((field.nested?.map toSelections).getD []) ∨
          ∃ nested, field.nested? = some nested ∧ node ∈ Selection.nodesOf nested.toSelections) ∨
      ∃ part ∈ usage.parts, node = .inline (some part.1) [] part.2.toSelections ∨
        node ∈ Selection.nodesOf part.2.toSelections := by
  have hfield : ∀ field : FieldUse,
      node ∈ Selection.nodesOf ((field.nested?.map toSelections).getD []) ↔
        ∃ nested, field.nested? = some nested ∧ node ∈ Selection.nodesOf nested.toSelections := by
    intro field
    cases field.nested? <;> simp [Selection.nodesOf]
  rw [Selection.mem_nodesOf, toSelections_eq]
  simp only [List.mem_append, List.mem_map, or_and_right, exists_or, exists_exists_and_eq_and,
    Selection.nodes, List.mem_cons, hfield]

/-- **The selections of a usage are plain**: they hold no directive and spread no fragment. -/
theorem isPlain_of_mem_toSelections (usage : Usage) :
    ∀ node ∈ Selection.nodesOf usage.toSelections, node.IsPlain := by
  induction usage using Usage.induction with
  | step usage ihFields ihParts =>
    intro node hnode
    rcases mem_nodesOf_toSelections.1 hnode with
      ⟨field, hfield, rfl | ⟨nested, hnested, hbeneath⟩⟩ | ⟨part, hpart, rfl | hbeneath⟩
    · rfl
    · exact ihFields field hfield nested hnested node hbeneath
    · rfl
    · exact ihParts part hpart node hbeneath

/-- A usage spreads no fragment. -/
@[simp]
theorem spreadsOf_toSelections (usage : Usage) : Selection.spreadsOf usage.toSelections = [] :=
  Selection.spreadsOf_eq_nil_of_isPlain usage.isPlain_of_mem_toSelections

/-- So does a fragment with its selections. -/
theorem not_mem_spreadsOf_toFragment (usage : Usage) (name typeName spread : String) :
    spread ∉ Selection.spreadsOf (usage.toFragment name typeName).selections := by
  rw [toFragment, spreadsOf_toSelections]; exact List.not_mem_nil

end Usage

namespace Document

/-- The names of the fragments that the document defines, in order. -/
def fragmentNames (document : Document) : List String :=
  document.fragments.map FragmentDefinition.name

theorem mem_fragments {document : Document} {fragment : FragmentDefinition} :
    fragment ∈ document.fragments ↔ .fragment fragment ∈ document.definitions := by
  unfold fragments
  rw [List.mem_filterMap]
  constructor
  · rintro ⟨definition, hdefinition, hfragment⟩
    cases definition with
    | operation operation => simp [Definition.fragment?] at hfragment
    | fragment other =>
      rw [← Option.some.inj hfragment]; exact hdefinition
  · intro h
    exact ⟨_, h, rfl⟩

/-- The fragment of a name is one of the document. -/
theorem mem_of_fragment? {document : Document} {name : String} {fragment : FragmentDefinition}
    (h : document.fragment? name = some fragment) :
    fragment ∈ document.fragments ∧ fragment.name = name := by
  obtain ⟨hmem, hname⟩ := Keyed.mem_of_find? h
  exact ⟨List.mem_reverse.1 hmem, hname⟩

/-- Where names are distinct, a fragment of the document is found under its name. -/
theorem fragment?_of_mem {document : Document} (hnames : document.fragmentNames.Nodup)
    {fragment : FragmentDefinition} (h : fragment ∈ document.fragments) :
    document.fragment? fragment.name = some fragment := by
  have hreversed : (document.fragments.reverse.map FragmentDefinition.name).Nodup := by
    rw [List.map_reverse]; exact List.nodup_reverse.2 hnames
  exact Keyed.find?_of_mem hreversed (List.mem_reverse.2 h)

/-- Beside distinct fragments of the document there is room for one that is none of them. -/
theorem length_lt_of_fragment? {document : Document} {names : List String} (hnodup : names.Nodup)
    (hdefined : names ⊆ document.fragmentNames) {name : String} {fragment : FragmentDefinition}
    (hfragment : document.fragment? name = some fragment) (hnew : name ∉ names) :
    names.length < document.fragments.length := by
  obtain ⟨hmem, rfl⟩ := mem_of_fragment? hfragment
  have hnodup' : (fragment.name :: names).Nodup := List.nodup_cons.2 ⟨hnew, hnodup⟩
  have hdefined' : fragment.name :: names ⊆ document.fragmentNames :=
    List.cons_subset.2 ⟨List.mem_map_of_mem hmem, hdefined⟩
  have hlength := (List.Nodup.subperm hnodup' hdefined').length_le
  unfold fragmentNames at hlength
  rw [List.length_map] at hlength
  exact hlength

/-- Every fragment that is spread in the document is defined in it. -/
def Closed (document : Document) : Prop :=
  ∀ definition ∈ document.definitions, ∀ name ∈ Selection.spreadsOf definition.selections,
    name ∈ document.fragmentNames

instance (document : Document) : Decidable document.Closed :=
  inferInstanceAs (Decidable (∀ definition ∈ document.definitions,
    ∀ name ∈ Selection.spreadsOf definition.selections, name ∈ document.fragmentNames))

open Relation Selection

/-- A fragment of the first name spreads the second one. -/
def Spreads (document : Document) (name spread : String) : Prop :=
  ∃ fragment ∈ document.fragments, fragment.name = name ∧ spread ∈ spreadsOf fragment.selections

/-- No fragment reaches itself through spreads. -/
def Acyclic (document : Document) : Prop := ∀ name, ¬ TransGen document.Spreads name name

/-- Spreads that lead from higher to lower ranks have no cycle. -/
theorem acyclic_of_rank {document : Document} (rank : String → Nat)
    (h : ∀ fragment ∈ document.fragments, ∀ name ∈ spreadsOf fragment.selections,
      rank name < rank fragment.name) : document.Acyclic := by
  have hpath : ∀ {first last}, TransGen document.Spreads first last → rank last < rank first := by
    intro first last hpath
    induction hpath with
    | single hstep =>
      obtain ⟨fragment, hfragment, rfl, hspread⟩ := hstep
      exact h fragment hfragment _ hspread
    | tail _ hstep ih =>
      obtain ⟨fragment, hfragment, rfl, hspread⟩ := hstep
      exact Nat.lt_trans (h fragment hfragment _ hspread) ih
  intro name hcycle
  exact Nat.lt_irrefl _ (hpath hcycle)

end Document

end SelectionRecall
