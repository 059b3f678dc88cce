import SelectionRecall.Proofs.Document.Variables
import SelectionRecall.Proofs.Expansion.Cycles
import SelectionRecall.Proofs.Expansion.Kept

/-!
# Variables after expansion

An operation must declare the variables that it uses, also those in the fragments that it reaches.
What expansion generates has no variables, since arguments that mention one are not learned. But a
fragment of the document that is lent to a marker keeps its variables, with all that it spreads: an
operation that did not reach it before uses them from then on. This is the only way.

* `Expansion.keptVariables`: the variables of a definition without those of its markers.
* `Expansion.variableNames_expandDefinition`: an expanded definition has just these.
* `Expansion.ReachesByLoans`: the fragments that a definition reaches along spreads and loans.
* `Expansion.uses_expandDefinition_iff`: the variables that an expanded definition uses.
* `Expansion.uses_subset_iff`: when it uses none that it did not use before.
* `Expansion.uses_subset_iff_done`: an operation that is lent a variable of another one.
-/

namespace SelectionRecall

open Relation Selection

/-! ## Variables that are kept -/

namespace Selection

/-- The variables in a selection, without those beneath it and those of its markers. -/
def keptOwnVariables (marker : String) : Selection → List String
  | .field _ _ arguments directives _ =>
    arguments.variableNames ++
      Directive.variablesIn (directives.filter fun directive => directive.name ≠ marker)
  | .inline _ directives _ | .spread _ directives => Directive.variablesIn directives

/-- The variables in selections and everything beneath them, without those of markers. -/
def keptVariablesIn (marker : String) (selections : List Selection) : List String :=
  (nodesOf selections).flatMap (keptOwnVariables marker)

variable {marker : String}

theorem keptVariablesIn_cons (selection : Selection) (rest : List Selection) :
    keptVariablesIn marker (selection :: rest) =
      keptVariablesIn marker [selection] ++ keptVariablesIn marker rest := by
  simp [keptVariablesIn, nodesOf]

/-- What is kept was there before. -/
theorem keptVariablesIn_subset (marker : String) (selections : List Selection) :
    keptVariablesIn marker selections ⊆ variablesIn selections := by
  intro name hname
  obtain ⟨node, hnode, hkept⟩ := List.mem_flatMap.1 hname
  refine List.mem_flatMap.2 ⟨node, hnode, ?_⟩
  cases node with
  | inline _ _ _ | spread _ _ => exact hkept
  | field alias? name arguments directives selections =>
    rcases List.mem_append.1 hkept with harguments | hdirectives
    · exact List.mem_append_left _ harguments
    · obtain ⟨directive, hdirective, hmem⟩ := List.mem_flatMap.1 hdirectives
      exact List.mem_append_right _
        (List.mem_flatMap.2 ⟨directive, (List.mem_filter.1 hdirective).1, hmem⟩)

/-- Spreads that are added have no variables. -/
theorem variablesIn_of_isAdded {selections : List Selection}
    (h : ∀ selection ∈ selections, selection.IsAdded) : variablesIn selections = [] := by
  refine variablesIn_eq_nil fun selection hselection => ?_
  cases h selection hselection with
  | spread => rw [variablesIn_spread]; rfl
  | inline => rw [variablesIn_inline, variablesIn_spread]; rfl

end Selection

namespace Expansion

variable (expansion : Expansion)

/-- The variables of a definition without those of its markers. -/
def keptVariables (definition : Definition) : List String :=
  definition.headVariables ++ keptVariablesIn expansion.options.directive definition.selections

theorem keptVariables_subset (definition : Definition) :
    expansion.keptVariables definition ⊆ definition.variableNames :=
  List.append_subset.2 ⟨List.subset_append_left _ _,
    List.Subset.trans (keptVariablesIn_subset _ _) (List.subset_append_right _ _)⟩

mutual

/-- An expanded selection has the variables that are kept. -/
theorem variablesIn_expandSelection (parent? : Option String) (supply : FragmentSupply)
    (selection : Selection) :
    variablesIn [(expansion.expandSelection parent? supply selection).1] =
      keptVariablesIn expansion.options.directive [selection] := by
  cases selection with
  | field alias? name arguments directives selections =>
    have hkept := variablesIn_expandSelections
      (parent?.bind fun parent => expansion.schema.fieldType? parent name) supply selections
    have hadded := variablesIn_of_isAdded (expansion.isAdded_fillField directives
      (parent?.bind fun parent => expansion.schema.fieldType? parent name)
      (expansion.expandSelections
        (parent?.bind fun parent => expansion.schema.fieldType? parent name) supply selections).2)
    rw [expandSelection]
    simp only [variablesIn_field, variablesIn_append, hkept, hadded, List.append_nil]
    simp [keptVariablesIn, nodesOf, nodes, keptOwnVariables, isMarker]
  | inline condition? directives selections =>
    rw [expandSelection]
    simp only [variablesIn_inline, variablesIn_expandSelections]
    simp [keptVariablesIn, nodesOf, nodes, keptOwnVariables]
  | spread name directives =>
    rw [expandSelection, variablesIn_spread]
    simp [keptVariablesIn, nodesOf, nodes, keptOwnVariables]

/-- So have several. -/
theorem variablesIn_expandSelections (parent? : Option String) (supply : FragmentSupply)
    (selections : List Selection) :
    variablesIn (expansion.expandSelections parent? supply selections).1 =
      keptVariablesIn expansion.options.directive selections := by
  cases selections with
  | nil => rfl
  | cons selection rest =>
    rw [expandSelections, variablesIn_cons, variablesIn_expandSelection,
      variablesIn_expandSelections, ← keptVariablesIn_cons]

end

/-- **An expanded definition** has the variables that are kept. -/
theorem variableNames_expandDefinition (supply : FragmentSupply) (definition : Definition) :
    (expansion.expandDefinition supply definition).1.variableNames =
      expansion.keptVariables definition := by
  unfold Definition.variableNames keptVariables
  rw [selections_expandDefinition, variablesIn_expandSelections]
  cases definition <;> rfl

/-! ## Fragments that are reached -/

/-- The definition reaches a fragment of this name along spreads of the document and loans to markers,
each of which is served with a fragment of the document. -/
def ReachesByLoans (document : Document) (definition : Definition) (name : String) : Prop :=
  ∃ first, (first ∈ spreadsOf definition.selections ∨ expansion.LendsTo document definition first) ∧
    ReflTransGen (fun name next => document.Spreads name next ∨ expansion.Lends document name next)
      first name

section

variable {document : Document} {definition : Definition} {before after : List (String × Usage)}

/-- What an expanded definition reaches among the fragments of the document, the definition reaches
along spreads and loans. -/
theorem reaches_expandDefinition_iff (hmarked : expansion.isMarked document = true)
    (h : expansion.requests document =
      before ++ expansion.definitionRequests definition ++ after)
    {name : String}
    (hname : name ∉ (expansion.supplyAfter document).generated.map SuppliedFragment.name) :
    (expansion.expand document).Reaches
        (expansion.expandDefinition ((expansion.supplyOf document).requestAll before).2
          definition).1 name ↔
      expansion.ReachesByLoans document definition name := by
  constructor
  · rintro ⟨first, hfirst, hpath⟩
    have hkept : ReflTransGen
        (fun name next => document.Spreads name next ∨ expansion.Lends document name next)
        first name := by
      rcases reflTransGen_iff_eq_or_transGen.1 hpath with rfl | hpath
      · exact .refl
      · exact (expansion.transGen_of_transGen_expand hmarked hname hpath).to_reflTransGen
    rcases expansion.spreadsOf_expandDefinition_cases h hfirst with hspread | hlends | hgenerated
    · exact ⟨first, Or.inl hspread, hkept⟩
    · exact ⟨first, Or.inr hlends, hkept⟩
    · -- from a generated fragment nothing else is reached
      rcases ReflTransGen.cases_head hpath with rfl | ⟨next, hnext, -⟩
      · exact absurd hgenerated hname
      · exact absurd hnext (expansion.not_spreads_of_generated hmarked hgenerated next)
  · rintro ⟨first, hfirst, hpath⟩
    refine ⟨first, expansion.mem_spreadsOf_expandDefinition h hfirst, ?_⟩
    exact ReflTransGen.mono
      (fun _ _ hstep => expansion.spreads_expand_of_spreads_or_lends hmarked hstep) _ _ hpath

end

/-! ## Variables that are used -/

variable {expansion}

/-- What is known has no variables. -/
theorem variableFree_of_knows (htable : expansion.table.VariableFree) {typeName : String}
    {usage : Usage} (h : expansion.Knows typeName usage) : usage.VariableFree := by
  obtain ⟨known, hget, rfl | rfl⟩ := h
  · exact htable (typeName, usage) (Keyed.mem_of_lookup hget)
  · exact Usage.VariableFree.unconditional (htable (typeName, known) (Keyed.mem_of_lookup hget))

section

variable {document : Document} {definition : Definition} {before after : List (String × Usage)}

/-- **The variables that an expanded definition uses**: those that it keeps, and those that are kept in
the fragments of the document that it reaches along spreads and loans. -/
theorem uses_expandDefinition_iff (htable : expansion.table.VariableFree)
    (hmarked : expansion.isMarked document = true)
    (h : expansion.requests document =
      before ++ expansion.definitionRequests definition ++ after)
    (name : String) :
    (expansion.expand document).Uses
        (expansion.expandDefinition ((expansion.supplyOf document).requestAll before).2
          definition).1 name ↔
      name ∈ expansion.keptVariables definition ∨
        ∃ fragment ∈ document.fragments,
          expansion.ReachesByLoans document definition fragment.name ∧
            name ∈ expansion.keptVariables (.fragment fragment) := by
  -- no generated fragment has a name of the document
  have hauthored : ∀ fragment ∈ document.fragments,
      fragment.name ∉ (expansion.supplyAfter document).generated.map SuppliedFragment.name := by
    intro fragment hfragment hgenerated
    obtain ⟨supplied, hsupplied, hsame⟩ := List.mem_map.1 hgenerated
    refine (expansion.wellNamed_supplyAfter document).generated_not_reserved supplied hsupplied ?_
    rw [hsame]
    exact List.mem_map_of_mem hfragment
  unfold Document.Uses
  rw [variableNames_expandDefinition]
  refine or_congr_right ?_
  constructor
  · rintro ⟨expanded, hexpanded, hreaches, hname⟩
    rw [fragments_expand expansion hmarked] at hexpanded
    rcases List.mem_append.1 hexpanded with hold | hnew
    · obtain ⟨kept, hkept, hfragment⟩ := List.mem_filterMap.1 hold
      obtain ⟨original, horiginal, others, rest, -, rfl⟩ :=
        expansion.exists_of_mem_expandedDefinitions hkept
      cases original with
      | operation operation => simp [expandDefinition, Definition.fragment?] at hfragment
      | fragment fragment =>
        have hmem := Document.mem_fragments.2 horiginal
        have hvariables := expansion.variableNames_expandDefinition
          ((expansion.supplyOf document).requestAll others).2 (.fragment fragment)
        rw [expandDefinition, Definition.fragment?, Option.some.injEq] at hfragment
        subst hfragment
        refine ⟨fragment, hmem, ?_, hvariables ▸ hname⟩
        exact (expansion.reaches_expandDefinition_iff hmarked h (hauthored fragment hmem)).1 hreaches
    · obtain ⟨supplied, hsupplied, rfl⟩ := List.mem_map.1 hnew
      have hfree := variableFree_of_knows htable
        (expansion.generatesOnly_supplyAfter document supplied hsupplied)
      rw [hfree.variableNames_toFragment] at hname
      simp at hname
  · rintro ⟨fragment, hfragment, hreaches, hname⟩
    obtain ⟨others, rest, -, hmem⟩ := expansion.mem_fragments_expand hmarked hfragment
    have hvariables := expansion.variableNames_expandDefinition
      ((expansion.supplyOf document).requestAll others).2 (.fragment fragment)
    refine ⟨_, hmem, ?_, hvariables ▸ hname⟩
    exact (expansion.reaches_expandDefinition_iff hmarked h (hauthored fragment hfragment)).2 hreaches

end

/-- Without markers nothing is lent. -/
theorem reaches_of_reachesByLoans {document : Document} (h : expansion.isMarked document = false)
    {definition : Definition} (hdefinition : definition ∈ document.definitions) {name : String}
    (hreaches : expansion.ReachesByLoans document definition name) :
    document.Reaches definition name := by
  have hnone : ∀ definition ∈ document.definitions, ∀ lent,
      ¬ expansion.LendsTo document definition lent := by
    rintro definition hdefinition lent ⟨request, hrequest, -⟩
    have hempty := expansion.requests_of_isMarked_eq_false h
    have hmem : request ∈ expansion.requests document :=
      List.mem_flatMap.2 ⟨definition, hdefinition, hrequest⟩
    rw [hempty] at hmem
    simp at hmem
  obtain ⟨first, hfirst, hpath⟩ := hreaches
  refine ⟨first, hfirst.resolve_right (hnone definition hdefinition first), ?_⟩
  refine ReflTransGen.mono ?_ _ _ hpath
  rintro _ _ (hspread | ⟨fragment, hfragment, -, hlends⟩)
  · exact hspread
  · exact absurd hlends (hnone (.fragment fragment) (Document.mem_fragments.1 hfragment) _)

/-- **When no variable is added.** If no known usage mentions a variable, an operation uses no
variable after expansion that it did not use before, just if each fragment that it reaches along
spreads and loans, but not along spreads alone, only has variables that the operation used before,
apart from those of its markers. -/
theorem uses_subset_iff (htable : expansion.table.VariableFree) {document : Document} {index : ℕ}
    {operation : OperationDefinition}
    (h : document.definitions[index]? = some (.operation operation)) :
    ∃ expanded, (expansion.expand document).definitions[index]? = some (.operation expanded) ∧
      ((∀ name, (expansion.expand document).Uses (.operation expanded) name →
          document.Uses (.operation operation) name) ↔
        ∀ fragment ∈ document.fragments,
          expansion.ReachesByLoans document (.operation operation) fragment.name →
          ¬ document.Reaches (.operation operation) fragment.name →
          ∀ name ∈ expansion.keptVariables (.fragment fragment),
            document.Uses (.operation operation) name) := by
  cases hmarked : expansion.isMarked document with
  | false =>
    rw [expand_of_isMarked_eq_false expansion hmarked]
    refine ⟨operation, h, fun _ fragment _ hreaches hother => ?_, fun _ name hname => hname⟩
    exact absurd (reaches_of_reachesByLoans hmarked (List.mem_of_getElem? h) hreaches) hother
  | true =>
    obtain ⟨before, after, hrequests, hget⟩ := expansion.expandedDefinitions_getElem? h
    have hexpanded : (expansion.expand document).definitions[index]? =
        (expansion.expandedDefinitions document)[index]? := by
      rw [expand_eq expansion hmarked]
      exact List.getElem?_append_left (List.getElem?_eq_some_iff.1 hget).1
    refine ⟨_, hexpanded.trans hget, ?_⟩
    have huses := uses_expandDefinition_iff htable hmarked hrequests
    constructor
    · intro hall fragment hfragment hreaches _ name hname
      exact hall name ((huses name).2 (Or.inr ⟨fragment, hfragment, hreaches, hname⟩))
    · intro hall name hname
      rcases (huses name).1 hname with hown | ⟨fragment, hfragment, hreaches, hkept⟩
      · exact Or.inl (expansion.keptVariables_subset _ hown)
      · by_cases hspreads : document.Reaches (.operation operation) fragment.name
        · exact Or.inr ⟨fragment, hfragment, hspreads, expansion.keptVariables_subset _ hkept⟩
        · exact hall fragment hfragment hreaches hspreads name hkept

/-- Of the todos of this schema, only `id` was ever selected. -/
def doneExpansion : Expansion where
  options := {}
  schema := ⟨"Query", some "Mutation", none,
    [⟨"Todo", .object, [("id", "ID")], []⟩, ⟨"Query", .object, [("todo", "Todo")], []⟩,
      ⟨"Mutation", .object, [("addTodo", "Todo")], []⟩]⟩
  table := ⟨[("Todo", .mk [.leaf "id"] [])]⟩

/-- A mutation with a marker. -/
def doneMutation : OperationDefinition :=
  ⟨some ⟨.mutation, some "Add", [], []⟩, [.field none "addTodo" [] [⟨"populate", []⟩] []]⟩

/-- A fragment with a variable of the query. -/
def doneFragment : FragmentDefinition :=
  ⟨"Brief", "Todo", [],
    [.field none "id" [] [⟨"include", [("if", .variable "brief")]⟩] []]⟩

/-- The mutation beside a query that declares the variable of a fragment and spreads it. -/
def doneDocument : Document :=
  ⟨[.operation doneMutation,
    .operation ⟨some ⟨.query, some "One", [⟨"brief", .nonNull (.named "Boolean"), none⟩], []⟩,
      [.field none "todo" [] [] [.spread "Brief" []]]⟩,
    .fragment doneFragment]⟩

/-- **An operation that is lent a variable of another one**: the marker of the mutation is served with
the fragment of the query. -/
theorem uses_subset_iff_done :
    doneExpansion.table.VariableFree ∧
      doneDocument.definitions[0]? = some (.operation doneMutation) ∧
      ∃ expanded, (doneExpansion.expand doneDocument).definitions[0]? = some (.operation expanded) ∧
        ¬ ∀ name, (doneExpansion.expand doneDocument).Uses (.operation expanded) name →
          doneDocument.Uses (.operation doneMutation) name := by
  have htable : doneExpansion.table.VariableFree := by
    refine List.forall_mem_singleton.2 (Usage.everywhere_iff.2 ⟨?_, ?_, ?_⟩)
    · exact List.forall_mem_singleton.2 rfl
    · exact List.forall_mem_singleton.2 fun nested hnested => by cases hnested
    · simp [Usage.parts]
  have hserved : ((doneExpansion.supplyOf doneDocument).authored.find?
      (·.covers "Todo" (.mk [.leaf "id"] []))).map SuppliedFragment.name = some "Brief" := by
    decide +kernel
  obtain ⟨supplied, hfind, hname⟩ := Option.map_eq_some_iff.1 hserved
  have hreaches :
      doneExpansion.ReachesByLoans doneDocument (.operation doneMutation) doneFragment.name :=
    ⟨"Brief", Or.inr ⟨("Todo", .mk [.leaf "id"] []), List.mem_cons_self, supplied, hfind, hname⟩,
      .refl⟩
  have hnone : ∀ name, ¬ doneDocument.Reaches (.operation doneMutation) name := by
    rintro name ⟨first, hfirst, -⟩
    simp [Definition.selections, doneMutation] at hfirst
  have hbrief : ¬ doneDocument.Uses (.operation doneMutation) "brief" := by
    rintro (hown | ⟨fragment, -, hfragment, -⟩)
    · revert hown
      decide
    · exact hnone _ hfragment
  obtain ⟨expanded, hexpanded, hiff⟩ := uses_subset_iff htable
    (show doneDocument.definitions[0]? = some (.operation doneMutation) from rfl)
  refine ⟨htable, rfl, expanded, hexpanded, ?_⟩
  intro hall
  have hmem : doneFragment ∈ doneDocument.fragments := List.mem_cons_self
  exact hbrief (hiff.1 hall doneFragment hmem hreaches (hnone _) "brief" (by decide))

end Expansion

end SelectionRecall
