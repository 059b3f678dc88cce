import Mathlib.Logic.Relation
import SelectionRecall.Proofs.Expansion.Unmarked

/-!
# Cycles of spreads

A marker in one fragment may be served with another fragment of the document. That fragment is lent
as it stands, with all that it spreads, so that a document without cycles of spreads may have one
after expansion: the marker is served with a fragment from which its own fragment is reached again.
This is the only way, and it is told from the document before expansion.

* `Expansion.Lends`: a marker in one fragment is served with another one of the document.
* `Expansion.LendsTo`: so it is with any definition.
* `Expansion.spreads_expand_of_spreads_or_lends`, `Expansion.spreads_cases_of_expand`: the spreads
  after expansion.
* `Expansion.acyclic_expand_iff`: when no cycle arises.
* `Expansion.acyclic_expand_iff_loop`: a document in which one arises.
-/

namespace SelectionRecall

open Relation Selection

/-! ## Paths along two kinds of edges -/

section

variable {α : Type} {plain extra : α → α → Prop}

/-- A path of extra edges, each followed by plain ones, goes on along plain edges. -/
theorem transGen_comp_trans {a b c : α} (h : TransGen (Comp extra (ReflTransGen plain)) a b)
    (hplain : ReflTransGen plain b c) : TransGen (Comp extra (ReflTransGen plain)) a c := by
  cases h with
  | single hedge =>
    obtain ⟨d, hextra, hrest⟩ := hedge
    exact .single ⟨d, hextra, hrest.trans hplain⟩
  | tail hpath hedge =>
    obtain ⟨d, hextra, hrest⟩ := hedge
    exact .tail hpath ⟨d, hextra, hrest.trans hplain⟩

/-- A path along both kinds of edges is plain, or becomes one of extra edges, each followed by plain
ones, after some plain edges. -/
theorem transGen_or_cases {a b : α} (h : TransGen (fun x y => plain x y ∨ extra x y) a b) :
    TransGen plain a b ∨
      ∃ c, ReflTransGen plain a c ∧ TransGen (Comp extra (ReflTransGen plain)) c b := by
  -- a plain edge at the end is taken into the last turn, an extra one begins a new turn
  induction h with
  | single hedge =>
    rcases hedge with hplain | hextra
    · exact Or.inl (.single hplain)
    · exact Or.inr ⟨a, .refl, .single ⟨_, hextra, .refl⟩⟩
  | tail _ hedge ih =>
    rcases hedge with hplain | hextra
    · rcases ih with hpath | ⟨c, hstart, hpath⟩
      · exact Or.inl (hpath.tail hplain)
      · exact Or.inr ⟨c, hstart, transGen_comp_trans hpath (.single hplain)⟩
    · rcases ih with hpath | ⟨c, hstart, hpath⟩
      · exact Or.inr ⟨_, hpath.to_reflTransGen, .single ⟨_, hextra, .refl⟩⟩
      · exact Or.inr ⟨c, hstart, hpath.tail ⟨_, hextra, .refl⟩⟩

/-- **Where plain edges have no cycle**, a cycle along both kinds of edges is one of extra edges,
each followed by plain ones. -/
theorem acyclic_or_iff (hplain : ∀ a, ¬ TransGen plain a a) :
    (∀ a, ¬ TransGen (fun x y => plain x y ∨ extra x y) a a) ↔
      ∀ a, ¬ TransGen (Comp extra (ReflTransGen plain)) a a := by
  constructor
  · intro h a hcycle
    refine h a (TransGen.closed ?_ a a hcycle)
    rintro x y ⟨z, hextra, hrest⟩
    exact .head' (Or.inr hextra) (ReflTransGen.mono (fun _ _ hstep => Or.inl hstep) _ _ hrest)
  · intro h a hcycle
    rcases transGen_or_cases hcycle with hpath | ⟨c, hstart, hpath⟩
    · exact hplain a hpath
    -- the plain edges before the first turn are those after the last one
    · exact h c (transGen_comp_trans hpath hstart)

end

/-! ## Loans of fragments -/

namespace Expansion

variable (expansion : Expansion)

/-- A marker in a fragment of the first name is served with the fragment of the second name, which
is the first unmarked one of the document that covers what the marker requests. -/
def Lends (document : Document) (name lent : String) : Prop :=
  ∃ fragment ∈ document.fragments, fragment.name = name ∧
    ∃ request ∈ expansion.requestsIn (some fragment.condition) fragment.selections,
      ∃ supplied, (expansion.supplyOf document).authored.find?
        (·.covers request.1 request.2) = some supplied ∧ supplied.name = lent

/-- A fragment that is lent to a marker is among the names that answer it. -/
theorem mem_answers_of_find? {document : Document} {before requests after : List (String × Usage)}
    (h : expansion.requests document = before ++ requests ++ after) {request : String × Usage}
    (hrequest : request ∈ requests) {supplied : SuppliedFragment}
    (hfind : (expansion.supplyOf document).authored.find? (·.covers request.1 request.2) =
      some supplied) :
    supplied.name ∈
      (((expansion.supplyOf document).requestAll before).2.requestAll requests).1 := by
  obtain ⟨name, hname, hserves⟩ := expansion.exists_answer_of_request h hrequest
  rw [← authored_supplyAfter] at hfind
  rw [hserves.name_eq hfind]; exact hname

/-- A marker in the definition is served with the fragment of this name. -/
def LendsTo (document : Document) (definition : Definition) (lent : String) : Prop :=
  ∃ request ∈ expansion.definitionRequests definition,
    ∃ supplied, (expansion.supplyOf document).authored.find?
      (·.covers request.1 request.2) = some supplied ∧ supplied.name = lent

section

variable {document : Document} {definition : Definition} {before after : List (String × Usage)}
  {spread : String}

/-- An expanded definition spreads what it spread before, and what is lent to it. -/
theorem mem_spreadsOf_expandDefinition
    (h : expansion.requests document =
      before ++ expansion.definitionRequests definition ++ after)
    (hspread : spread ∈ spreadsOf definition.selections ∨
      expansion.LendsTo document definition spread) :
    spread ∈ spreadsOf (expansion.expandDefinition ((expansion.supplyOf document).requestAll before).2
      definition).1.selections := by
  rw [selections_expandDefinition, mem_spreadsOf_expandSelections]
  rcases hspread with hbefore | ⟨request, hrequest, supplied, hfind, rfl⟩
  · exact Or.inl hbefore
  · exact Or.inr (expansion.mem_answers_of_find? h hrequest hfind)

/-- It spreads nothing else, except for what was generated. -/
theorem spreadsOf_expandDefinition_cases
    (h : expansion.requests document =
      before ++ expansion.definitionRequests definition ++ after)
    (hspread : spread ∈ spreadsOf
      (expansion.expandDefinition ((expansion.supplyOf document).requestAll before).2
        definition).1.selections) :
    spread ∈ spreadsOf definition.selections ∨ expansion.LendsTo document definition spread ∨
      spread ∈ (expansion.supplyAfter document).generated.map SuppliedFragment.name := by
  rw [selections_expandDefinition, mem_spreadsOf_expandSelections] at hspread
  rcases hspread with hbefore | hanswer
  · exact Or.inl hbefore
  · right
    obtain ⟨request, hrequest, hserves⟩ := expansion.exists_request_of_answer h hanswer
    rcases hserves.cases with ⟨supplied, hfind, hlent⟩ | hgenerated
    · rw [authored_supplyAfter] at hfind
      exact Or.inl ⟨request, hrequest, supplied, hfind, hlent⟩
    · exact Or.inr (List.mem_map_of_mem hgenerated)

end

/-- What was spread before is spread after expansion, and so is what is lent. -/
theorem spreads_expand_of_spreads_or_lends {document : Document}
    (h : expansion.isMarked document = true) {name spread : String}
    (hspread : document.Spreads name spread ∨ expansion.Lends document name spread) :
    (expansion.expand document).Spreads name spread := by
  obtain ⟨fragment, hfragment, rfl, hown⟩ : ∃ fragment ∈ document.fragments, fragment.name = name ∧
      (spread ∈ spreadsOf fragment.selections ∨
        expansion.LendsTo document (.fragment fragment) spread) := by
    rcases hspread with ⟨fragment, hfragment, hname, hspread⟩ | ⟨fragment, hfragment, hname, hlends⟩
    · exact ⟨fragment, hfragment, hname, Or.inl hspread⟩
    · exact ⟨fragment, hfragment, hname, Or.inr hlends⟩
  obtain ⟨before, after, hrequests, hmem⟩ := expansion.mem_fragments_expand h hfragment
  have hexpanded := @mem_spreadsOf_expandDefinition expansion document (.fragment fragment) before
    after spread hrequests hown
  exact ⟨_, hmem, rfl, hexpanded⟩

/-- What is spread after expansion was spread before, or is lent, or was generated. -/
theorem spreads_cases_of_expand {document : Document} (h : expansion.isMarked document = true)
    {name spread : String} (hspread : (expansion.expand document).Spreads name spread) :
    document.Spreads name spread ∨ expansion.Lends document name spread ∨
      spread ∈ (expansion.supplyAfter document).generated.map SuppliedFragment.name := by
  obtain ⟨expanded, hexpanded, rfl, hspread⟩ := hspread
  rw [fragments_expand expansion h] at hexpanded
  rcases List.mem_append.1 hexpanded with hold | hnew
  · obtain ⟨definition, hdefinition, hfragment⟩ := List.mem_filterMap.1 hold
    obtain ⟨original, horiginal, before, after, hrequests, rfl⟩ :=
      expansion.exists_of_mem_expandedDefinitions hdefinition
    cases original with
    | operation operation => simp [expandDefinition, Definition.fragment?] at hfragment
    | fragment fragment =>
      rw [expandDefinition, Definition.fragment?, Option.some.injEq] at hfragment
      subst hfragment
      have hmem := Document.mem_fragments.2 horiginal
      rcases expansion.spreadsOf_expandDefinition_cases hrequests hspread with
        hbefore | hlends | hgenerated
      · exact Or.inl ⟨fragment, hmem, rfl, hbefore⟩
      · exact Or.inr (Or.inl ⟨fragment, hmem, rfl, hlends⟩)
      · exact Or.inr (Or.inr hgenerated)
  · -- a generated fragment spreads nothing
    obtain ⟨supplied, -, rfl⟩ := List.mem_map.1 hnew
    exact absurd hspread (supplied.usage.not_mem_spreadsOf_toFragment _ _ _)

/-- Generated fragments spread nothing. -/
theorem not_spreads_of_generated {document : Document} (h : expansion.isMarked document = true)
    {name : String}
    (hname : name ∈ (expansion.supplyAfter document).generated.map SuppliedFragment.name)
    (spread : String) : ¬ (expansion.expand document).Spreads name spread := by
  rintro ⟨expanded, hexpanded, rfl, hspread⟩
  rw [fragments_expand expansion h] at hexpanded
  rcases List.mem_append.1 hexpanded with hold | hnew
  · -- an authored fragment has a name of the document, which no generated one has
    have hauthored : expanded.name ∈ document.fragmentNames := by
      have hnames := expansion.names_expandDefinitions (expansion.supplyOf document)
        document.definitions
      unfold Document.fragmentNames Document.fragments
      rw [← hnames]
      exact List.mem_map_of_mem hold
    obtain ⟨supplied, hsupplied, hsame⟩ := List.mem_map.1 hname
    rw [← hsame] at hauthored
    exact (expansion.wellNamed_supplyAfter document).generated_not_reserved supplied hsupplied
      hauthored
  · obtain ⟨supplied, -, rfl⟩ := List.mem_map.1 hnew
    exact absurd hspread (supplied.usage.not_mem_spreadsOf_toFragment _ _ _)

/-- A path of spreads after expansion goes along spreads and loans of the document, unless it ends
in a generated fragment. -/
theorem transGen_of_transGen_expand {document : Document}
    (h : expansion.isMarked document = true) {first last : String}
    (hlast : last ∉ (expansion.supplyAfter document).generated.map SuppliedFragment.name)
    (hpath : TransGen (expansion.expand document).Spreads first last) :
    TransGen (fun name next => document.Spreads name next ∨ expansion.Lends document name next)
      first last := by
  induction hpath using TransGen.head_induction_on with
  | single hstep =>
    rcases expansion.spreads_cases_of_expand h hstep with hspread | hlend | hgenerated
    · exact .single (Or.inl hspread)
    · exact .single (Or.inr hlend)
    · exact absurd hgenerated hlast
  | head hstep hrest ih =>
    rcases expansion.spreads_cases_of_expand h hstep with hspread | hlend | hgenerated
    · exact .head (Or.inl hspread) ih
    · exact .head (Or.inr hlend) ih
    · obtain ⟨next, hnext, -⟩ := TransGen.head'_iff.1 hrest
      exact absurd hnext (expansion.not_spreads_of_generated h hgenerated next)

/-- Cycles after expansion are the cycles of spreads and loans of the document. -/
theorem acyclic_expand_iff_or (document : Document) :
    (expansion.expand document).Acyclic ↔
      ∀ name, ¬ TransGen (fun name next =>
        document.Spreads name next ∨ expansion.Lends document name next) name name := by
  cases h : expansion.isMarked document with
  | false =>
    -- without a marker nothing is requested, and so nothing is lent
    have hnone : ∀ name lent, ¬ expansion.Lends document name lent := by
      rintro name lent ⟨fragment, hfragment, -, request, hrequest, -⟩
      rw [isMarked_eq_false_iff] at h
      have hunmarked : expansion.anyMarks fragment.selections = false :=
        h _ (Document.mem_fragments.1 hfragment)
      rw [expansion.requestsIn_of_anyMarks_eq_false hunmarked] at hrequest
      simp at hrequest
    rw [expand_of_isMarked_eq_false expansion h]
    simp only [hnone, or_false]
    rfl
  | true =>
    constructor
    · intro hacyclic name hcycle
      refine hacyclic name (TransGen.mono ?_ _ _ hcycle)
      exact fun _ _ hstep => expansion.spreads_expand_of_spreads_or_lends h hstep
    · -- a cycle does not pass through generated fragments, which spread nothing
      intro hacyclic name hcycle
      refine hacyclic name (expansion.transGen_of_transGen_expand h ?_ hcycle)
      intro hgenerated
      obtain ⟨next, hnext, -⟩ := TransGen.head'_iff.1 hcycle
      exact expansion.not_spreads_of_generated h hgenerated next hnext

/-- **When no cycle arises.** If the spreads of a document have no cycle, those of the expanded
document have none just if no fragment comes back to itself by turns of two kinds: from a fragment
with a marker to the one that is lent to it, and on from there along spreads of the document. -/
theorem acyclic_expand_iff {document : Document} (hacyclic : document.Acyclic) :
    (expansion.expand document).Acyclic ↔
      ∀ name, ¬ TransGen (Comp (expansion.Lends document) (ReflTransGen document.Spreads))
        name name := by
  rw [acyclic_expand_iff_or]
  exact acyclic_or_iff hacyclic

/-- Of the todos of this schema, only `id` was ever selected. -/
def loopExpansion : Expansion where
  options := {}
  schema := ⟨"Query", some "Mutation", none,
    [⟨"Todo", .object, [("id", "ID"), ("next", "Todo")], []⟩,
      ⟨"Mutation", .object, [("addTodo", "Todo")], []⟩]⟩
  table := ⟨[("Todo", .mk [.leaf "id"] [])]⟩

/-- The fragment `Whole` spreads `Linked`, in which a marker stands. -/
def loopDocument : Document :=
  ⟨[.operation ⟨some ⟨.mutation, none, [], []⟩,
      [.field none "addTodo" [] [] [.spread "Whole" []]]⟩,
    .fragment ⟨"Whole", "Todo", [], [.field none "id" [] [] [], .spread "Linked" []]⟩,
    .fragment ⟨"Linked", "Todo", [], [.field none "next" [] [⟨"populate", []⟩] []]⟩]⟩

/-- **A document in which a cycle arises**: the marker in `Linked` is served with `Whole`, which
spreads `Linked`. -/
theorem acyclic_expand_iff_loop :
    loopDocument.Acyclic ∧ ¬ (loopExpansion.expand loopDocument).Acyclic := by
  have hacyclic : loopDocument.Acyclic :=
    Document.acyclic_of_rank (fun name => if name = "Whole" then 1 else 0) (by decide)
  refine ⟨hacyclic, ?_⟩
  rw [acyclic_expand_iff loopExpansion hacyclic]
  intro h
  have hserved : ((loopExpansion.supplyOf loopDocument).authored.find?
      (·.covers "Todo" (.mk [.leaf "id"] []))).map SuppliedFragment.name = some "Whole" := by
    decide +kernel
  obtain ⟨supplied, hfind, hname⟩ := Option.map_eq_some_iff.1 hserved
  have hlends : loopExpansion.Lends loopDocument "Linked" "Whole" :=
    ⟨_, List.mem_cons_of_mem _ List.mem_cons_self, rfl, ("Todo", .mk [.leaf "id"] []),
      List.mem_cons_self, supplied, hfind, hname⟩
  have hspreads : loopDocument.Spreads "Whole" "Linked" :=
    ⟨_, List.mem_cons_self, rfl, List.mem_cons_self⟩
  exact h "Linked" (.single ⟨"Whole", hlends, .single hspreads⟩)

end Expansion

end SelectionRecall
