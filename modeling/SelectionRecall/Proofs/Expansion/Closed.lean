import SelectionRecall.Proofs.Expansion.Outcome

/-!
# Expanded documents are closed and minimal

In a document that defines what it spreads, under distinct names, expansion keeps it so: whatever
answers a request is a fragment of the document or one that is added to it, and nothing is added
that does not answer a request.

* `Expansion.mem_fragmentNames_of_answered`: what answers a request is defined after expansion.
* `Expansion.closed_expand`: expansion keeps documents closed.
* `Expansion.spread_of_generated`: what is added is spread.
* `Expansion.closed_and_minimal_expand`: all of it, of one document.
* `Expansion.closed_and_minimal_expand_item`: a document in which names clash.
-/

namespace SelectionRecall

namespace Expansion

open Selection

variable (expansion : Expansion)

/-- A name that answers a request is one of the document, or that of a generated fragment. -/
theorem mem_fragmentNames_of_answered {document : Document} {name : String}
    (h : name ∈ ((expansion.supplyOf document).requestAll (expansion.requests document)).1) :
    name ∈ document.fragmentNames ∨
      name ∈ (expansion.supplyAfter document).generated.map SuppliedFragment.name := by
  obtain ⟨request, -, hserves⟩ := exists_mem_of_forall₂ (expansion.supplyAfter_serves document) h
  rcases serves_cases hserves with ⟨fragment, hfragment, hname, -⟩ | hgenerated
  · left
    rw [← hname]
    exact List.mem_map_of_mem hfragment
  · right
    exact List.mem_map_of_mem hgenerated

/-- **Expansion keeps documents closed.** -/
theorem closed_expand {document : Document} (hclosed : document.Closed) :
    (expansion.expand document).Closed := by
  cases h : expansion.isMarked document with
  | false => rw [expand_of_isMarked_eq_false expansion h]; exact hclosed
  | true =>
    intro definition hdefinition name hname
    rw [fragmentNames_expand expansion h, List.mem_append]
    rw [expand_eq expansion h] at hdefinition
    rcases List.mem_append.1 hdefinition with hold | hnew
    · have hspread := (expansion.mem_spreadsOf_expandDefinitions (expansion.supplyOf document)
        document.definitions name).1 ⟨definition, hold, hname⟩
      rcases hspread with ⟨original, horiginal, hspread⟩ | hanswered
      · exact Or.inl (hclosed original horiginal name hspread)
      · exact expansion.mem_fragmentNames_of_answered hanswered
    · -- a generated fragment spreads nothing
      obtain ⟨fragment, -, rfl⟩ := List.mem_map.1 hnew
      exact absurd hname (fragment.usage.not_mem_spreadsOf_toFragment _ _ name)

/-- **Nothing is added in vain**: a generated fragment is spread by a definition that was there
before. -/
theorem spread_of_generated {document : Document} {fragment : SuppliedFragment}
    (h : fragment ∈ (expansion.supplyAfter document).generated) :
    ∃ definition ∈ expansion.expandedDefinitions document,
      fragment.name ∈ spreadsOf definition.selections := by
  have hanswered := (expansion.supplyOf document).answered_of_generated
    (expansion.requests document) fragment h
  rw [generated_supplyOf] at hanswered
  have hanswer := hanswered.resolve_left List.not_mem_nil
  exact (expansion.mem_spreadsOf_expandDefinitions (expansion.supplyOf document)
    document.definitions fragment.name).2 (Or.inr hanswer)

/-- **Expanded documents are closed and minimal.** If the fragment names of a document are distinct
and it defines all that it spreads, then so it is after expansion, and each definition that was
added is a fragment under a new name that is spread by a definition that was there before. -/
theorem closed_and_minimal_expand {document : Document} (hnames : document.fragmentNames.Nodup)
    (hclosed : document.Closed) :
    (expansion.expand document).fragmentNames.Nodup ∧ (expansion.expand document).Closed ∧
      ∀ added ∈ (expansion.expand document).definitions.drop document.definitions.length,
        ∃ fragment, added = .fragment fragment ∧ fragment.name ∉ document.fragmentNames ∧
          ∃ definition ∈ (expansion.expand document).definitions.take document.definitions.length,
            fragment.name ∈ spreadsOf definition.selections := by
  refine ⟨expansion.nodup_fragmentNames_expand hnames, expansion.closed_expand hclosed, ?_⟩
  intro added hadded
  cases h : expansion.isMarked document with
  | false =>
    rw [expand_of_isMarked_eq_false expansion h, List.drop_length] at hadded
    simp at hadded
  | true =>
    rw [drop_expand expansion h] at hadded
    rw [take_expand expansion h]
    obtain ⟨supplied, hsupplied, rfl⟩ := List.mem_map.1 hadded
    have hnamed := expansion.wellNamed_supplyAfter document
    have hnew := hnamed.generated_not_reserved supplied hsupplied
    exact ⟨_, rfl, hnew, expansion.spread_of_generated hsupplied⟩

/-- Generated fragments are named just like their types in this expansion. -/
def itemExpansion : Expansion where
  options := ⟨"populate", ""⟩
  schema := ⟨"Query", none, none,
    [⟨"Query", .object, [("item", "Item"), ("other", "Item2")], []⟩]⟩
  table := ⟨[("Item", .mk [.leaf "id"] []), ("Item2", .mk [.leaf "id"] [])]⟩

/-- A fragment that takes the name of a type, so that the first marker is left with that of the
next type. -/
def itemDocument : Document :=
  ⟨[.operation ⟨none,
      [.field none "item" [] [⟨"populate", []⟩] [.spread "Item" []],
        .field none "other" [] [⟨"populate", []⟩] []]⟩,
    .fragment ⟨"Item", "Item", [], [.field none "name" [] [] []]⟩]⟩

/-- **A name that is asked for twice**: the fragment for the first marker takes the name of the type at the
second one, whose fragment is left with the next name. Both are added behind what was there, and spread
from the operation. -/
theorem closed_and_minimal_expand_item :
    (itemDocument.fragmentNames.Nodup ∧ itemDocument.Closed) ∧
      ((itemExpansion.expand itemDocument).fragmentNames.Nodup ∧
        (itemExpansion.expand itemDocument).Closed) ∧
      (itemExpansion.expand itemDocument).definitions.drop 2 =
        [.fragment ⟨"Item2", "Item", [], [.field none "id" [] [] []]⟩,
          .fragment ⟨"Item22", "Item2", [], [.field none "id" [] [] []]⟩] ∧
      ∀ name ∈ ["Item2", "Item22"], name ∉ itemDocument.fragmentNames ∧
        ∃ definition ∈ (itemExpansion.expand itemDocument).definitions.take 2,
          name ∈ spreadsOf definition.selections := by
  have hnames : itemDocument.fragmentNames.Nodup := by decide
  have hclosed : itemDocument.Closed := by decide
  obtain ⟨hdistinct, hdefined, hneeded⟩ := closed_and_minimal_expand itemExpansion hnames hclosed
  have hadded : (itemExpansion.expand itemDocument).definitions.drop 2 =
      [.fragment ⟨"Item2", "Item", [], [.field none "id" [] [] []]⟩,
        .fragment ⟨"Item22", "Item2", [], [.field none "id" [] [] []]⟩] := by
    rfl
  refine ⟨⟨hnames, hclosed⟩, ⟨hdistinct, hdefined⟩, hadded, ?_⟩
  have hspread : ∀ fragment : FragmentDefinition,
      .fragment fragment ∈ (itemExpansion.expand itemDocument).definitions.drop 2 →
      fragment.name ∉ itemDocument.fragmentNames ∧
        ∃ definition ∈ (itemExpansion.expand itemDocument).definitions.take 2,
          fragment.name ∈ spreadsOf definition.selections := by
    intro fragment hfragment
    obtain ⟨_, hsame, hnew, hused⟩ := hneeded _ hfragment
    cases hsame
    exact ⟨hnew, hused⟩
  rw [hadded] at hspread
  simp only [List.mem_cons, List.not_mem_nil, or_false, forall_eq_or_imp, forall_eq]
  exact ⟨hspread ⟨"Item2", "Item", [], _⟩ (.head _),
    hspread ⟨"Item22", "Item2", [], _⟩ (.tail _ (.head _))⟩

end Expansion

end SelectionRecall
