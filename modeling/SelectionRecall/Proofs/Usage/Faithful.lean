import SelectionRecall.Proofs.Document.Nodes
import SelectionRecall.Proofs.Usage.Meaning

/-!
# Reading is faithful

What is read in selections asks for just what the selections ask for, of all objects that a value of
the enclosing type may be. Three things need care: a fragment on an interface is read into its
implementers, which are objects and stand for themselves alone; what leaves nothing behind is dropped
with all around it; and spreads are read to a limited depth only, which is never reached where they
have no cycle.

Types may disagree on what a field returns, and then a usage does not tell through which of them the
field was selected. So beneath a field, selections and usages are compared on the objects that all types
with the field let it return. Where implementers keep what their abstract types promise, these are
all objects that the field may return.

* `Usage.Mirrors`: the usage asks for what the selections ask for.
* `Usage.Mirrors.merge`, `Observed.mirrors_field`, `Observed.mirrors_fragment`: what is put together
  from usages that do.
* `Document.Nested`: fragments that are read inside each other.
* `Schema.mirrors_observe`: reading is faithful.
* `Schema.asks_observe_iff`: what is asked for, on any way through the objects.
* `Schema.asks_observe_iff_next`: a fragment on an interface, read inside an implementer.
* `Schema.not_asks_observe_iff_link`: a schema whose types disagree.
-/

namespace SelectionRecall

open Relation Selection

/-! ## Usages that mirror selections -/

/-- The usage stands for the selections inside the type: it is empty just if nothing of them survives,
and asks for the same, on each way on which all types agree. -/
structure Usage.Mirrors (schema : Schema) (document : Document) (typeName : String) (usage : Usage)
    (selections : List Selection) : Prop where
  isEmpty_eq_false_iff : usage.isEmpty = false ↔
    ∃ selection ∈ selections, selection.Survives schema document typeName
  asks_iff : ∀ asked path, schema.MayBe typeName asked.object →
    (asked :: path).IsChain schema.AllReturn →
    (usage.Asks schema (asked :: path) ↔
      ∃ selection ∈ selections, selection.Asks schema document typeName (asked :: path))

variable {schema : Schema} {document : Document} {typeName : String}

namespace Usage

/-- The empty usage mirrors no selections. -/
theorem mirrors_nil : Usage.empty.Mirrors schema document typeName [] where
  isEmpty_eq_false_iff := by simp
  asks_iff asked path _ _ := by simp [not_asks_empty]

/-- It also mirrors a selection of which nothing survives. -/
theorem mirrors_empty {selection : Selection}
    (h : ¬ selection.Survives schema document typeName) :
    Usage.empty.Mirrors schema document typeName [selection] where
  isEmpty_eq_false_iff := by simpa using h
  asks_iff asked path _ _ := by
    have hasks : ¬ selection.Asks schema document typeName (asked :: path) :=
      fun hasks => h hasks.survives
    simpa [not_asks_empty] using hasks

/-- **A union mirrors** the selections of both usages. -/
theorem Mirrors.merge {old new : Usage} {before after : List Selection}
    (hold : old.Mirrors schema document typeName before)
    (hnew : new.Mirrors schema document typeName after) :
    (old.merge new).Mirrors schema document typeName (before ++ after) where
  isEmpty_eq_false_iff := by
    rw [isEmpty_merge, hold.isEmpty_eq_false_iff, hnew.isEmpty_eq_false_iff]
    simp only [List.mem_append, or_and_right, exists_or]
  asks_iff asked path hobject hpath := by
    rw [asks_merge, hold.asks_iff asked path hobject hpath, hnew.asks_iff asked path hobject hpath]
    simp only [List.mem_append, or_and_right, exists_or]

end Usage

namespace Observed

/-- What is read in a leaf mirrors it. -/
theorem mirrors_leaf {returned name : String} {alias? : Option String} {arguments : Arguments}
    {directives : List Directive} (hfield : schema.fieldType? typeName name = some returned) :
    (Usage.ofField ((FieldUse.leaf name).withArguments arguments)).Mirrors schema document typeName
      [.field alias? name arguments directives []] where
  isEmpty_eq_false_iff := by
    have hsurvives : (Selection.field alias? name arguments directives []).Survives schema document
        typeName := .leaf hfield
    simpa using hsurvives
  asks_iff asked path _ _ := by
    rw [Usage.asks_ofField_iff, FieldUse.asks_withArguments, FieldUse.asks_leaf_iff]
    simp [asks_field_iff, hfield, eq_comm]

/-- **What is read in a field mirrors it**, if what is read beneath the field mirrors the selections
there. -/
theorem mirrors_field {returned name : String} {nested : Observed} {alias? : Option String}
    {arguments : Arguments} {directives : List Directive} {selections : List Selection}
    (hfield : schema.fieldType? typeName name = some returned) (hcomposite : selections ≠ [])
    (hnested : nested.usage.Mirrors schema document returned selections) :
    (Observed.field returned name arguments nested).usage.Mirrors schema document typeName
      [.field alias? name arguments directives selections] := by
  have hsurvives : (Selection.field alias? name arguments directives selections).Survives schema
      document typeName ↔ nested.usage.isEmpty = false := by
    rw [survives_field_iff, hnested.isEmpty_eq_false_iff]
    simp [hfield, hcomposite]
  unfold Observed.field
  cases hempty : nested.usage.isEmpty with
  | true =>
    rw [if_pos rfl]
    exact Usage.mirrors_empty (by rw [hsurvives, hempty]; simp)
  | false =>
    rw [if_neg (by simp)]
    constructor
    · simpa using hsurvives.2 hempty
    · intro asked path hobject hpath
      rw [Usage.asks_ofField_iff, FieldUse.asks_withArguments, FieldUse.asks_nested_iff]
      simp only [List.mem_singleton, exists_eq_left, asks_field_iff, hfield, Option.some.injEq,
        exists_eq_left', eq_comm (a := name)]
      refine and_congr_right fun hname => ?_
      cases path with
      | nil =>
        have hleft := hnested.isEmpty_eq_false_iff.1 hempty
        simp [hleft]
      | cons next rest =>
        -- the enclosing type is one of those that agree on the next object
        obtain ⟨hnext, hrest⟩ := List.isChain_cons_cons.1 hpath
        have hreturned : schema.MayBe returned next.object :=
          hnext typeName returned hobject (by rw [hname]; exact hfield)
        simpa using hnested.asks_iff next rest hreturned hrest

/-- **What is read in a fragment mirrors it**, if what is read in its selections mirrors these inside
its own type. -/
theorem mirrors_fragment (hschema : schema.WellFormed) (hobjects : schema.ListsObjects)
    {condition : String} {inner : Observed} {selection : Selection} {selections : List Selection}
    (hsurvives : selection.Survives schema document typeName ↔
      ∃ selection ∈ selections, selection.Survives schema document condition)
    (hasks : ∀ asked path, selection.Asks schema document typeName (asked :: path) ↔
      schema.MayBe condition asked.object ∧
        ∃ selection ∈ selections, selection.Asks schema document condition (asked :: path))
    (hinner : inner.usage.Mirrors schema document condition selections) :
    (Observed.fragment schema typeName condition inner).usage.Mirrors schema document typeName
      [selection] := by
  rw [← hinner.isEmpty_eq_false_iff] at hsurvives
  unfold Observed.fragment
  cases hempty : inner.usage.isEmpty with
  | true =>
    rw [if_pos rfl]
    exact Usage.mirrors_empty (by rw [hsurvives, hempty]; simp)
  | false =>
    rw [if_neg (by simp)]
    -- a usage that is taken over as it is must apply to all objects that the enclosing type stands for
    have htaken : (∀ object, schema.MayBe typeName object → schema.MayBe condition object) →
        inner.usage.Mirrors schema document typeName [selection] := by
      intro happlies
      constructor
      · simpa [hempty] using hsurvives.2 hempty
      · intro asked path hobject hpath
        have hobject := happlies asked.object hobject
        rw [hinner.asks_iff asked path hobject hpath]
        simp [hasks, hobject]
    split
    · rename_i heq
      exact htaken (by rw [heq]; exact fun _ h => h)
    · split
      · rename_i himplements
        -- the enclosing type is an object, which the abstract type lists
        refine htaken ?_
        intro object hobject
        rw [Schema.eq_of_mayBe_implementer hschema hobjects himplements hobject]
        exact Or.inr himplements
      · constructor
        · simpa using hsurvives.2 hempty
        · intro asked path _ hpath
          rw [Usage.asks_ofPart_iff]
          simp only [List.mem_singleton, exists_eq_left, hasks]
          constructor
          · rintro ⟨hobject, h⟩
            exact ⟨hobject, (hinner.asks_iff asked path hobject hpath).1 h⟩
          · rintro ⟨hobject, h⟩
            exact ⟨hobject, (hinner.asks_iff asked path hobject hpath).2 h⟩

end Observed

/-! ## Fragments that are read inside each other -/

/-- These fragments are being read, each inside the one behind it, when a spread of the name is met
in the first one. -/
structure Document.Nested (document : Document) (reading : List String) (name : String) : Prop where
  nodup : reading.Nodup
  defined : reading ⊆ document.fragmentNames
  reaches : ∀ outer ∈ reading, TransGen document.Spreads outer name

namespace Document.Nested

variable {reading : List String} {name : String}

/-- Where spreads have no cycle, a fragment is not met inside itself. -/
theorem not_mem (h : document.Nested reading name) (hacyclic : document.Acyclic) :
    name ∉ reading :=
  fun hmem => hacyclic name (h.reaches name hmem)

/-- With a fragment that is met, at most all fragments are being read. -/
theorem length_lt (h : document.Nested reading name) (hacyclic : document.Acyclic)
    {fragment : FragmentDefinition} (hfragment : document.fragment? name = some fragment) :
    reading.length < document.fragments.length :=
  Document.length_lt_of_fragment? h.nodup h.defined hfragment (h.not_mem hacyclic)

/-- The spreads in a fragment that is met are met inside it. -/
theorem cons (h : document.Nested reading name) (hacyclic : document.Acyclic)
    {fragment : FragmentDefinition} (hfragment : document.fragment? name = some fragment)
    {inner : String} (hinner : inner ∈ spreadsOf fragment.selections) :
    document.Nested (name :: reading) inner := by
  obtain ⟨hmem, hname⟩ := Document.mem_of_fragment? hfragment
  have hstep : document.Spreads name inner := ⟨fragment, hmem, hname, hinner⟩
  refine ⟨List.nodup_cons.2 ⟨h.not_mem hacyclic, h.nodup⟩, ?_, ?_⟩
  · rw [← hname]
    exact List.cons_subset.2 ⟨List.mem_map_of_mem hmem, h.defined⟩
  · intro outer houter
    rcases List.mem_cons.1 houter with rfl | houter
    · exact .single hstep
    · exact (h.reaches outer houter).tail hstep

end Document.Nested

/-! ## Reading is faithful -/

namespace Schema

/-- What the reader makes of a spread of this name mirrors it, inside every type. -/
def SpreadMirrored (schema : Schema) (document : Document) (spread : SpreadReader) (name : String) :
    Prop :=
  ∀ typeName directives,
    (spread typeName name).usage.Mirrors schema document typeName [.spread name directives]

mutual

/-- What is read in a selection mirrors it, if what is read in its spreads does. -/
theorem mirrors_observeSelection (hschema : schema.WellFormed) (hobjects : schema.ListsObjects)
    {spread : SpreadReader} (typeName : String) (selection : Selection)
    (hspread : ∀ name ∈ spreadsOf [selection], schema.SpreadMirrored document spread name) :
    (schema.observeSelection spread typeName selection).usage.Mirrors schema document typeName
      [selection] := by
  cases selection with
  | field alias? name arguments directives selections =>
    rw [Schema.observeSelection]
    rw [spreadsOf_field] at hspread
    cases hfield : schema.fieldType? typeName name with
    | none => exact Usage.mirrors_empty (by simp [survives_field_iff, hfield])
    | some returned =>
      dsimp only
      split
      · rename_i hleaf
        rw [List.isEmpty_iff.1 hleaf]
        exact Observed.mirrors_leaf hfield
      · rename_i hcomposite
        have hnested := mirrors_observeSelections hschema hobjects returned selections hspread
          Usage.mirrors_nil
        exact Observed.mirrors_field hfield (by simpa using hcomposite) hnested
  | inline condition? directives selections =>
    rw [Schema.observeSelection]
    rw [spreadsOf_inline] at hspread
    split
    · rename_i hknown
      have hinner := mirrors_observeSelections hschema hobjects (condition?.getD typeName) selections
        hspread Usage.mirrors_nil
      refine Observed.mirrors_fragment hschema hobjects ?_ ?_ hinner
      · rw [survives_inline_iff]; simp [hknown]
      · intro asked path
        rw [asks_inline_iff]; simp [hknown]
    · rename_i hunknown
      exact Usage.mirrors_empty (by simp [survives_inline_iff, hunknown])
  | spread name directives =>
    rw [Schema.observeSelection]
    exact hspread name (by simp) typeName directives

/-- What is read in selections and added to what mirrors others mirrors all of them. -/
theorem mirrors_observeSelections (hschema : schema.WellFormed) (hobjects : schema.ListsObjects)
    {spread : SpreadReader} (typeName : String) (selections : List Selection)
    (hspread : ∀ name ∈ spreadsOf selections, schema.SpreadMirrored document spread name)
    {usage : Usage} {before : List Selection}
    (husage : usage.Mirrors schema document typeName before) :
    (schema.observeSelections spread typeName usage selections).usage.Mirrors schema document typeName
      (before ++ selections) := by
  cases selections with
  | nil =>
    rw [Schema.observeSelections, List.append_nil]
    exact husage
  | cons selection rest =>
    rw [spreadsOf_cons] at hspread
    have hfirst := mirrors_observeSelection hschema hobjects typeName selection
      fun name hname => hspread name (List.mem_append_left _ hname)
    have hrest := mirrors_observeSelections hschema hobjects typeName rest
      (fun name hname => hspread name (List.mem_append_right _ hname)) (husage.merge hfirst)
    rw [Schema.observeSelections]
    rw [List.append_assoc] at hrest
    exact hrest

end

/-- What is read in a spread mirrors it, as long as the depth is not used up. -/
theorem mirrors_spreadReader (hschema : schema.WellFormed) (hobjects : schema.ListsObjects)
    (hacyclic : document.Acyclic) {depth : Nat} {reading : List String} {name : String}
    (hnested : document.Nested reading name)
    (hdepth : document.fragments.length ≤ depth + reading.length) :
    schema.SpreadMirrored document (schema.spreadReader document.fragment? depth reading) name := by
  intro typeName directives
  induction depth generalizing reading name typeName directives with
  | zero =>
    -- all fragments are being read already, so that the name is none of theirs
    have hundefined : document.fragment? name = none := by
      cases hfragment : document.fragment? name with
      | none => rfl
      | some fragment =>
        have hlength := hnested.length_lt hacyclic hfragment
        omega
    exact Usage.mirrors_empty (by simp [survives_spread_iff, hundefined])
  | succ depth ih =>
    rw [Schema.spreadReader]
    cases hfragment : document.fragment? name with
    | none => exact Usage.mirrors_empty (by simp [survives_spread_iff, hfragment])
    | some fragment =>
      dsimp only
      rw [if_neg (hnested.not_mem hacyclic)]
      split
      · rename_i hknown
        -- one level deeper, one more fragment is being read
        have hspread : ∀ inner ∈ spreadsOf fragment.selections, schema.SpreadMirrored document
            (schema.spreadReader document.fragment? depth (name :: reading)) inner := by
          intro inner hinner typeName directives
          have hdepth : document.fragments.length ≤ depth + (name :: reading).length := by
            rw [List.length_cons]; omega
          exact ih (hnested.cons hacyclic hfragment hinner) hdepth typeName directives
        have hinner := mirrors_observeSelections hschema hobjects fragment.condition
          fragment.selections hspread Usage.mirrors_nil
        refine Observed.mirrors_fragment hschema hobjects ?_ ?_ hinner
        · rw [survives_spread_iff]; simp [hfragment, hknown]
        · intro asked path
          rw [asks_spread_iff]; simp [hfragment, hknown]
      · rename_i hunknown
        exact Usage.mirrors_empty (by simp [survives_spread_iff, hfragment, hunknown])

/-- **Reading is faithful**: what is read in a selection set mirrors it. -/
theorem mirrors_observe (hschema : schema.WellFormed) (hobjects : schema.ListsObjects)
    (hacyclic : document.Acyclic) (typeName : String) (selections : List Selection) :
    (schema.observe document typeName selections).usage.Mirrors schema document typeName
      selections := by
  have hspread : ∀ name ∈ spreadsOf selections, schema.SpreadMirrored document
      (schema.spreadReader document.fragment? document.fragments.length []) name := by
    intro name _
    exact mirrors_spreadReader hschema hobjects hacyclic ⟨by simp, by simp, by simp⟩ (by simp)
  exact mirrors_observeSelections hschema hobjects typeName selections hspread Usage.mirrors_nil

/-- **Selections and what is read in them ask for the same** of every object that a value of the
enclosing type may be, and beneath each field of every object

* that all types with the field let it return;
* that it may return at all, if implementers have the fields of their abstract types and return the
  same type or an implementer of it. -/
theorem asks_observe_iff (hschema : schema.WellFormed) (hobjects : schema.ListsObjects)
    (hacyclic : document.Acyclic) (typeName : String) (selections : List Selection)
    (asked : ObjectField) (path : List ObjectField) (hobject : schema.MayBe typeName asked.object) :
    let usage := (schema.observe document typeName selections).usage
    ((asked :: path).IsChain schema.AllReturn →
      (usage.Asks schema (asked :: path) ↔
        ∃ selection ∈ selections, selection.Asks schema document typeName (asked :: path))) ∧
    (schema.Covariant → (asked :: path).IsChain schema.MayReturn →
      (usage.Asks schema (asked :: path) ↔
        ∃ selection ∈ selections, selection.Asks schema document typeName (asked :: path))) := by
  intro usage
  have hmirrors := mirrors_observe hschema hobjects hacyclic typeName selections
  constructor
  · intro hpath
    exact hmirrors.asks_iff asked path hobject hpath
  · intro hcovariant hpath
    have hagree : (asked :: path).IsChain schema.AllReturn :=
      hpath.imp fun _ _ hstep => allReturn_of_mayReturn hschema hobjects hcovariant hstep
    exact hmirrors.asks_iff asked path hobject hagree

/-- Items are nodes, and the next node of an item is an item. -/
def nextSchema : Schema :=
  ⟨"Query", none, none,
    [⟨"Query", .object, [("item", "Item")], []⟩,
      ⟨"Node", .interface, [("next", "Node")], ["Item", "User"]⟩,
      ⟨"Item", .object, [("next", "Item"), ("price", "Int")], []⟩,
      ⟨"User", .object, [("next", "Node")], []⟩, ⟨"Int", .scalar, [], []⟩]⟩

/-- A fragment on the interface that selects the price of the next node, if it is an item. -/
def nextDocument : Document :=
  ⟨[.fragment ⟨"Next", "Node", [],
    [.field none "next" [] [] [.inline (some "Item") [] [.field none "price" [] [] []]]]⟩]⟩

/-- **A fragment on an interface**, read inside an implementer: it asks for the price of the next
item. -/
theorem asks_observe_iff_next :
    let path : List ObjectField := [⟨"Item", "next"⟩, ⟨"Item", "price"⟩]
    (nextSchema.WellFormed ∧ nextSchema.ListsObjects ∧ nextSchema.Covariant) ∧
      nextDocument.Acyclic ∧ path.IsChain nextSchema.MayReturn ∧
        (nextSchema.observe nextDocument "Item" [.spread "Next" []]).usage.Asks nextSchema path := by
  intro path
  have hschema : nextSchema.WellFormed := by decide
  have hobjects : nextSchema.ListsObjects := by decide
  have hcovariant : nextSchema.Covariant := covariant_of_types (by decide)
  have hacyclic : nextDocument.Acyclic := Document.acyclic_of_rank (fun _ => 0) (by decide)
  have hpath : path.IsChain nextSchema.MayReturn :=
    List.isChain_cons_cons.2 ⟨⟨"Item", by decide, by decide⟩, .singleton _⟩
  refine ⟨⟨hschema, hobjects, hcovariant⟩, hacyclic, hpath, ?_⟩
  have hint : nextSchema.fieldType? "Item" "price" = some "Int" := by decide
  have hprice : (Selection.field none "price" [] [] []).Asks nextSchema nextDocument "Item"
      [⟨"Item", "price"⟩] := .field (.leaf hint)
  have hitem : (Selection.inline (some "Item") [] [.field none "price" [] [] []]).Asks nextSchema
      nextDocument "Node" [⟨"Item", "price"⟩] :=
    .inline (by decide) (by decide) List.mem_cons_self hprice
  have hnext : (Selection.spread "Next" []).Asks nextSchema nextDocument "Item" path :=
    .spread rfl (by decide) (by decide) List.mem_cons_self
      (.nested (by decide) List.mem_cons_self hitem)
  have hfaithful := asks_observe_iff hschema hobjects hacyclic "Item" [.spread "Next" []]
    ⟨"Item", "next"⟩ [⟨"Item", "price"⟩] (by decide)
  exact (hfaithful.2 hcovariant hpath).2 ⟨_, List.mem_cons_self, hnext⟩

/-- The link of an item is a photo, which does not keep what the interface says of links. -/
def linkSchema : Schema :=
  ⟨"Query", none, none,
    [⟨"Query", .object, [("item", "Item")], []⟩,
      ⟨"Node", .interface, [("link", "Page")], ["Item"]⟩,
      ⟨"Item", .object, [("link", "Photo")], []⟩, ⟨"Page", .object, [("id", "ID")], []⟩,
      ⟨"Photo", .object, [("id", "ID")], []⟩, ⟨"ID", .scalar, [], []⟩]⟩

/-- The link by way of the interface, of pages only. -/
def linkSelections : List Selection :=
  [.inline (some "Node") [] [.field none "link" [] []
    [.inline (some "Page") [] [.field none "id" [] [] []]]]]

/-- **Types that disagree.** On the interface all links are pages, so that a fragment on pages is read
as what it selects. Inside an item this asks for a field of photos that the selections do not ask
for. -/
theorem not_asks_observe_iff_link :
    let path : List ObjectField := [⟨"Item", "link"⟩, ⟨"Photo", "id"⟩]
    (linkSchema.WellFormed ∧ linkSchema.ListsObjects) ∧ (⟨[]⟩ : Document).Acyclic ∧
      path.IsChain linkSchema.MayReturn ∧
        (linkSchema.observe ⟨[]⟩ "Item" linkSelections).usage.Asks linkSchema path ∧
          ¬ ∃ selection ∈ linkSelections, selection.Asks linkSchema ⟨[]⟩ "Item" path := by
  intro path
  refine ⟨⟨by decide, by decide⟩, Document.acyclic_of_rank (fun _ => 0) (by decide), ?_, ?_, ?_⟩
  · exact List.isChain_cons_cons.2 ⟨⟨"Photo", by decide, by decide⟩, .singleton _⟩
  · have husage : (linkSchema.observe ⟨[]⟩ "Item" linkSelections).usage =
        .mk [.nested "link" (.mk [.leaf "id"] [])] [] := by with_unfolding_all rfl
    have hlink : FieldUse.nested "link" (.mk [.leaf "id"] []) ∈
        (Usage.mk [.nested "link" (.mk [.leaf "id"] [])] []).fields := List.mem_cons_self
    have hid : FieldUse.leaf "id" ∈ (Usage.mk [.leaf "id"] []).fields := List.mem_cons_self
    rw [husage]
    exact .nested hlink rfl (.field hid)
  · -- the fragment on pages is not applied to a photo
    have hpage : ¬ linkSchema.MayBe "Page" "Photo" := by decide
    rintro ⟨node, hnode, hasks⟩
    obtain rfl := List.mem_singleton.1 hnode
    obtain ⟨-, -, link, hlink, hasks⟩ := asks_inline_iff.1 hasks
    obtain rfl := List.mem_singleton.1 hlink
    obtain ⟨-, returned, -, ⟨hend, -⟩ | ⟨page, hmem, hasks⟩⟩ := asks_field_iff.1 hasks
    · simp at hend
    · obtain rfl := List.mem_singleton.1 hmem
      have hobject := (asks_inline_iff.1 hasks).2.1
      exact hpage hobject

end Schema

end SelectionRecall
