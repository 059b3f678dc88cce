import Mathlib.Data.Set.Operations
import SelectionRecall.Proofs.Document.Variables
import SelectionRecall.Proofs.Usage.Lowering

/-!
# Documents that say the same

Much of a document has no part in what it shows: aliases, directives, the heads of operations apart from
what they do, the names of fragments, where fragments stand, mutations, and fragments that only
mutations or nobody spreads. Two documents that differ in nothing else show the same usages in the same
order.

The argument follows a run on both documents at once. Each name on the stack of the one has its place
taken by the renamed one on the stack of the other, so that a spread is cyclic or undefined in both of
them or in neither.

* `Selection.RestatedAs`: selections with other aliases and directives, and with fragments renamed.
* `Document.Reads`: the names that operations reach, unless they are mutations.
* `Document.RestatedAs`: two documents that say the same.
* `Document.RestatedAs.exists_fragment?`, `Document.RestatedAs.fragment?_eq_none`: names that are read
  lead to the same fragments.
* `Schema.Lowers.restated`: a run on the one document is a run on the other one.
* `Document.usages_of_restatedAs`: both documents show the same.
* `Document.usages_of_restatedAs_track`: two documents that differ in all these ways.
-/

namespace SelectionRecall

open Relation Selection

/-! ## Selections that say the same -/

/-- The second selections are the first ones with any aliases and directives, and with the fragments
that they spread renamed. -/
inductive Selection.RestatedAs (rename : String → String) : List Selection → List Selection → Prop
  | nil : RestatedAs rename [] []
  | field {alias? other? name arguments directives others selections restated rest following} :
    RestatedAs rename selections restated → RestatedAs rename rest following →
    RestatedAs rename (.field alias? name arguments directives selections :: rest)
      (.field other? name arguments others restated :: following)
  | inline {condition? directives others selections restated rest following} :
    RestatedAs rename selections restated → RestatedAs rename rest following →
    RestatedAs rename (.inline condition? directives selections :: rest)
      (.inline condition? others restated :: following)
  | spread {name directives others rest following} :
    RestatedAs rename rest following →
    RestatedAs rename (.spread name directives :: rest) (.spread (rename name) others :: following)

/-- They spread the same fragments, renamed. -/
theorem Selection.RestatedAs.spreadsOf_eq {rename : String → String}
    {selections restated : List Selection} (h : RestatedAs rename selections restated) :
    spreadsOf restated = (spreadsOf selections).map rename := by
  induction h with
  | nil => rfl
  | field _ _ ihSelections ihRest =>
    rw [spreadsOf_cons, spreadsOf_field, spreadsOf_cons (.field _ _ _ _ _), spreadsOf_field,
      ihSelections, ihRest, List.map_append]
  | inline _ _ ihSelections ihRest =>
    rw [spreadsOf_cons, spreadsOf_inline, spreadsOf_cons (.inline _ _ _), spreadsOf_inline,
      ihSelections, ihRest, List.map_append]
  | spread _ ihRest =>
    rw [spreadsOf_cons, spreadsOf_spread, spreadsOf_cons (.spread _ _), spreadsOf_spread, ihRest,
      List.map_append, List.map_singleton]

/-- Only where nothing is selected, nothing is restated. -/
theorem Selection.RestatedAs.eq_nil_iff {rename : String → String}
    {selections restated : List Selection} (h : RestatedAs rename selections restated) :
    restated = [] ↔ selections = [] := by
  cases h <;> simp

/-- The second fragment is the first one under its new name, with selections that say the same. -/
structure FragmentDefinition.RestatedAs (rename : String → String)
    (fragment restated : FragmentDefinition) : Prop where
  name : restated.name = rename fragment.name
  condition : restated.condition = fragment.condition
  selections : Selection.RestatedAs rename fragment.selections restated.selections

/-- The second operation does what the first one does, with selections that say the same. -/
structure OperationDefinition.RestatedAs (rename : String → String)
    (operation restated : OperationDefinition) : Prop where
  type : restated.type = operation.type
  selections : Selection.RestatedAs rename operation.selections restated.selections

namespace Document

/-! ## Documents that say the same -/

/-- The operations that usages are learned from: all but mutations. -/
def learnedOperations (document : Document) : List OperationDefinition :=
  document.operations.filter fun operation => operation.type ≠ .mutation

/-- One of these operations reaches the name through spreads, whether it is defined or not. -/
def Reads (document : Document) (name : String) : Prop :=
  ∃ operation ∈ document.learnedOperations, document.Reaches (.operation operation) name

/-- **The second document says what the first one says.** The operations that are not mutations say the
same one by one, in their order, and so do some of the fragments, in any order. The other fragments of
either document are ones that it does not read. No two names that are defined or read in the first
document become one. -/
structure RestatedAs (document : Document) (rename : String → String) (other : Document) : Prop where
  operations : List.Forall₂ (OperationDefinition.RestatedAs rename) document.learnedOperations
    other.learnedOperations
  fragments : ∃ kept removed restated added,
    document.fragments.Perm (kept ++ removed) ∧ other.fragments.Perm (restated ++ added) ∧
      List.Forall₂ (FragmentDefinition.RestatedAs rename) kept restated ∧
      (∀ fragment ∈ removed, ¬ document.Reads fragment.name) ∧
      ∀ fragment ∈ added, ¬ other.Reads fragment.name
  injective : Set.InjOn rename {name | name ∈ document.fragmentNames ∨ document.Reads name}

variable {document other : Document} {rename : String → String} {name : String}

/-- What a fragment that is read spreads, is read too. -/
theorem Reads.spread (h : document.Reads name) {spread : String}
    (hspread : document.Spreads name spread) : document.Reads spread := by
  obtain ⟨operation, hoperation, first, hfirst, hpath⟩ := h
  exact ⟨operation, hoperation, first, hfirst, hpath.tail hspread⟩

/-- A fragment that is read has its counterpart. -/
theorem RestatedAs.exists_restated (h : document.RestatedAs rename other)
    {fragment : FragmentDefinition} (hfragment : fragment ∈ document.fragments)
    (hreads : document.Reads fragment.name) :
    ∃ restated ∈ other.fragments, fragment.RestatedAs rename restated := by
  obtain ⟨kept, removed, restated, added, hfragments, hothers, hrestated, hremoved, -⟩ := h.fragments
  rcases List.mem_append.1 (hfragments.mem_iff.1 hfragment) with hkept | hdropped
  · obtain ⟨counterpart, hmem, hsame⟩ := exists_mem_of_forall₂ hrestated.flip hkept
    exact ⟨counterpart, hothers.mem_iff.2 (List.mem_append_left _ hmem), hsame⟩
  · exact absurd hreads (hremoved fragment hdropped)

/-- The other document reads the same names, renamed. -/
theorem RestatedAs.reads (h : document.RestatedAs rename other) (hreads : document.Reads name) :
    other.Reads (rename name) := by
  obtain ⟨operation, hoperation, first, hfirst, hpath⟩ := hreads
  obtain ⟨restated, hrestated, hsame⟩ := exists_mem_of_forall₂ h.operations.flip hoperation
  have hstart : rename first ∈ spreadsOf restated.selections := by
    rw [hsame.selections.spreadsOf_eq]; exact List.mem_map_of_mem hfirst
  induction hpath with
  | refl => exact ⟨restated, hrestated, _, hstart, .refl⟩
  | tail hpath hstep ih =>
    obtain ⟨fragment, hfragment, rfl, hspread⟩ := hstep
    have hread : document.Reads fragment.name := ⟨operation, hoperation, first, hfirst, hpath⟩
    obtain ⟨counterpart, hmem, hmatch⟩ := h.exists_restated hfragment hread
    refine ih.spread ⟨counterpart, hmem, hmatch.name, ?_⟩
    rw [hmatch.selections.spreadsOf_eq]
    exact List.mem_map_of_mem hspread

/-- **A name that is read leads to the same fragment** in both documents. -/
theorem RestatedAs.exists_fragment? (h : document.RestatedAs rename other)
    (hnames : other.fragmentNames.Nodup) (hreads : document.Reads name)
    {fragment : FragmentDefinition} (hfragment : document.fragment? name = some fragment) :
    ∃ restated, other.fragment? (rename name) = some restated ∧
      fragment.RestatedAs rename restated := by
  obtain ⟨hmem, rfl⟩ := mem_of_fragment? hfragment
  obtain ⟨restated, hrestated, hsame⟩ := h.exists_restated hmem hreads
  refine ⟨restated, ?_, hsame⟩
  rw [← hsame.name]
  exact fragment?_of_mem hnames hrestated

/-- A name that is read and not defined stays so: no fragment of the other document takes it. -/
theorem RestatedAs.fragment?_eq_none (h : document.RestatedAs rename other)
    (hreads : document.Reads name) (hnone : document.fragment? name = none) :
    other.fragment? (rename name) = none := by
  by_contra hsome
  obtain ⟨found, hfound⟩ := Option.ne_none_iff_exists'.1 hsome
  obtain ⟨hmem, hname⟩ := mem_of_fragment? hfound
  obtain ⟨kept, removed, restated, added, hfragments, hothers, hrestated, -, hadded⟩ := h.fragments
  rcases List.mem_append.1 (hothers.mem_iff.1 hmem) with hcounterpart | hnew
  · -- the fragment is the counterpart of one whose name would have become that name too
    obtain ⟨fragment, hkept, hsame⟩ := exists_mem_of_forall₂ hrestated hcounterpart
    have hdefined : fragment ∈ document.fragments :=
      hfragments.mem_iff.2 (List.mem_append_left _ hkept)
    have hequal : fragment.name = name :=
      h.injective (Or.inl (List.mem_map_of_mem hdefined)) (Or.inr hreads) (hsame.name ▸ hname)
    have hdiffers := List.find?_eq_none.1 hnone fragment (List.mem_reverse.2 hdefined)
    simp [hequal] at hdiffers
  · exact hadded found hnew (hname ▸ h.reads hreads)

end Document

/-! ## Runs on both documents -/

variable {schema : Schema} {document other : Document} {rename : String → String}

/-- **A run on one document is a run on the other one**, with the names on the stack renamed. All names
on the stack are read, and so are those that the selections spread. -/
theorem Schema.Lowers.restated (h : document.RestatedAs rename other)
    (hnames : other.fragmentNames.Nodup) {stack after : List String} {typeName : String}
    {usage : Usage} {selections restated : List Selection} {observed : Observed}
    (hrun : schema.Lowers document stack typeName usage selections after observed)
    (hstack : ∀ name ∈ stack, document.Reads name)
    (hspreads : ∀ name ∈ spreadsOf selections, document.Reads name)
    (hrestated : Selection.RestatedAs rename selections restated) :
    (∀ name ∈ after, document.Reads name) ∧
      schema.Lowers other (stack.map rename) typeName usage restated (after.map rename) observed := by
  have hnew : ∀ {stack : List String} {name : String}, (∀ inside ∈ stack, document.Reads inside) →
      document.Reads name → name ∉ stack → rename name ∉ stack.map rename := by
    intro stack name hstack hreads hnew hmem
    obtain ⟨inside, hinside, hsame⟩ := List.mem_map.1 hmem
    exact hnew (h.injective (Or.inr (hstack inside hinside)) (Or.inr hreads) hsame ▸ hinside)
  have hbeneath : ∀ {name : String} {fragment : FragmentDefinition}, document.Reads name →
      document.fragment? name = some fragment →
        ∀ spread ∈ spreadsOf fragment.selections, document.Reads spread := by
    intro name fragment hreads hfragment spread hspread
    obtain ⟨hmem, hname⟩ := Document.mem_of_fragment? hfragment
    exact hreads.spread ⟨fragment, hmem, hname, hspread⟩
  have hsplit : ∀ {selection : Selection} {rest : List Selection},
      (∀ name ∈ spreadsOf (selection :: rest), document.Reads name) →
        (∀ name ∈ spreadsOf [selection], document.Reads name) ∧
          ∀ name ∈ spreadsOf rest, document.Reads name := by
    intro selection rest hall
    rw [spreadsOf_cons] at hall
    exact List.forall_mem_append.1 hall
  induction hrun generalizing restated with
  | nil =>
    cases hrestated
    exact ⟨hstack, .nil⟩
  | unknownField hunknown _ ih =>
    obtain ⟨-, hrest⟩ := hsplit hspreads
    cases hrestated with
    | field _ hfollowing =>
      obtain ⟨hafter, hrun⟩ := ih hstack hrest hfollowing
      exact ⟨hafter, .unknownField hunknown hrun⟩
  | leaf hreturned _ ih =>
    obtain ⟨-, hrest⟩ := hsplit hspreads
    cases hrestated with
    | field hbeneath hfollowing =>
      obtain rfl := hbeneath.eq_nil_iff.2 rfl
      obtain ⟨hafter, hrun⟩ := ih hstack hrest hfollowing
      exact ⟨hafter, .leaf hreturned hrun⟩
  | composite hreturned hne _ _ ihNested ih =>
    obtain ⟨hfirst, hrest⟩ := hsplit hspreads
    rw [spreadsOf_field] at hfirst
    cases hrestated with
    | field hbeneath hfollowing =>
      obtain ⟨hbetween, hnested⟩ := ihNested hstack hfirst hbeneath
      obtain ⟨hafter, hrun⟩ := ih hbetween hrest hfollowing
      exact ⟨hafter, .composite hreturned (mt hbeneath.eq_nil_iff.1 hne) hnested hrun⟩
  | unknownCondition hunknown _ ih =>
    obtain ⟨-, hrest⟩ := hsplit hspreads
    cases hrestated with
    | inline _ hfollowing =>
      obtain ⟨hafter, hrun⟩ := ih hstack hrest hfollowing
      exact ⟨hafter, .unknownCondition hunknown hrun⟩
  | inline hknown _ _ ihInner ih =>
    obtain ⟨hfirst, hrest⟩ := hsplit hspreads
    rw [spreadsOf_inline] at hfirst
    cases hrestated with
    | inline hbeneath hfollowing =>
      obtain ⟨hbetween, hinner⟩ := ihInner hstack hfirst hbeneath
      obtain ⟨hafter, hrun⟩ := ih hbetween hrest hfollowing
      exact ⟨hafter, .inline hknown hinner hrun⟩
  | undefined hnone _ ih =>
    obtain ⟨hreads, hrest⟩ := hsplit hspreads
    rw [spreadsOf_spread, List.forall_mem_singleton] at hreads
    cases hrestated with
    | spread hfollowing =>
      obtain ⟨hafter, hrun⟩ := ih hstack hrest hfollowing
      exact ⟨hafter, .undefined (h.fragment?_eq_none hreads hnone) hrun⟩
  | cyclic hmem _ ih =>
    obtain ⟨-, hrest⟩ := hsplit hspreads
    cases hrestated with
    | spread hfollowing =>
      obtain ⟨hafter, hrun⟩ := ih hstack hrest hfollowing
      exact ⟨hafter, .cyclic (List.mem_map_of_mem hmem) hrun⟩
  | unknownFragment hfragment hfresh hunknown _ ih =>
    obtain ⟨hreads, hrest⟩ := hsplit hspreads
    rw [spreadsOf_spread, List.forall_mem_singleton] at hreads
    obtain ⟨counterpart, hfound, hsame⟩ := h.exists_fragment? hnames hreads hfragment
    cases hrestated with
    | spread hfollowing =>
      obtain ⟨hafter, hrun⟩ := ih hstack hrest hfollowing
      exact ⟨hafter, .unknownFragment hfound (hnew hstack hreads hfresh)
        (hsame.condition ▸ hunknown) hrun⟩
  | spread hfragment hfresh hknown _ _ ihInner ih =>
    obtain ⟨hreads, hrest⟩ := hsplit hspreads
    rw [spreadsOf_spread, List.forall_mem_singleton] at hreads
    obtain ⟨counterpart, hfound, hsame⟩ := h.exists_fragment? hnames hreads hfragment
    cases hrestated with
    | spread hfollowing =>
      have hinside := List.forall_mem_cons.2 ⟨hreads, hstack⟩
      obtain ⟨hbetween, hinner⟩ := ihInner hinside (hbeneath hreads hfragment) hsame.selections
      obtain ⟨hafter, hrun⟩ := ih (fun inside hmem => hbetween inside (List.mem_of_mem_tail hmem))
        hrest hfollowing
      rw [List.map_tail] at hrun
      rw [← hsame.condition] at hknown hinner hrun ⊢
      exact ⟨hafter, .spread hfound (hnew hstack hreads hfresh) hknown hinner hrun⟩

namespace Document

/-- Mutations show nothing. -/
theorem observations_eq_flatMap (document : Document) (schema : Schema) :
    document.observations schema =
      document.learnedOperations.flatMap (document.operationObservations schema) := by
  unfold observations learnedOperations
  induction document.operations with
  | nil => rfl
  | cons operation rest ih =>
    by_cases hmutation : operation.type = .mutation
    · rw [List.flatMap_cons, operationObservations, if_pos hmutation, List.nil_append, ih,
        List.filter_cons_of_neg (by simpa using hmutation)]
    · rw [List.flatMap_cons, ih, List.filter_cons_of_pos (by simpa using hmutation), List.flatMap_cons]

/-- The same is read in two operations that say the same. -/
theorem RestatedAs.operationObservations_eq (h : document.RestatedAs rename other)
    (hnames : other.fragmentNames.Nodup) {operation restated : OperationDefinition}
    (hoperation : operation ∈ document.learnedOperations) (hsame : operation.RestatedAs rename restated) :
    other.operationObservations schema restated = document.operationObservations schema operation := by
  have hreads : ∀ name ∈ spreadsOf operation.selections, document.Reads name :=
    fun name hname => ⟨operation, hoperation, name, hname, .refl⟩
  have hobserve : ∀ root, schema.observe other root restated.selections =
      schema.observe document root operation.selections := by
    intro root
    have hrun : schema.Lowers document [] root .empty operation.selections []
        (schema.observe document root operation.selections) :=
      (Schema.lowers_iff document.inside_nil).2 ⟨rfl, rfl⟩
    obtain ⟨-, hother⟩ := hrun.restated h hnames (by simp) hreads hsame.selections
    exact ((Schema.lowers_iff other.inside_nil).1 hother).2.symm
  unfold operationObservations
  simp only [hsame.type, hobserve]

/-- **How a document is written makes no difference to what it shows.** Let a second document say what
the first one says, and let no two fragments in it have one name. For every schema both show the same
usages, down to the order of types, of fields and of parts. They may differ in

* aliases, directives, and the names and the variables of operations;
* the names of fragments, renamed one to one where they are defined and where they are spread;
* the places of fragments among the definitions;
* mutations, which may be added, removed or changed;
* fragments that no query or subscription reaches through spreads, which may be added, removed or
  changed, as long as no spread that is reached has the name of an added one. -/
theorem usages_of_restatedAs (schema : Schema) {document other : Document} {rename : String → String}
    (hnames : other.fragmentNames.Nodup) (h : document.RestatedAs rename other) :
    other.usages schema = document.usages schema := by
  unfold usages
  rw [observations_eq_flatMap, observations_eq_flatMap]
  have hoperations := (List.forall₂_and_left _ _).2 ⟨fun _ hmem => hmem, h.operations⟩
  have hobservations : ∀ {operations others : List OperationDefinition},
      List.Forall₂ (fun operation restated => operation ∈ document.learnedOperations ∧
        operation.RestatedAs rename restated) operations others →
      others.flatMap (other.operationObservations schema) =
        operations.flatMap (document.operationObservations schema) := by
    intro operations others hall
    induction hall with
    | nil => rfl
    | cons hfirst _ ih =>
      rw [List.flatMap_cons, List.flatMap_cons, ih, h.operationObservations_eq hnames hfirst.1 hfirst.2]
  rw [hobservations hoperations]

/-- What is read is among any names that hold what operations spread, and what the fragments of these
names spread. -/
theorem Reads.mem_of_closed {names : List String} {name : String} (h : document.Reads name)
    (hoperations : ∀ operation ∈ document.learnedOperations, ∀ spread ∈ spreadsOf operation.selections,
      spread ∈ names)
    (hfragments : ∀ fragment ∈ document.fragments, fragment.name ∈ names →
      ∀ spread ∈ spreadsOf fragment.selections, spread ∈ names) : name ∈ names := by
  obtain ⟨operation, hoperation, first, hfirst, hpath⟩ := h
  induction hpath with
  | refl => exact hoperations operation hoperation first hfirst
  | tail _ hstep ih =>
    obtain ⟨fragment, hfragment, rfl, hspread⟩ := hstep
    exact hfragments fragment hfragment ih _ hspread

/-- Tracks with their artists. -/
def trackSchema : Schema :=
  ⟨"Query", some "Mutation", none,
    [⟨"Query", .object, [("track", "Track")], []⟩, ⟨"Mutation", .object, [("play", "Track")], []⟩,
      ⟨"Track", .object, [("title", "String"), ("artist", "Artist"), ("length", "Int")], []⟩,
      ⟨"Artist", .object, [("name", "String")], []⟩]⟩

/-- A query that spreads a fragment that spreads itself, and one that is not defined. -/
def trackDocument : Document :=
  ⟨[.operation ⟨some ⟨.query, some "Track", [], []⟩,
      [.field none "track" [] [] [.spread "TrackParts" [], .spread "Missing" []]]⟩,
    .fragment ⟨"TrackParts", "Track", [],
      [.field none "title" [] [] [], .field none "artist" [] [] [.spread "Who" []]]⟩,
    .fragment ⟨"Who", "Artist", [], [.field none "name" [] [] [], .spread "Who" []]⟩,
    .fragment ⟨"Length", "Track", [], [.field none "length" [] [] []]⟩]⟩

/-- The new names of its fragments. -/
def trackRename (name : String) : String :=
  ([("TrackParts", "Parts"), ("Who", "Person"), ("Missing", "Gone")].lookup name).getD name

/-- The same query in other words, with a mutation and without the fragment that it does not read. -/
def trackRestated : Document :=
  ⟨[.fragment ⟨"Person", "Artist", [], [.field (some "n") "name" [] [] [], .spread "Person" []]⟩,
    .operation ⟨some ⟨.mutation, none, [], []⟩, [.field none "play" [] [] [.spread "TrackParts" []]]⟩,
    .fragment ⟨"TrackParts", "Track", [], [.field none "length" [] [] []]⟩,
    .operation ⟨some ⟨.query, none, [⟨"deep", .named "Boolean", none⟩], []⟩,
      [.field (some "t") "track" [] [] [.spread "Parts" [⟨"include", [("if", .variable "deep")]⟩],
        .spread "Gone" []]]⟩,
    .fragment ⟨"Parts", "Track", [], [.field none "title" [] [⟨"client", []⟩] [],
      .field none "artist" [] [] [.spread "Person" []]]⟩]⟩

/-- **The same query in other words.** An old name of a fragment is that of a new one, which only the
mutation spreads. Both documents show the same of tracks and artists. -/
theorem usages_of_restatedAs_track :
    trackRestated.fragmentNames.Nodup ∧ trackDocument.RestatedAs trackRename trackRestated ∧
      (trackDocument.usages trackSchema).typeNames = ["Artist", "Track"] ∧
      trackRestated.usages trackSchema = trackDocument.usages trackSchema := by
  have hnames : trackRestated.fragmentNames.Nodup := by decide
  have hreads : ∀ name, trackDocument.Reads name → name ∈ ["TrackParts", "Missing", "Who"] :=
    fun name h => h.mem_of_closed (by decide) (by decide)
  have hothers : ∀ name, trackRestated.Reads name → name ∈ ["Parts", "Gone", "Person"] :=
    fun name h => h.mem_of_closed (by decide) (by decide)
  have hrestated : trackDocument.RestatedAs trackRename trackRestated := by
    refine ⟨.cons ⟨rfl, .field (.spread (.spread .nil)) .nil⟩ .nil, ?_, ?_⟩
    · refine ⟨trackDocument.fragments.take 2, trackDocument.fragments.drop 2,
        trackRestated.fragments.drop 2 ++ trackRestated.fragments.take 1,
        (trackRestated.fragments.drop 1).take 1, .refl _, ?_, ?_, ?_, ?_⟩
      · exact @List.perm_append_comm _ (trackRestated.fragments.take 2) (trackRestated.fragments.drop 2)
      · exact .cons ⟨rfl, rfl, .field .nil (.field (.spread .nil) .nil)⟩
          (.cons ⟨rfl, rfl, .field .nil (.spread .nil)⟩ .nil)
      · have hunread : ∀ fragment ∈ trackDocument.fragments.drop 2,
            fragment.name ∉ ["TrackParts", "Missing", "Who"] := by decide
        exact fun fragment hfragment h => hunread fragment hfragment (hreads _ h)
      · have hunread : ∀ fragment ∈ (trackRestated.fragments.drop 1).take 1,
            fragment.name ∉ ["Parts", "Gone", "Person"] := by decide
        exact fun fragment hfragment h => hunread fragment hfragment (hothers _ h)
    · have hamong : ∀ name, name ∈ trackDocument.fragmentNames ∨ trackDocument.Reads name →
          name ∈ ["TrackParts", "Who", "Length", "Missing"] := by
        rintro name (hdefined | hread)
        · exact List.mem_append_left ["Missing"] hdefined
        · exact (by decide : ["TrackParts", "Missing", "Who"] ⊆ _) (hreads name hread)
      have happart : ∀ first ∈ ["TrackParts", "Who", "Length", "Missing"],
          ∀ second ∈ ["TrackParts", "Who", "Length", "Missing"],
            trackRename first = trackRename second → first = second := by decide
      exact fun first hfirst second hsecond =>
        happart first (hamong first hfirst) second (hamong second hsecond)
  exact ⟨hnames, hrestated, by decide +kernel, usages_of_restatedAs trackSchema hnames hrestated⟩

end Document

end SelectionRecall
