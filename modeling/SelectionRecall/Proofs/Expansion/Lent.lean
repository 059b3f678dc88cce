import SelectionRecall.Proofs.Expansion.Kept
import SelectionRecall.Proofs.Usage.Faithful
import SelectionRecall.Proofs.Usage.Trails

/-!
# Fragments that are lent to markers

A marker may be served with a fragment of the document, if what is read in the fragment covers what the
marker requests. Wherever a field is requested, the fragment then leads to one of its name, also after
expansion, and it asks for all that would have been generated for the request. But covering knows
neither of arguments nor of directives, which may differ from what would have been generated.

* `Usage.Asks.of_covers`, `Usage.asks_of_mem_toSelections`: what is covered, and what is written for a
  usage, asks for no more.
* `Selection.Leads.kept`: trails stay when documents are expanded.
* `Expansion.exists_keeps_expand`: fragments after expansion.
* `Expansion.leadTo_and_asks_of_serves`: what a fragment that is lent selects.
* `Expansion.leadTo_and_asks_of_serves_item`, `Expansion.not_leads_plainly_item`: a fragment that is
  lent, and what differs in it.
-/

namespace SelectionRecall

open Selection

/-! ## What is asked for -/

namespace Usage

variable {schema : Schema} {usage other : Usage} {path : List ObjectField}

/-- What is covered asks for no more. -/
theorem Asks.of_covers (h : other.Asks schema path) (hcovers : usage.covers other = true) :
    usage.Asks schema path := by
  induction h generalizing usage with
  | field hfield =>
    obtain ⟨known, hknown, -⟩ := (covers_iff.1 hcovers).1 _ hfield
    obtain ⟨hmem, hname⟩ := Keyed.mem_of_find? hknown
    rw [← hname]
    exact .field hmem
  | nested hfield hnested _ ih =>
    obtain ⟨known, hknown, hbeneath⟩ := (covers_iff.1 hcovers).1 _ hfield
    obtain ⟨hmem, hname⟩ := Keyed.mem_of_find? hknown
    obtain ⟨beneath, hknownNested, hinner⟩ := hbeneath _ hnested
    rw [← hname]
    exact .nested hmem hknownNested (ih hinner)
  | part hpart hobject _ ih =>
    obtain ⟨known, hknown, hinner⟩ := (covers_iff.1 hcovers).2 _ hpart
    exact .part (Keyed.mem_of_lookup hknown) hobject (ih hinner)

/-- What is written for a usage asks for no more. -/
theorem asks_of_mem_toSelections {document : Document} {typeName : String} {selection : Selection}
    (hselection : selection ∈ usage.toSelections)
    (h : selection.Asks schema document typeName path) : usage.Asks schema path := by
  induction usage using Usage.induction generalizing typeName selection path with
  | step usage ihFields ihParts =>
    rcases mem_toSelections.1 hselection with ⟨field, hfield, rfl⟩ | ⟨part, hpart, rfl⟩
    · cases h with
      | field => exact .field hfield
      | nested _ hmem hasks =>
        obtain ⟨nested, hnested, hinner⟩ : ∃ nested, field.nested? = some nested ∧
            _ ∈ nested.toSelections := by
          cases hnested : field.nested? with
          | none => rw [hnested] at hmem; cases hmem
          | some nested => rw [hnested] at hmem; exact ⟨nested, rfl, hmem⟩
        exact .nested hfield hnested (ihFields field hfield nested hnested hinner hasks)
    · cases h with
      | inline _ hobject hmem hasks => exact .part hpart hobject (ihParts part hpart hmem hasks)

end Usage

/-! ## Trails after expansion -/

namespace Selection

variable {marker : String}

/-- Each of the selections that are kept is there afterwards. -/
theorem KeepsAll.exists_of_mem {selections kept : List Selection} (h : KeepsAll marker selections kept)
    {selection : Selection} (hselection : selection ∈ selections) :
    ∃ other ∈ kept, Keeps marker selection other := by
  induction selections generalizing kept with
  | nil => cases hselection
  | cons first rest ih =>
    cases h with
    | cons hfirst hrest =>
      rcases List.mem_cons.1 hselection with rfl | hmem
      · exact ⟨_, List.mem_cons_self, hfirst⟩
      · obtain ⟨other, hother, hkeeps⟩ := ih hrest hmem
        exact ⟨other, List.mem_cons_of_mem _ hother, hkeeps⟩

/-- **Trails stay** where selections are kept, in the fragments of a document too. Only the directives
on them may get fewer. -/
theorem Leads.kept {schema : Schema} {document expanded : Document}
    (hfragments : ∀ name fragment, document.fragment? name = some fragment →
      ∃ other, expanded.fragment? name = some other ∧ other.condition = fragment.condition ∧
        KeepsAll marker fragment.selections other.selections)
    {typeName : String} {selection kept : Selection} {path : List Usage.Step} {met : MetField}
    (h : selection.Leads schema document typeName path met) (hkeeps : Keeps marker selection kept) :
    ∃ other, kept.Leads schema expanded typeName path other ∧ other.name = met.name := by
  -- on the trail: whatever holds its next selection still holds it, and leads on to the same place
  induction h generalizing kept with
  | here hfield => cases hkeeps <;> exact ⟨_, .here hfield, rfl⟩
  | beneath hfield hmem _ ih =>
    cases hkeeps with
    | marked _ hall _ =>
      obtain ⟨inner, hinner, hkept⟩ := hall.exists_of_mem hmem
      obtain ⟨other, hleads, hname⟩ := ih hkept
      exact ⟨_, .beneath hfield (List.mem_append_left _ hinner) hleads, hname⟩
    | unmarked _ hall =>
      obtain ⟨inner, hinner, hkept⟩ := hall.exists_of_mem hmem
      obtain ⟨other, hleads, hname⟩ := ih hkept
      exact ⟨_, .beneath hfield hinner hleads, hname⟩
  | inline hknown hmem _ ih =>
    cases hkeeps with
    | inline hall =>
      obtain ⟨inner, hinner, hkept⟩ := hall.exists_of_mem hmem
      obtain ⟨other, hleads, hname⟩ := ih hkept
      exact ⟨_, .inline hknown hinner hleads, hname⟩
  | spread hfragment hknown hmem _ ih =>
    -- the spread is the same, but the fragment of its name is the one of the other document
    cases hkeeps
    obtain ⟨definition, hdefinition, hcondition, hall⟩ := hfragments _ _ hfragment
    obtain ⟨inner, hinner, hkept⟩ := hall.exists_of_mem hmem
    obtain ⟨other, hleads, hname⟩ := ih hkept
    rw [← hcondition] at hknown hleads ⊢
    exact ⟨_, .spread hdefinition hknown hinner hleads, hname⟩

end Selection

namespace Expansion

variable {expansion : Expansion} {document : Document} {typeName : String} {usage : Usage}

/-- A fragment of the document is there after expansion, with what it had. -/
theorem exists_keeps_expand {fragment : FragmentDefinition} (h : fragment ∈ document.fragments) :
    ∃ other ∈ (expansion.expand document).fragments, other.name = fragment.name ∧
      other.condition = fragment.condition ∧
      KeepsAll expansion.options.directive fragment.selections other.selections ∧
      (expansion.anyMarks fragment.selections = false → other = fragment) := by
  have hall := expansion.forall₂_keeps_expandDefinitions (expansion.supplyOf document)
    document.definitions
  obtain ⟨kept, hkept, hkeeps, hsame⟩ :=
    exists_mem_of_forall₂ hall.flip (Document.mem_fragments.1 h)
  have htake : kept ∈ (expansion.expand document).definitions.take document.definitions.length := by
    rw [expansion.take_expand_eq document]; exact hkept
  cases hkeeps with
  | fragment hselections =>
    refine ⟨_, Document.mem_fragments.2 (List.mem_of_mem_take htake), rfl, rfl, hselections, ?_⟩
    intro hunmarked
    exact Definition.fragment.inj (hsame hunmarked)

/-- Trails through a fragment that has no marker stay when the document is expanded. -/
theorem leadTo_expand (hnames : document.fragmentNames.Nodup) {fragment : FragmentDefinition}
    (hfragment : fragment ∈ document.fragments)
    (hunmarked : expansion.anyMarks fragment.selections = false) {path : List Usage.Step}
    {name : String}
    (h : LeadTo expansion.schema document typeName fragment.selections path name) :
    LeadTo expansion.schema (expansion.expand document) typeName fragment.selections path name := by
  have hexpanded := expansion.nodup_fragmentNames_expand hnames
  have hfragments : ∀ name fragment, document.fragment? name = some fragment →
      ∃ other, (expansion.expand document).fragment? name = some other ∧
        other.condition = fragment.condition ∧
        KeepsAll expansion.options.directive fragment.selections other.selections := by
    intro name fragment hfind
    obtain ⟨hmem, rfl⟩ := Document.mem_of_fragment? hfind
    obtain ⟨other, hother, hname, hcondition, hall, -⟩ := exists_keeps_expand hmem
    rw [← hname]
    exact ⟨other, Document.fragment?_of_mem hexpanded hother, hcondition, hall⟩
  obtain ⟨selection, hselection, met, hleads, hname⟩ := h
  obtain ⟨other, -, -, -, hall, hsame⟩ := exists_keeps_expand hfragment
  rw [hsame hunmarked] at hall
  obtain ⟨kept, hkept, hkeeps⟩ := hall.exists_of_mem hselection
  obtain ⟨found, hfound, hsameName⟩ := hleads.kept hfragments hkeeps
  exact ⟨kept, hkept, found, hfound, hsameName.trans hname⟩

/-- A fragment of the document that serves a request is on the type that is requested, has no marker,
and covers the usage. -/
theorem covers_of_serves (hnames : document.fragmentNames.Nodup) {fragment : FragmentDefinition}
    (hfragment : fragment ∈ document.fragments)
    (hserves : (expansion.supplyAfter document).Serves typeName usage fragment.name) :
    fragment.condition = typeName ∧ expansion.anyMarks fragment.selections = false ∧
      (expansion.schema.observe document typeName fragment.selections).usage.covers usage = true := by
  rcases serves_cases hserves with ⟨serving, hserving, hname, hrest⟩ | hgenerated
  · have hself := Document.fragment?_of_mem hnames hfragment
    have hother := Document.fragment?_of_mem hnames hserving
    rw [hname, hself, Option.some.injEq] at hother
    rw [hother]; exact hrest
  · -- what is generated has a name that the document does not have
    exact absurd (List.mem_map_of_mem hfragment)
      ((expansion.wellNamed_supplyAfter document).generated_not_reserved _ hgenerated)

/-- **What a fragment that is lent selects.** Let a request be served with a fragment of the document.
The fragment is on the type that is requested, and is left as it is. Wherever a way into the usage leads
to a field, a trail through the fragment leads to one of its name, also after expansion. And of every
object of the type it asks for all that a fragment with the selections of the usage would ask for, on
each way through the objects on which all types with a field agree on what it returns, and on every way
if implementers return what their abstract types promise. -/
theorem leadTo_and_asks_of_serves (hnames : document.fragmentNames.Nodup)
    {fragment : FragmentDefinition} (hfragment : fragment ∈ document.fragments)
    (hserves : (expansion.supplyAfter document).Serves typeName usage fragment.name) :
    let schema := expansion.schema
    (fragment.condition = typeName ∧ fragment ∈ (expansion.expand document).fragments) ∧
    (∀ path name, usage.Has path (some name) →
      LeadTo schema document typeName fragment.selections path name ∧
      LeadTo schema (expansion.expand document) typeName fragment.selections path name) ∧
    (schema.WellFormed → schema.ListsObjects → document.Acyclic → ∀ asked path,
      schema.MayBe typeName asked.object →
      ((asked :: path).IsChain schema.AllReturn ∨
        schema.Covariant ∧ (asked :: path).IsChain schema.MayReturn) →
      (∃ selection ∈ usage.toSelections, selection.Asks schema document typeName (asked :: path)) →
      ∃ selection ∈ fragment.selections, selection.Asks schema document typeName (asked :: path)) := by
  intro schema
  obtain ⟨hcondition, hunmarked, hcovers⟩ := covers_of_serves hnames hfragment hserves
  refine ⟨⟨hcondition, ?_⟩, ?_, ?_⟩
  · obtain ⟨other, hother, -, -, -, hsame⟩ := exists_keeps_expand hfragment
    rw [hsame hunmarked] at hother
    exact hother
  · intro path name hhas
    have hleads := Schema.leadTo_of_has (hhas.of_covers hcovers)
    exact ⟨hleads, leadTo_expand hnames hfragment hunmarked hleads⟩
  · rintro hschema hobjects hacyclic asked path hobject hpath ⟨selection, hselection, hasks⟩
    have hagree : (asked :: path).IsChain schema.AllReturn := by
      rcases hpath with hagree | ⟨hcovariant, hpath⟩
      · exact hagree
      · exact hpath.imp fun _ _ hstep =>
          Schema.allReturn_of_mayReturn hschema hobjects hcovariant hstep
    have hmirrors := Schema.mirrors_observe hschema hobjects hacyclic typeName fragment.selections
    have hasked := (Usage.asks_of_mem_toSelections hselection hasks).of_covers hcovers
    exact (hmirrors.asks_iff asked path hobject hagree).1 hasked

/-- The link of an item is a photo, which does not keep what the interface says of links. -/
def lentSchema : Schema :=
  ⟨"Query", some "Mutation", none,
    [⟨"Query", .object, [("item", "Item")], []⟩, ⟨"Mutation", .object, [("addItem", "Item")], []⟩,
      ⟨"Node", .interface, [("link", "Page")], ["Item"]⟩,
      ⟨"Item", .object, [("id", "ID"), ("title", "String"), ("link", "Photo")], []⟩,
      ⟨"Page", .object, [("id", "ID")], []⟩, ⟨"Photo", .object, [("id", "ID")], []⟩]⟩

/-- What was selected on items: the beginning of their titles, among others. -/
def lentUsage : Usage :=
  .mk [.leaf "id", .mk "title" [("max", .int 3)] none, .nested "link" (.mk [.leaf "id"] [])] []

/-- A directive that leaves out what it stands on. -/
def leftOut : Directive := ⟨"skip", [("if", .boolean true)]⟩

/-- A fragment with the same fields: one is left out, one is without its argument, and one is selected
of pages only. -/
def lentFragment : FragmentDefinition :=
  ⟨"Brief", "Item", [], [.field none "id" [] [leftOut] [], .field none "title" [] [] [],
    .inline (some "Node") [] [.field none "link" [] []
      [.inline (some "Page") [] [.field none "id" [] [] []]]]]⟩

/-- A mutation with a marker beside the fragment. -/
def lentDocument : Document :=
  ⟨[.operation ⟨some ⟨.mutation, none, [], []⟩, [.field none "addItem" [] [⟨"populate", []⟩] []]⟩,
    .fragment lentFragment]⟩

/-- What was learned of items is known. -/
def lentExpansion : Expansion :=
  ⟨{}, lentSchema, ⟨[("Photo", .mk [.leaf "id"] []), ("Item", lentUsage)]⟩⟩

/-- It serves the marker. -/
theorem serves_lentFragment :
    (lentExpansion.supplyAfter lentDocument).Serves "Item" lentUsage lentFragment.name := by
  have hserved : ((lentExpansion.supplyOf lentDocument).authored.find?
      (·.covers "Item" lentUsage)).map SuppliedFragment.name = some "Brief" := by decide +kernel
  obtain ⟨supplied, hfind, hname⟩ := Option.map_eq_some_iff.1 hserved
  unfold FragmentSupply.Serves
  rw [authored_supplyAfter, hfind]
  exact hname

/-- **A fragment that is lent**: it has the link of an item with an id, and asks for the title. -/
theorem leadTo_and_asks_of_serves_item :
    (lentDocument.fragmentNames.Nodup ∧ lentFragment ∈ lentDocument.fragments ∧
      (lentExpansion.supplyAfter lentDocument).Serves "Item" lentUsage lentFragment.name) ∧
    (lentSchema.WellFormed ∧ lentSchema.ListsObjects ∧ lentDocument.Acyclic) ∧
    LeadTo lentSchema (lentExpansion.expand lentDocument) "Item" lentFragment.selections
      [.field "link"] "id" ∧
    ∃ selection ∈ lentFragment.selections,
      selection.Asks lentSchema lentDocument "Item" [⟨"Item", "title"⟩] := by
  have hnames : lentDocument.fragmentNames.Nodup := by decide
  have hfragment : lentFragment ∈ lentDocument.fragments := List.mem_cons_self
  have hschema : lentSchema.WellFormed := by decide
  have hobjects : lentSchema.ListsObjects := by decide
  have hacyclic : lentDocument.Acyclic := Document.acyclic_of_rank (fun _ => 0) (by decide)
  obtain ⟨-, hleads, hasks⟩ := leadTo_and_asks_of_serves hnames hfragment serves_lentFragment
  have hid : lentUsage.Has [.field "link"] (some "id") :=
    Usage.has_cons.2 ⟨_, rfl, Usage.has_nil_some.2 rfl⟩
  have htitle : lentSchema.fieldType? "Item" "title" = some "String" := by decide
  refine ⟨⟨hnames, hfragment, serves_lentFragment⟩, ⟨hschema, hobjects, hacyclic⟩,
    (hleads _ _ hid).2, ?_⟩
  refine hasks hschema hobjects hacyclic ⟨"Item", "title"⟩ [] (by decide) (Or.inl (.singleton _)) ?_
  exact ⟨_, List.mem_cons_of_mem _ List.mem_cons_self, .field (.leaf htitle)⟩

/-- What trails through the fragment lead to without a step. -/
theorem eq_of_leads_lentFragment {selection : Selection}
    (hselection : selection ∈ lentFragment.selections) {met : MetField}
    (h : selection.Leads lentSchema lentDocument "Item" [] met) :
    met = ⟨"id", [], [leftOut]⟩ ∨ met = ⟨"title", [], []⟩ ∨ met = ⟨"link", [], []⟩ := by
  simp only [lentFragment, List.mem_cons, List.not_mem_nil, or_false] at hselection
  rcases hselection with rfl | rfl | rfl
  · exact Or.inl (leads_field_nil_iff.1 h).2
  · exact Or.inr (Or.inl (leads_field_nil_iff.1 h).2)
  · -- the interface lists items, so that the fragment is no step
    obtain ⟨-, link, hlink, rest, inner, hrest, rfl, hinner⟩ := leads_inline_iff.1 h
    obtain rfl := List.mem_singleton.1 hlink
    obtain ⟨-, rfl⟩ := List.append_eq_nil_iff.1 hrest.symm
    rw [(leads_field_nil_iff.1 hinner).2]
    exact Or.inr (Or.inr rfl)

/-- The fragment does not ask for the id of a photo. -/
theorem not_asks_lentFragment {selection : Selection}
    (hselection : selection ∈ lentFragment.selections) :
    ¬ selection.Asks lentSchema lentDocument "Item" [⟨"Item", "link"⟩, ⟨"Photo", "id"⟩] := by
  intro hasks
  simp only [lentFragment, List.mem_cons, List.not_mem_nil, or_false] at hselection
  rcases hselection with rfl | rfl | rfl
  · exact absurd (asks_field_iff.1 hasks).1 (by decide)
  · exact absurd (asks_field_iff.1 hasks).1 (by decide)
  · -- inside the link stands a fragment on pages, which is not applied to a photo
    have hpage : ¬ lentSchema.MayBe "Page" "Photo" := by decide
    obtain ⟨-, -, link, hlink, hasks⟩ := asks_inline_iff.1 hasks
    obtain rfl := List.mem_singleton.1 hlink
    obtain ⟨-, returned, -, ⟨hend, -⟩ | ⟨page, hmem, hasks⟩⟩ := asks_field_iff.1 hasks
    · cases hend
    · obtain rfl := List.mem_singleton.1 hmem
      exact hpage (asks_inline_iff.1 hasks).2.1

/-- **What differs in it**: the fragment has the id under a directive only, and the title without its
argument, and does not ask for the id of a photo. -/
theorem not_leads_plainly_item :
    let path : List ObjectField := [⟨"Item", "link"⟩, ⟨"Photo", "id"⟩]
    (lentDocument.fragmentNames.Nodup ∧ lentDocument.Acyclic) ∧
      ("Item", lentUsage) ∈ lentExpansion.requests lentDocument ∧
      (lentExpansion.supplyAfter lentDocument).Serves "Item" lentUsage lentFragment.name ∧
      (lentUsage.Has [] (some "id") ∧
        ¬ ∃ selection ∈ lentFragment.selections, ∃ met,
          selection.Leads lentSchema lentDocument "Item" [] met ∧ met.name = "id" ∧
            met.directives = []) ∧
      ((lentUsage.field? "title").map FieldUse.arguments = some [("max", .int 3)] ∧
        ¬ ∃ selection ∈ lentFragment.selections, ∃ met,
          selection.Leads lentSchema lentDocument "Item" [] met ∧ met.name = "title" ∧
            met.arguments = [("max", .int 3)]) ∧
      ((∃ selection ∈ lentUsage.toSelections, selection.Asks lentSchema lentDocument "Item" path) ∧
        ¬ ∃ selection ∈ lentFragment.selections,
          selection.Asks lentSchema lentDocument "Item" path) := by
  intro path
  have hrequests : lentExpansion.requests lentDocument = [("Item", lentUsage)] := by
    with_unfolding_all rfl
  have hlink : lentSchema.fieldType? "Item" "link" = some "Photo" := by decide
  have hid : lentSchema.fieldType? "Photo" "id" = some "ID" := by decide
  refine ⟨⟨by decide, Document.acyclic_of_rank (fun _ => 0) (by decide)⟩, ?_, serves_lentFragment,
    ⟨Usage.has_nil_some.2 rfl, ?_⟩, ⟨rfl, ?_⟩, ?_, ?_⟩
  · rw [hrequests]; exact List.mem_singleton_self _
  · rintro ⟨selection, hselection, met, hleads, hname, hdirectives⟩
    rcases eq_of_leads_lentFragment hselection hleads with rfl | rfl | rfl
    · cases hdirectives
    · simp at hname
    · simp at hname
  · rintro ⟨selection, hselection, met, hleads, -, harguments⟩
    rcases eq_of_leads_lentFragment hselection hleads with rfl | rfl | rfl <;> cases harguments
  · exact ⟨_, List.mem_cons_of_mem _ (List.mem_cons_of_mem _ List.mem_cons_self),
      .nested hlink List.mem_cons_self (.field (.leaf hid))⟩
  · rintro ⟨selection, hselection, hasks⟩
    exact not_asks_lentFragment hselection hasks

end Expansion

end SelectionRecall
