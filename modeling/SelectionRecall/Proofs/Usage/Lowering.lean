import SelectionRecall.Proofs.Document.Unfolding
import SelectionRecall.Proofs.Usage.Parts
import SelectionRecall.Proofs.Usage.Union

/-!
# Reading without limits

Reading limits how deep fragments are entered inside each other. It may as well enter them without a
limit and keep the names of those that it is inside on a stack: it pushes a name when it enters a
fragment, pops one when it leaves it, and passes over spreads of names on the stack. This is told as a
relation, one rule for each way of going on, so that a run that does not end relates to nothing. All
operations of a document share the stack. Each run ends, leaves the stack as it was, and reads what
reading with a limit reads.

A spread is read like its fragment in its place. So a document shows what it shows when it is unfolded,
spreads and all: the same usages in the same order. Fields that are emptied have to be left out, since
they would be read as leaves.

* `Schema.Lowers`, `Schema.LowersOperations`: runs with a stack.
* `Schema.lowers_iff`, `Schema.lowersOperations_iff`: each run ends, and reads what is read.
* `Schema.observeSelections_unfolds`, `Document.observations_of_unfoldsTo`: what is read when spreads
  are unfolded.
* `Document.lowers_and_unfolds`: runs end, and unfolding a document keeps what it shows.
* `Document.not_usages_eq_of_unfoldsTo_author`: a field that is emptied and kept.
-/

namespace SelectionRecall

namespace Schema

/-! ## Runs -/

/-- A run on selections inside a type. It begins with names on the stack and with a usage, and ends with
names on the stack and with what was read. -/
inductive Lowers (schema : Schema) (document : Document) :
    List String → String → Usage → List Selection → List String → Observed → Prop
  | nil {stack typeName usage} : Lowers schema document stack typeName usage [] stack ⟨usage, []⟩
  | unknownField {stack typeName usage alias? name arguments directives selections rest after observed} :
    schema.fieldType? typeName name = none →
    Lowers schema document stack typeName usage rest after observed →
    Lowers schema document stack typeName usage
      (.field alias? name arguments directives selections :: rest) after observed
  | leaf {stack typeName usage alias? name arguments directives rest after observed returned} :
    schema.fieldType? typeName name = some returned →
    Lowers schema document stack typeName
      (usage.merge (.ofField ((FieldUse.leaf name).withArguments arguments))) rest after observed →
    Lowers schema document stack typeName usage (.field alias? name arguments directives [] :: rest)
      after observed
  | composite {stack typeName usage alias? name arguments directives selections rest between after
      returned nested observed} :
    schema.fieldType? typeName name = some returned → selections ≠ [] →
    Lowers schema document stack returned .empty selections between nested →
    Lowers schema document between typeName
      (usage.merge (Observed.field returned name arguments nested).usage) rest after observed →
    Lowers schema document stack typeName usage
      (.field alias? name arguments directives selections :: rest) after
      ((Observed.field returned name arguments nested).andThen observed)
  | unknownCondition {stack typeName usage condition? directives selections rest after observed} :
    schema.hasType (condition?.getD typeName) = false →
    Lowers schema document stack typeName usage rest after observed →
    Lowers schema document stack typeName usage (.inline condition? directives selections :: rest)
      after observed
  | inline {stack typeName usage condition? directives selections rest between after inner observed} :
    schema.hasType (condition?.getD typeName) = true →
    Lowers schema document stack (condition?.getD typeName) .empty selections between inner →
    Lowers schema document between typeName
      (usage.merge (Observed.fragment schema typeName (condition?.getD typeName) inner).usage) rest
      after observed →
    Lowers schema document stack typeName usage (.inline condition? directives selections :: rest)
      after ((Observed.fragment schema typeName (condition?.getD typeName) inner).andThen observed)
  | undefined {stack typeName usage name directives rest after observed} :
    document.fragment? name = none →
    Lowers schema document stack typeName usage rest after observed →
    Lowers schema document stack typeName usage (.spread name directives :: rest) after observed
  | cyclic {stack typeName usage name directives rest after observed} :
    name ∈ stack →
    Lowers schema document stack typeName usage rest after observed →
    Lowers schema document stack typeName usage (.spread name directives :: rest) after observed
  | unknownFragment {stack typeName usage name directives rest fragment after observed} :
    document.fragment? name = some fragment → name ∉ stack →
    schema.hasType fragment.condition = false →
    Lowers schema document (name :: stack).tail typeName usage rest after observed →
    Lowers schema document stack typeName usage (.spread name directives :: rest) after observed
  | spread {stack typeName usage name directives rest fragment between after inner observed} :
    document.fragment? name = some fragment → name ∉ stack →
    schema.hasType fragment.condition = true →
    Lowers schema document (name :: stack) fragment.condition .empty fragment.selections between
      inner →
    Lowers schema document between.tail typeName
      (usage.merge (Observed.fragment schema typeName fragment.condition inner).usage) rest after
      observed →
    Lowers schema document stack typeName usage (.spread name directives :: rest) after
      ((Observed.fragment schema typeName fragment.condition inner).andThen observed)

/-- A run on operations, which ends with what was seen. Mutations, and operations without a root type,
are passed over. -/
inductive LowersOperations (schema : Schema) (document : Document) :
    List String → List OperationDefinition → List String → List (String × Usage) → Prop
  | nil {stack} : LowersOperations schema document stack [] stack []
  | mutation {stack operation rest after entries} :
    operation.type = .mutation →
    LowersOperations schema document stack rest after entries →
    LowersOperations schema document stack (operation :: rest) after entries
  | rootless {stack operation rest after entries} :
    operation.type ≠ .mutation → schema.root? operation.type = none →
    LowersOperations schema document stack rest after entries →
    LowersOperations schema document stack (operation :: rest) after entries
  | operation {stack operation rest between after root observed entries} :
    operation.type ≠ .mutation → schema.root? operation.type = some root →
    Lowers schema document stack root .empty operation.selections between observed →
    LowersOperations schema document between rest after entries →
    LowersOperations schema document stack (operation :: rest) after (observed.seen ++ entries)

variable {schema : Schema} {document : Document}

/-! ## Runs end -/

/-- **Each run ends**, with the stack as it was. -/
theorem exists_lowers {depth : Nat} {stack : List String} (h : document.Inside depth stack)
    (typeName : String) (usage : Usage) (selections : List Selection) :
    ∃ observed, schema.Lowers document stack typeName usage selections stack observed := by
  revert typeName usage
  refine @Document.unfolding_induction document
    (fun stack selections => ∀ typeName usage,
      ∃ observed, schema.Lowers document stack typeName usage selections stack observed)
    ?_ ?_ ?_ ?_ ?_ ?_ depth stack h selections
  · exact fun stack typeName usage => ⟨_, .nil⟩
  · intro stack alias? name arguments directives selections rest ihSelections ihRest typeName usage
    cases hreturned : schema.fieldType? typeName name with
    | none =>
      obtain ⟨observed, hobserved⟩ := ihRest typeName usage
      exact ⟨observed, .unknownField hreturned hobserved⟩
    | some returned =>
      cases selections with
      | nil =>
        obtain ⟨observed, hobserved⟩ := ihRest typeName _
        exact ⟨observed, .leaf hreturned hobserved⟩
      | cons selection others =>
        obtain ⟨nested, hnested⟩ := ihSelections returned .empty
        obtain ⟨observed, hobserved⟩ := ihRest typeName _
        exact ⟨_, .composite hreturned (List.cons_ne_nil _ _) hnested hobserved⟩
  · intro stack condition? directives selections rest ihSelections ihRest typeName usage
    cases hknown : schema.hasType (condition?.getD typeName) with
    | false =>
      obtain ⟨observed, hobserved⟩ := ihRest typeName usage
      exact ⟨observed, .unknownCondition hknown hobserved⟩
    | true =>
      obtain ⟨inner, hinner⟩ := ihSelections (condition?.getD typeName) .empty
      obtain ⟨observed, hobserved⟩ := ihRest typeName _
      exact ⟨_, .inline hknown hinner hobserved⟩
  · intro stack name directives rest hnone ihRest typeName usage
    obtain ⟨observed, hobserved⟩ := ihRest typeName usage
    exact ⟨observed, .undefined hnone hobserved⟩
  · intro stack name directives rest hmem ihRest typeName usage
    obtain ⟨observed, hobserved⟩ := ihRest typeName usage
    exact ⟨observed, .cyclic hmem hobserved⟩
  · intro stack name directives rest fragment hfragment hnew ihInner ihRest typeName usage
    cases hknown : schema.hasType fragment.condition with
    | false =>
      obtain ⟨observed, hobserved⟩ := ihRest typeName usage
      exact ⟨observed, .unknownFragment hfragment hnew hknown hobserved⟩
    | true =>
      obtain ⟨inner, hinner⟩ := ihInner fragment.condition .empty
      obtain ⟨observed, hobserved⟩ := ihRest typeName _
      exact ⟨_, .spread hfragment hnew hknown hinner hobserved⟩

/-- What is read in a selection comes before what is read in those behind it. -/
theorem observeSelections_cons (spread : SpreadReader) (typeName : String) (usage : Usage)
    (selection : Selection) (rest : List Selection) :
    schema.observeSelections spread typeName usage (selection :: rest) =
      (schema.observeSelection spread typeName selection).andThen
        (schema.observeSelections spread typeName
          (usage.merge (schema.observeSelection spread typeName selection).usage) rest) := by
  rw [observeSelections]

/-- A selection in which nothing is read is passed over. -/
theorem observeSelections_cons_of_nothing {spread : SpreadReader} {typeName : String}
    {selection : Selection} (h : schema.observeSelection spread typeName selection = .nothing)
    (usage : Usage) (rest : List Selection) :
    schema.observeSelections spread typeName usage (selection :: rest) =
      schema.observeSelections spread typeName usage rest := by
  rw [observeSelections_cons, h]
  show Observed.nothing.andThen (schema.observeSelections spread typeName (usage.merge .empty) rest) = _
  rw [Usage.merge_empty]
  rfl

/-- In a spread of a fragment that is being read nothing is read. -/
theorem spreadReader_of_mem {fragment? : String → Option FragmentDefinition} {depth : Nat}
    {around : List String} {name : String} (h : name ∈ around) (typeName : String) :
    schema.spreadReader fragment? depth around typeName name = .nothing := by
  cases depth with
  | zero => rfl
  | succ depth =>
    rw [spreadReader]
    cases fragment? name <;> simp [h]

theorem spreadReader_of_fragment?_eq_none {fragment? : String → Option FragmentDefinition} {depth : Nat}
    {around : List String} {name : String} (h : fragment? name = none) (typeName : String) :
    schema.spreadReader fragment? depth around typeName name = .nothing := by
  cases depth with
  | zero => rfl
  | succ depth => rw [spreadReader, h]

/-- **A run reads what is read** with a limit, and leaves the stack as it was. -/
theorem eq_of_lowers {stack after : List String} {typeName : String} {usage : Usage}
    {selections : List Selection} {observed : Observed}
    (hrun : schema.Lowers document stack typeName usage selections after observed) {depth : Nat}
    (h : document.Inside depth stack) :
    after = stack ∧ observed =
      schema.observeSelections (schema.spreadReader document.fragment? depth stack) typeName usage
        selections := by
  -- the limit varies, as it is one less inside a fragment
  induction hrun generalizing depth with
  | nil => exact ⟨rfl, by rw [observeSelections]⟩
  | unknownField hreturned _ ih =>
    rw [observeSelections_cons_of_nothing (by rw [observeSelection, hreturned])]
    exact ih h
  | leaf hreturned _ ih =>
    obtain ⟨rfl, rfl⟩ := ih h
    refine ⟨rfl, ?_⟩
    rw [observeSelections_cons, observeSelection, hreturned]
    rfl
  | composite hreturned hne _ _ ihNested ih =>
    obtain ⟨rfl, rfl⟩ := ihNested h
    obtain ⟨rfl, rfl⟩ := ih h
    refine ⟨rfl, ?_⟩
    rw [observeSelections_cons, observeSelection, hreturned]
    simp [List.isEmpty_iff, hne]
  | unknownCondition hunknown _ ih =>
    rw [observeSelections_cons_of_nothing (by rw [observeSelection]; simp [hunknown])]
    exact ih h
  | inline hknown _ _ ihInner ih =>
    obtain ⟨rfl, rfl⟩ := ihInner h
    obtain ⟨rfl, rfl⟩ := ih h
    refine ⟨rfl, ?_⟩
    rw [observeSelections_cons, observeSelection]
    simp [hknown]
  | undefined hnone _ ih =>
    rw [observeSelections_cons_of_nothing
      (by rw [observeSelection]; exact spreadReader_of_fragment?_eq_none hnone _)]
    exact ih h
  | cyclic hmem _ ih =>
    rw [observeSelections_cons_of_nothing (by rw [observeSelection]; exact spreadReader_of_mem hmem _)]
    exact ih h
  | unknownFragment hfragment hnew hunknown _ ih =>
    obtain ⟨left, rfl, -⟩ := h.enter hfragment hnew
    rw [observeSelections_cons_of_nothing
      (by rw [observeSelection, spreadReader, hfragment]; simp [hnew, hunknown])]
    exact ih h
  | spread hfragment hnew hknown _ _ ihInner ih =>
    obtain ⟨left, rfl, hinside⟩ := h.enter hfragment hnew
    -- the stack is restored, so that what follows is read around the same fragments
    obtain ⟨rfl, rfl⟩ := ihInner hinside
    obtain ⟨rfl, rfl⟩ := ih h
    refine ⟨rfl, ?_⟩
    rw [observeSelections_cons, observeSelection, spreadReader, hfragment]
    simp [hnew, hknown]

/-- **Each run ends, and reads what is read** with a limit. -/
theorem lowers_iff {depth : Nat} {stack after : List String} (h : document.Inside depth stack)
    {typeName : String} {usage : Usage} {selections : List Selection} {observed : Observed} :
    schema.Lowers document stack typeName usage selections after observed ↔
      after = stack ∧ observed =
        schema.observeSelections (schema.spreadReader document.fragment? depth stack) typeName usage
          selections := by
  constructor
  · exact fun hrun => eq_of_lowers hrun h
  · rintro ⟨rfl, rfl⟩
    obtain ⟨observed, hrun⟩ := exists_lowers h typeName usage selections
    rw [← (eq_of_lowers hrun h).2]
    exact hrun

/-- A run on operations sees what they show, one after the other, though they share the stack. -/
theorem eq_of_lowersOperations {stack after : List String} {operations : List OperationDefinition}
    {entries : List (String × Usage)}
    (hrun : schema.LowersOperations document stack operations after entries) (hstack : stack = []) :
    after = [] ∧ entries = operations.flatMap (document.operationObservations schema) := by
  induction hrun with
  | nil => exact ⟨hstack, rfl⟩
  | mutation hmutation _ ih =>
    obtain ⟨rfl, rfl⟩ := ih hstack
    refine ⟨rfl, ?_⟩
    rw [List.flatMap_cons, Document.operationObservations, if_pos hmutation, List.nil_append]
  | rootless hquery hroot _ ih =>
    obtain ⟨rfl, rfl⟩ := ih hstack
    refine ⟨rfl, ?_⟩
    rw [List.flatMap_cons, Document.operationObservations, if_neg hquery, hroot, List.nil_append]
  | operation hquery hroot hobserved _ ih =>
    subst hstack
    obtain ⟨rfl, rfl⟩ := (lowers_iff document.inside_nil).1 hobserved
    obtain ⟨rfl, rfl⟩ := ih rfl
    refine ⟨rfl, ?_⟩
    rw [List.flatMap_cons, Document.operationObservations, if_neg hquery, hroot]
    rfl

/-- **Each run on the operations of a document ends**, with nothing on the stack, and sees what the
document shows. -/
theorem lowersOperations_iff {after : List String} {entries : List (String × Usage)} :
    schema.LowersOperations document [] document.operations after entries ↔
      after = [] ∧ entries = document.observations schema := by
  have hexists : ∀ operations, ∃ entries,
      schema.LowersOperations document [] operations [] entries := by
    intro operations
    induction operations with
    | nil => exact ⟨[], .nil⟩
    | cons operation rest ih =>
      obtain ⟨entries, hentries⟩ := ih
      by_cases hmutation : operation.type = .mutation
      · exact ⟨entries, .mutation hmutation hentries⟩
      · cases hroot : schema.root? operation.type with
        | none => exact ⟨entries, .rootless hmutation hroot hentries⟩
        | some root =>
          have hrun : schema.Lowers document [] root .empty operation.selections []
              (schema.observe document root operation.selections) :=
            (lowers_iff document.inside_nil).2 ⟨rfl, rfl⟩
          exact ⟨_, .operation hmutation hroot hrun hentries⟩
  constructor
  · exact fun hrun => eq_of_lowersOperations hrun rfl
  · rintro ⟨rfl, rfl⟩
    obtain ⟨entries, hrun⟩ := hexists document.operations
    have hentries := (eq_of_lowersOperations hrun rfl).2
    rw [Document.observations, ← hentries]
    exact hrun

/-! ## Spreads in place -/

/-- **Selections are read like what they unfold to**, if fields that are emptied are left out. -/
theorem observeSelections_unfolds {around : List String} {selections result : List Selection}
    (hunfolds : document.Unfolds true around selections result) {depth : Nat}
    (h : document.Inside depth around) (typeName : String) (usage : Usage) :
    schema.observeSelections (schema.spreadReader document.fragment? depth around) typeName usage
        selections =
      schema.observeSelections noSpread typeName usage result := by
  induction hunfolds generalizing depth typeName usage with
  | nil => rw [observeSelections, observeSelections]
  | @field around alias? name arguments directives selections rest inner result hinner _ hkept ihInner
      ihResult =>
    -- reading tells leaves from others by whether they have selections, before and after alike
    have hempty : selections.isEmpty = inner.isEmpty := by
      rw [Bool.eq_iff_iff, List.isEmpty_iff, List.isEmpty_iff]
      refine ⟨?_, hkept rfl⟩
      rintro rfl
      cases hinner; rfl
    have hsame : schema.observeSelection (schema.spreadReader document.fragment? depth around) typeName
          (.field alias? name arguments directives selections) =
        schema.observeSelection noSpread typeName (.field alias? name arguments directives inner) := by
      rw [observeSelection, observeSelection, hempty]
      simp only [ihInner h]
    rw [observeSelections_cons, observeSelections_cons, hsame, ihResult h]
  | @emptied around alias? name arguments directives selections rest result _ hne _ _ ihInner ihResult =>
    have hnothing : schema.observeSelection (schema.spreadReader document.fragment? depth around)
        typeName (.field alias? name arguments directives selections) = .nothing := by
      rw [observeSelection]
      cases schema.fieldType? typeName name with
      | none => rfl
      | some returned =>
        -- nothing is read beneath the field, which is skipped then
        simp only [List.isEmpty_iff, hne, if_false, ihInner h, observeSelections]
        rfl
    rw [observeSelections_cons_of_nothing hnothing, ihResult h]
  | inline _ _ ihInner ihResult =>
    rw [observeSelections_cons, observeSelections_cons, observeSelection, observeSelection, ihInner h,
      ihResult h]
  | undefined hnone _ ihResult =>
    rw [observeSelections_cons_of_nothing
      (by rw [observeSelection]; exact spreadReader_of_fragment?_eq_none hnone _)]
    exact ihResult h typeName usage
  | cyclic hmem _ ihResult =>
    rw [observeSelections_cons_of_nothing (by rw [observeSelection]; exact spreadReader_of_mem hmem _)]
    exact ihResult h typeName usage
  | spread hfragment hnew _ _ ihInner ihResult =>
    obtain ⟨left, rfl, hinside⟩ := h.enter hfragment hnew
    rw [observeSelections_cons, observeSelections_cons, observeSelection, observeSelection, spreadReader,
      hfragment, ihResult h]
    simp only [hnew, if_false, ihInner hinside, Option.getD_some]

end Schema

namespace Document

variable {schema : Schema} {document : Document}

/-- **A document shows what it shows when it is unfolded.** -/
theorem observations_of_unfoldsTo {other : Document} (h : document.UnfoldsTo true other) :
    other.observations schema = document.observations schema := by
  have hfragments := h.fragments_eq_nil
  have hoperation : ∀ before after : OperationDefinition, after.head? = before.head? →
      document.Unfolds true [] before.selections after.selections →
        other.operationObservations schema after = document.operationObservations schema before := by
    intro before after hhead hunfolds
    have htype : after.type = before.type := by
      unfold OperationDefinition.type
      rw [hhead]
    have hobserve : ∀ root, schema.observe other root after.selections =
        schema.observe document root before.selections := by
      intro root
      unfold Schema.observe
      rw [Schema.observeSelections_unfolds hunfolds document.inside_nil, hfragments]
      rfl
    unfold operationObservations
    simp only [htype, hobserve]
  have hoperations := h.operations
  unfold observations
  generalize document.operations = before at hoperations
  generalize other.operations = after at hoperations
  induction hoperations with
  | nil => rfl
  | cons hfirst _ ih =>
    rw [List.flatMap_cons, List.flatMap_cons, ih, hoperation _ _ hfirst.1 hfirst.2]

/-- **Spreads are read like their fragments in place.** For every schema and every document, however its
fragments spread each other,

* reading without a limit ends, with nothing on the stack that all operations share, and sees what the
  document shows;
* there is one document that the document unfolds to, fields that are emptied being left out. It has no
  fragments and no spreads, and shows the same usages, down to the order of types, fields and parts and
  to arguments. -/
theorem lowers_and_unfolds (schema : Schema) (document : Document) :
    (∀ after entries, schema.LowersOperations document [] document.operations after entries ↔
        after = [] ∧ entries = document.observations schema) ∧
      ∃ unfolded, (∀ other, document.UnfoldsTo true other ↔ other = unfolded) ∧
        unfolded.fragments = [] ∧
        (∀ definition ∈ unfolded.definitions, Selection.spreadsOf definition.selections = []) ∧
        unfolded.usages schema = document.usages schema := by
  refine ⟨fun _ _ => Schema.lowersOperations_iff, ?_⟩
  obtain ⟨unfolded, hunfolds, hunique⟩ := document.existsUnique_unfoldsTo true
  refine ⟨unfolded, ?_, hunfolds.fragments_eq_nil, hunfolds.spreadsOf_eq_nil, ?_⟩
  · intro other
    refine ⟨hunique other, ?_⟩
    rintro rfl
    exact hunfolds
  · unfold usages
    rw [observations_of_unfoldsTo hunfolds]

/-- Todos with their authors. -/
def authorSchema : Schema :=
  ⟨"Query", none, none,
    [⟨"Query", .object, [("todo", "Todo")], []⟩,
      ⟨"Todo", .object, [("id", "ID"), ("author", "User")], []⟩,
      ⟨"User", .object, [("name", "String")], []⟩, ⟨"ID", .scalar, [], []⟩,
      ⟨"String", .scalar, [], []⟩]⟩

/-- A query for a todo with these selections of its author. -/
def authorQuery (ofAuthor : List Selection) : Document :=
  ⟨[.operation ⟨none, [.field none "todo" [] []
    [.field none "author" [] [] ofAuthor, .field none "id" [] [] []]]⟩]⟩

/-- **A field that is emptied and kept.** All that is selected of the author is a fragment that is not
defined. Nothing is left of the author then, and a todo shows its `id` only. If only the spread is left
out, the author is a leaf, and a todo shows it too. -/
theorem not_usages_eq_of_unfoldsTo_author :
    let document := authorQuery [.spread "Missing" []]
    document.fragmentNames.Nodup ∧ document.UnfoldsTo false (authorQuery []) ∧
      ((document.usages authorSchema).get? "Todo").map Usage.fieldNames = some ["id"] ∧
      (((authorQuery []).usages authorSchema).get? "Todo").map Usage.fieldNames =
        some ["author", "id"] ∧
      ¬ ∀ other, document.UnfoldsTo false other →
        other.usages authorSchema = document.usages authorSchema := by
  intro document
  have hunfolds : document.UnfoldsTo false (authorQuery []) := by
    refine ⟨(authorQuery []).operations, rfl, .cons ⟨rfl, ?_⟩ .nil⟩
    refine .field (.field (.undefined rfl .nil) (.field .nil .nil ?_) ?_) .nil ?_
    · exact fun _ _ => rfl
    · intro hfalse; cases hfalse
    · intro hfalse; cases hfalse
  have hnames : ((document.usages authorSchema).get? "Todo").map Usage.fieldNames = some ["id"] := by
    decide +kernel
  have hkept : (((authorQuery []).usages authorSchema).get? "Todo").map Usage.fieldNames =
      some ["author", "id"] := by decide +kernel
  refine ⟨by decide, hunfolds, hnames, hkept, ?_⟩
  intro h
  rw [h _ hunfolds, hnames] at hkept
  simp at hkept

end Document

end SelectionRecall
