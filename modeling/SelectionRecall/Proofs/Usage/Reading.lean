import SelectionRecall.Proofs.Usage.Merge
import SelectionRecall.Usage.Observation

/-!
# What reading keeps

Whatever is read in a document is put together in five ways: from nothing, from a leaf, from what is
beneath a field, from what is in a fragment, and from two readings side by side. A property that each
of them keeps holds of all that is read.

* `Observed.union`: two readings side by side.
* `Schema.usage_observeSelections`: what is read in selections is united in their order.
* `Schema.KeptByReading`: each way of reading keeps a property.
* `Schema.KeptByReading.of_steps`: it is enough to look at each step.
* `Schema.KeptByReading.observe`: what is read in a selection set has the property.
* `Document.mem_observations`: what a document shows is what is seen in its operations.
* `UsageTable.forall_mem_mergeEntries`, `UsageTable.forall_mem_usages`: what holds of all usages that
  are added to a table, and of all that a document shows.
-/

namespace SelectionRecall

/-- Two readings inside one type side by side. -/
def Observed.union (first second : Observed) : Observed :=
  ⟨first.usage.merge second.usage, first.seen ++ second.seen⟩

namespace Schema

/-- **Selections are read one by one**, and what they hold is united in their order. -/
theorem usage_observeSelections (schema : Schema) (spread : SpreadReader) (typeName : String)
    (before : Usage) (selections : List Selection) :
    (schema.observeSelections spread typeName before selections).usage =
      (selections.map fun selection =>
        (schema.observeSelection spread typeName selection).usage).foldl Usage.merge before := by
  induction selections generalizing before with
  | nil => rw [observeSelections]; rfl
  | cons selection rest ih => rw [observeSelections, List.map_cons, List.foldl_cons, ← ih]; rfl

/-- Each way of reading keeps a property of what is read inside a type. -/
structure KeptByReading (schema : Schema) (Kept : String → Observed → Prop) : Prop where
  nothing : ∀ typeName, Kept typeName .nothing
  leaf : ∀ {typeName name returned} (arguments : Arguments),
    schema.fieldType? typeName name = some returned →
    Kept typeName ⟨.ofField ((FieldUse.leaf name).withArguments arguments), []⟩
  field : ∀ {typeName name returned nested} (arguments : Arguments),
    schema.fieldType? typeName name = some returned → Kept returned nested →
    Kept typeName (.field returned name arguments nested)
  fragment : ∀ {typeName condition inner},
    schema.hasType condition = true → Kept condition inner →
    Kept typeName (.fragment schema typeName condition inner)
  union : ∀ {typeName first second},
    Kept typeName first → Kept typeName second → Kept typeName (first.union second)

namespace KeptByReading

variable {schema : Schema} {Kept : String → Observed → Prop}

/-- **The ways of reading one by one.** A field or fragment beneath which nothing is left is skipped,
a field is taken in, and a fragment on another type is taken in by an implementer, or as a part. -/
theorem of_steps (nothing : ∀ typeName, Kept typeName .nothing)
    (leaf : ∀ {typeName name returned} (arguments : Arguments),
      schema.fieldType? typeName name = some returned →
      Kept typeName ⟨.ofField ((FieldUse.leaf name).withArguments arguments), []⟩)
    (skipped : ∀ {other inner} (typeName : String),
      Kept other inner → Kept typeName ⟨.empty, inner.seen⟩)
    (nested : ∀ {typeName name returned inner} (arguments : Arguments),
      schema.fieldType? typeName name = some returned → Kept returned inner →
      Kept typeName ⟨.ofField ((FieldUse.nested name inner.usage).withArguments arguments),
        inner.seen ++ [(returned, inner.usage)]⟩)
    (implemented : ∀ {typeName condition inner},
      typeName ∈ schema.implementers condition → Kept condition inner →
      Kept typeName ⟨inner.usage, inner.seen ++ [(condition, inner.usage)]⟩)
    (part : ∀ {condition inner} (typeName : String),
      schema.hasType condition = true → Kept condition inner →
      Kept typeName ⟨.ofPart condition inner.usage, inner.seen ++ [(condition, inner.usage)]⟩)
    (union : ∀ {typeName first second},
      Kept typeName first → Kept typeName second → Kept typeName (first.union second)) :
    schema.KeptByReading Kept where
  nothing := nothing
  leaf := leaf
  field {typeName _ _ _} arguments hreturned hinner := by
    unfold Observed.field
    split
    · exact skipped typeName hinner
    · exact nested arguments hreturned hinner
  fragment {typeName _ _} hknown hinner := by
    unfold Observed.fragment
    split
    · exact skipped typeName hinner
    · split
      · rename_i hsame
        exact hsame ▸ hinner
      · split
        · rename_i himplements
          exact implemented himplements hinner
        · exact part typeName hknown hinner
  union := union

mutual

/-- What is read in a selection has the property, if what is read in spreads does. -/
theorem observeSelection (h : schema.KeptByReading Kept) {spread : SpreadReader}
    (hspread : ∀ typeName name, Kept typeName (spread typeName name)) (typeName : String)
    (selection : Selection) :
    Kept typeName (schema.observeSelection spread typeName selection) := by
  cases selection with
  | field alias? name arguments directives selections =>
    rw [Schema.observeSelection]
    cases hfield : schema.fieldType? typeName name with
    | none => exact h.nothing typeName
    | some returned =>
      dsimp only
      split
      · exact h.leaf arguments hfield
      · have hnested := observeSelections h hspread returned (h.nothing returned) selections
        exact h.field arguments hfield hnested
  | inline condition? directives selections =>
    rw [Schema.observeSelection]
    split
    · rename_i hknown
      have hinner :=
        observeSelections h hspread (condition?.getD typeName) (h.nothing _) selections
      exact h.fragment hknown hinner
    · exact h.nothing typeName
  | spread name directives =>
    rw [Schema.observeSelection]
    exact hspread typeName name

/-- So does what was read before together with what is read in selections. -/
theorem observeSelections (h : schema.KeptByReading Kept) {spread : SpreadReader}
    (hspread : ∀ typeName name, Kept typeName (spread typeName name)) (typeName : String)
    {before : Observed} (hbefore : Kept typeName before) (selections : List Selection) :
    Kept typeName
      ⟨(schema.observeSelections spread typeName before.usage selections).usage,
        before.seen ++ (schema.observeSelections spread typeName before.usage selections).seen⟩ := by
  cases selections with
  | nil =>
    rw [Schema.observeSelections, List.append_nil]
    exact hbefore
  | cons selection rest =>
    have hfirst := observeSelection h hspread typeName selection
    have hrest := observeSelections h hspread typeName (h.union hbefore hfirst) rest
    rw [Schema.observeSelections]
    unfold Observed.union at hrest
    rw [List.append_assoc] at hrest
    exact hrest

end

/-- What is read in a spread has the property. -/
theorem spreadReader (h : schema.KeptByReading Kept)
    (fragment? : String → Option FragmentDefinition) (depth : Nat) (reading : List String)
    (typeName name : String) :
    Kept typeName (schema.spreadReader fragment? depth reading typeName name) := by
  induction depth generalizing reading typeName name with
  | zero => exact h.nothing typeName
  | succ depth ih =>
    unfold Schema.spreadReader
    split
    · exact h.nothing typeName
    · rename_i fragment _
      split
      · exact h.nothing typeName
      · split
        · rename_i hknown
          have hinner := h.observeSelections (ih (name :: reading)) fragment.condition
            (h.nothing fragment.condition) fragment.selections
          exact h.fragment hknown hinner
        · exact h.nothing typeName

/-- **What is read in a selection set has the property.** -/
theorem observe (h : schema.KeptByReading Kept) (document : Document) (typeName : String)
    (selections : List Selection) : Kept typeName (schema.observe document typeName selections) :=
  h.observeSelections (h.spreadReader document.fragment? _ []) typeName (h.nothing typeName)
    selections

end KeptByReading

end Schema

/-! ## What documents show -/

/-- **What a document shows** is what is seen in its queries and subscriptions. -/
theorem Document.mem_observations {document : Document} {schema : Schema} {entry : String × Usage} :
    entry ∈ document.observations schema ↔
      ∃ operation ∈ document.operations, operation.type ≠ .mutation ∧
        ∃ root, schema.root? operation.type = some root ∧
          entry ∈ (schema.observe document root operation.selections).seen := by
  unfold observations
  rw [List.mem_flatMap]
  refine exists_congr fun operation => and_congr_right fun _ => ?_
  unfold operationObservations
  by_cases hmutation : operation.type = .mutation
  · simp [hmutation]
  · cases hroot : schema.root? operation.type <;> simp [hmutation]

namespace UsageTable

variable {Fits : String → Usage → Prop}

/-- A table takes entries in as a usage takes in parts. -/
theorem entries_mergeEntries (table : UsageTable) (entries : List (String × Usage)) :
    (table.mergeEntries entries).entries = Usage.mergeParts table.entries entries := by
  induction entries generalizing table with
  | nil => rw [Usage.mergeParts]; rfl
  | cons entry rest ih =>
    rw [Usage.mergeParts]
    exact ih (table.merge entry.1 entry.2)

/-- What unions keep, and what holds of all usages of a table and of all that are added to it, holds
of all usages afterwards. -/
theorem forall_mem_mergeEntries
    (hmerge : ∀ {typeName old new}, Fits typeName old → Fits typeName new →
      Fits typeName (old.merge new))
    {table : UsageTable} (h : ∀ entry ∈ table.entries, Fits entry.1 entry.2)
    {entries : List (String × Usage)} (hentries : ∀ entry ∈ entries, Fits entry.1 entry.2) :
    ∀ entry ∈ (table.mergeEntries entries).entries, Fits entry.1 entry.2 := by
  rw [entries_mergeEntries]
  refine Usage.forall_mem_mergeParts ?_ h hentries
  intro entry hentry known hname hknown
  have hnew := hentries entry hentry
  rw [← hname] at hnew
  exact hmerge hknown hnew

/-- What holds of a union just if it holds of both usages, holds of all usages of a table after entries
are added just if it held of all before and holds of all that are added. -/
theorem forall_mem_mergeEntries_iff
    (hmerge : ∀ {typeName old new},
      Fits typeName (old.merge new) ↔ Fits typeName old ∧ Fits typeName new)
    {table : UsageTable} {entries : List (String × Usage)} :
    (∀ entry ∈ (table.mergeEntries entries).entries, Fits entry.1 entry.2) ↔
      (∀ entry ∈ table.entries, Fits entry.1 entry.2) ∧ ∀ entry ∈ entries, Fits entry.1 entry.2 := by
  rw [entries_mergeEntries]
  refine Usage.forall_mem_mergeParts_iff ?_
  intro entry _ known hname
  rw [← hname]
  exact hmerge

/-- What unions keep, and what holds of all that is seen in a document, holds of all usages that it
shows. -/
theorem forall_mem_usages
    (hmerge : ∀ {typeName old new}, Fits typeName old → Fits typeName new →
      Fits typeName (old.merge new))
    {document : Document} {schema : Schema}
    (hseen : ∀ typeName selections,
      ∀ entry ∈ (schema.observe document typeName selections).seen, Fits entry.1 entry.2) :
    ∀ entry ∈ (document.usages schema).entries, Fits entry.1 entry.2 := by
  refine forall_mem_mergeEntries hmerge (by simp [empty]) ?_
  intro entry hentry
  obtain ⟨operation, -, -, root, -, hmem⟩ := Document.mem_observations.1 hentry
  exact hseen root operation.selections entry hmem

end UsageTable

end SelectionRecall
