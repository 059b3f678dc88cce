import SelectionRecall.Proofs.Session.Growth
import SelectionRecall.Proofs.Usage.Union

/-!
# Documents in parts

A document may be split into one part for each operation, each with all its fragments. Reading enters
what it sees in one table for the whole document, in the order of sight. The parts have a table each,
and these are united afterwards, so that entries are united with each other before they are united with
what was there. As unions are associative this makes no difference, not even to the order.

* `Document.SplitsInto`, `Document.split`: the parts of a document.
* `Document.observations_of_splitsInto`: the parts show what the document shows, in the same order.
* `UsageTable.learnAll_eq_mergeEntries`: documents teach the entries that they show.
* `Session.learn_splitsInto`: a document teaches what its parts teach.
* `Session.learn_splitsInto_notes`: two queries that share a fragment.
-/

namespace SelectionRecall

namespace Document

/-! ## Parts -/

/-- Each part has one operation of the document and all its fragments, wherever these stand in it. -/
def SplitsInto (document : Document) (parts : List Document) : Prop :=
  parts.map operations = document.operations.map (fun operation => [operation]) ∧
    ∀ part ∈ parts, part.fragments = document.fragments

/-- The operation with the fragments of the document. -/
def only (document : Document) (operation : OperationDefinition) : Document :=
  ⟨.operation operation :: document.fragments.map .fragment⟩

/-- The parts of the document, each with its operation in front. -/
def split (document : Document) : List Document := document.operations.map document.only

@[simp]
theorem operations_only (document : Document) (operation : OperationDefinition) :
    (document.only operation).operations = [operation] := by
  have hsome : Definition.operation? (.operation operation) = some operation := rfl
  rw [operations, only, List.filterMap_cons_some hsome, List.filterMap_map]
  exact congrArg _ (List.filterMap_eq_nil_iff.2 fun _ _ => rfl)

@[simp]
theorem fragments_only (document : Document) (operation : OperationDefinition) :
    (document.only operation).fragments = document.fragments := by
  have hnone : Definition.fragment? (.operation operation) = none := rfl
  rw [fragments, only, List.filterMap_cons_none hnone, List.filterMap_map]
  exact List.filterMap_some

theorem splitsInto_split (document : Document) : document.SplitsInto document.split := by
  constructor
  · unfold split
    rw [List.map_map]
    exact List.map_congr_left fun operation _ => document.operations_only operation
  · intro part hpart
    obtain ⟨operation, -, rfl⟩ := List.mem_map.1 hpart
    exact document.fragments_only operation

/-! ## What parts show -/

variable {schema : Schema}

/-- What an operation shows depends on the document only through its fragments. -/
theorem operationObservations_congr {document other : Document}
    (h : document.fragments = other.fragments) (operation : OperationDefinition) :
    document.operationObservations schema operation = other.operationObservations schema operation := by
  have hfragment : document.fragment? = other.fragment? := by
    funext name
    unfold fragment?
    rw [h]
  unfold operationObservations Schema.observe
  rw [hfragment, h]

/-- **The parts of a document show what it shows**, in the same order. -/
theorem observations_of_splitsInto {document : Document} {parts : List Document}
    (h : document.SplitsInto parts) :
    parts.flatMap (observations · schema) = document.observations schema := by
  obtain ⟨hoperations, hfragments⟩ := h
  calc parts.flatMap (observations · schema)
    _ = parts.flatMap fun part =>
          part.operations.flatMap (document.operationObservations schema) := by
        refine List.flatMap_congr fun part hpart => ?_
        unfold observations
        exact List.flatMap_congr fun operation _ =>
          operationObservations_congr (hfragments part hpart) operation
    _ = (parts.map operations).flatten.flatMap (document.operationObservations schema) := by
        rw [← List.flatMap_def, List.flatMap_assoc]
    _ = document.observations schema := by
        rw [hoperations, ← List.flatMap_def, List.flatMap_singleton', observations]

end Document

namespace UsageTable

/-- All entries of tables in one, from the first table to the last. -/
def unite (tables : List UsageTable) : UsageTable := tables.foldl mergeAll .empty

theorem mergeEntries_append (table : UsageTable) (first second : List (String × Usage)) :
    table.mergeEntries (first ++ second) = (table.mergeEntries first).mergeEntries second :=
  List.foldl_append

variable {schema : Schema}

/-- Entries may be united with each other before they are united with those of a table. -/
theorem mergeAll_empty_mergeEntries (table : UsageTable) {entries : List (String × Usage)}
    (hentries : ∀ entry ∈ entries, entry.2.Distinct) :
    table.mergeAll (empty.mergeEntries entries) = table.mergeEntries entries :=
  mergeAll_mergeEntries distinct_empty hentries table

/-- **Documents teach the entries that they show**, one after the other. -/
theorem learnAll_eq_mergeEntries (table : UsageTable) (schema : Schema) (documents : List Document) :
    table.learnAll schema documents =
      table.mergeEntries (documents.flatMap (Document.observations · schema)) := by
  induction documents generalizing table with
  | nil => rfl
  | cons document rest ih =>
    have hlearn : table.learnAll schema (document :: rest) =
        (table.mergeAll (document.usages schema)).learnAll schema rest := rfl
    have hown : table.mergeAll (document.usages schema) =
        table.mergeEntries (document.observations schema) :=
      table.mergeAll_empty_mergeEntries fun _ => Document.distinct_of_mem_observations
    rw [hlearn, ih, hown, List.flatMap_cons, mergeEntries_append]

/-- What documents teach may be united before it is united with a table. -/
theorem mergeAll_unite (table : UsageTable) (schema : Schema) (documents : List Document) :
    table.mergeAll (unite (documents.map (Document.usages · schema))) =
      table.learnAll schema documents := by
  have hunite : unite (documents.map (Document.usages · schema)) =
      empty.learnAll schema documents := List.foldl_map
  rw [hunite, learnAll_eq_mergeEntries, learnAll_eq_mergeEntries]
  refine table.mergeAll_empty_mergeEntries fun entry hentry => ?_
  obtain ⟨document, -, hshown⟩ := List.mem_flatMap.1 hentry
  exact Document.distinct_of_mem_observations hshown

/-- The parts of a document teach what it teaches. -/
theorem learnAll_of_splitsInto {document : Document} {parts : List Document}
    (h : document.SplitsInto parts) (table : UsageTable) (schema : Schema) :
    table.learnAll schema parts = table.learnAll schema [document] := by
  rw [learnAll_eq_mergeEntries, learnAll_eq_mergeEntries, Document.observations_of_splitsInto h,
    List.flatMap_singleton]

end UsageTable

namespace Session

/-- Learning documents one by one changes the table, and nothing else. -/
theorem foldl_learn (session : Session) (documents : List Document) :
    documents.foldl learn session =
      { session with table := session.table.learnAll session.schema documents } := by
  induction documents generalizing session with
  | nil => rfl
  | cons document rest ih => rw [List.foldl_cons, ih]; rfl

/-- **A document teaches what its parts teach**, down to the order of types, fields and parts and to
arguments. Let a document be split into parts, one for each operation. Then for every schema the usages
of the document are those of the parts united in order. And for every session, whatever it has learned
before, it is the same to learn the document, to learn the parts one by one, or to start again from its
table and the united usages of the parts. -/
theorem learn_splitsInto {document : Document} {parts : List Document}
    (h : document.SplitsInto parts) :
    (∀ schema, document.usages schema =
        UsageTable.unite (parts.map (Document.usages · schema))) ∧
      ∀ session : Session,
        parts.foldl learn session = session.learn document ∧
        (start session.schema session.options (session.table.mergeAll
          (UsageTable.unite (parts.map (Document.usages · session.schema))))).table =
            (session.learn document).table := by
  refine ⟨?_, ?_⟩
  · intro schema
    have hunite : UsageTable.unite (parts.map (Document.usages · schema)) =
        UsageTable.empty.learnAll schema parts := List.foldl_map
    rw [hunite, UsageTable.learnAll_eq_mergeEntries, Document.observations_of_splitsInto h]
    rfl
  · intro session
    refine ⟨?_, ?_⟩
    · rw [foldl_learn, UsageTable.learnAll_of_splitsInto h]; rfl
    · exact (session.table.mergeAll_unite session.schema parts).trans
        (UsageTable.learnAll_of_splitsInto h session.table session.schema)

/-- A query for a note whose selections end in these. -/
def sharingQuery (selections : List Selection) : OperationDefinition :=
  ⟨none, [.field none "note" [] [] (.spread "Whole" [] :: selections)]⟩

/-- The fragment that such queries share. -/
def sharedFragment : FragmentDefinition :=
  ⟨"Whole", "Note", [],
    [.field none "author" [] [] [.field none "name" [] [] []], .field none "id" [] [] []]⟩

/-- Two queries with the fragment between them. -/
def sharingDocument : Document :=
  ⟨[.operation (sharingQuery []), .fragment sharedFragment,
    .operation (sharingQuery [.field none "text" [] [] [],
      .field none "author" [] [] [.field none "id" [] [] []]])]⟩

/-- The two queries apart, with the fragment behind one of them and before the other. -/
def sharingParts : List Document :=
  [⟨[.operation (sharingQuery []), .fragment sharedFragment]⟩,
    ⟨[.fragment sharedFragment,
      .operation (sharingQuery [.field none "text" [] [] [],
        .field none "author" [] [] [.field none "id" [] [] []]])]⟩]

/-- **Two queries that share a fragment** teach together what they teach one by one, and a session that
has learned of notes before still has the names in it first. -/
theorem learn_splitsInto_notes :
    let merged := UsageTable.unite (sharingParts.map (Document.usages · noteSchema))
    sharingDocument.SplitsInto sharingParts ∧
      sharingDocument.usages noteSchema = merged ∧
      (merged.get? "Note").map Usage.fieldNames = some ["author", "id", "text"] ∧
      sharingParts.foldl learn noteSession = noteSession.learn sharingDocument ∧
      (start noteSchema {} (noteSession.table.mergeAll merged)).table =
        (noteSession.learn sharingDocument).table ∧
      ((noteSession.learn sharingDocument).table.get? "Note").map Usage.fieldNames =
        some ["id", "author", "text"] := by
  intro merged
  have hfragments : ∀ part ∈ sharingParts, part.fragments = sharingDocument.fragments :=
    List.forall_mem_cons.2 ⟨rfl, List.forall_mem_singleton.2 rfl⟩
  have hsplits : sharingDocument.SplitsInto sharingParts := ⟨rfl, hfragments⟩
  obtain ⟨husages, hsessions⟩ := learn_splitsInto hsplits
  obtain ⟨hlearn, hstart⟩ := hsessions noteSession
  exact ⟨hsplits, husages noteSchema, by decide +kernel, hlearn, hstart, by decide +kernel⟩

end Session

end SelectionRecall
