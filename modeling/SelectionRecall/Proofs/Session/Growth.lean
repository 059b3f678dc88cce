import SelectionRecall.Proofs.Session.History
import SelectionRecall.Proofs.Usage.Growth

/-!
# Sessions only learn more

Whatever is done with a session, its table only grows. No type is dropped or moved, no field and no
part is lost at any depth, and what is new comes last.

* `Session.grows_table_run`, `Session.distinct_table_run`: the table in any run.
* `Session.growth_run`: a run only adds to what has been learned.
* `Session.growth_run_author`: a session that learns more of a nested field.
-/

namespace SelectionRecall

/-- Names stay distinct when documents are learned. -/
theorem UsageTable.Distinct.learnAll {table : UsageTable} (h : table.Distinct) {schema : Schema}
    (documents : List Document) : (table.learnAll schema documents).Distinct :=
  Session.learnAll_induction (fun _ document htable => htable.mergeAll_usages document _) h documents

namespace Session

/-- The table grows in any run. -/
theorem grows_table_run (session : Session) (steps : List Step) :
    session.table.Grows (session.run steps).table := by
  refine table_run_induction ?_ (.refl session.table) steps
  exact fun table document hgrows => hgrows.trans (table.grows_mergeEntries _)

/-- Names in the table stay distinct in any run. -/
theorem distinct_table_run {session : Session} (h : session.table.Distinct) (steps : List Step) :
    (session.run steps).table.Distinct :=
  table_run_induction (fun _ document htable => htable.mergeAll_usages document _) h steps

/-- **A run only adds to what has been learned.** If names in the table are distinct, as they are in a
map, then after any further run of the session

* the types that were known stand first, in their order;
* the usage of each of them covers what it was before;
* wherever fields and parts led in it before they still lead, and the names of the fields and the
  types of the parts that were there stand first, in their order. -/
theorem growth_run {session : Session} (h : session.table.Distinct) (steps : List Step) :
    let table := (session.run steps).table
    session.table.typeNames <+: table.typeNames ∧
      ∀ typeName before, session.table.get? typeName = some before →
        ∃ after, table.get? typeName = some after ∧ after.covers before = true ∧
          ∀ path inner, before.at? path = some inner →
            ∃ grown, after.at? path = some grown ∧
              inner.fieldNames <+: grown.fieldNames ∧ inner.partNames <+: grown.partNames := by
  intro table
  have hgrows : session.table.Grows table := session.grows_table_run steps
  refine ⟨hgrows.typeNames, ?_⟩
  intro typeName before hbefore
  obtain ⟨after, hafter, husage⟩ := hgrows.usages hbefore
  refine ⟨after, hafter, husage.covers (h.of_get? hbefore), ?_⟩
  intro path inner hinner
  obtain ⟨grown, hgrown, hfirst⟩ := husage path inner hinner
  exact ⟨grown, hgrown, hfirst.fields, hfirst.parts⟩

/-- Notes with authors. -/
def noteSchema : Schema :=
  ⟨"Query", none, none,
    [⟨"Query", .object, [("note", "Note")], []⟩,
      ⟨"Note", .object, [("id", "ID"), ("text", "String"), ("author", "User")], []⟩,
      ⟨"User", .object, [("id", "ID"), ("name", "String")], []⟩,
      ⟨"ID", .scalar, [], []⟩, ⟨"String", .scalar, [], []⟩]⟩

/-- A query for one field of a note and one of its author. -/
def noteQuery (ofNote ofAuthor : String) : Document :=
  ⟨[.operation ⟨none, [.field none "note" [] []
    [.field none ofNote [] [] [],
      .field none "author" [] [] [.field none ofAuthor [] [] []]]]⟩]⟩

/-- A session that has learned from one query. -/
def noteSession : Session :=
  (start noteSchema {} .empty).run [.learn (noteQuery "id" "name")]

/-- A second query and its answer. -/
def noteSteps : List Step :=
  [.forward ⟨1, .run .query, noteQuery "text" "id"⟩, .send ⟨1, some (.boolean true), []⟩, .drain]

/-- **A session that learns more of a nested field**: of a note it knew `id` and the author's `name`.
After an answered query for `text` and the author's `id` these come last. -/
theorem growth_run_author :
    let before := noteSession.table
    let after := (noteSession.run noteSteps).table
    before.Distinct ∧
      (before.get? "Note").map Usage.fieldNames = some ["id", "author"] ∧
      (after.get? "Note").map Usage.fieldNames = some ["id", "author", "text"] ∧
      ((before.get? "Note").bind (·.at? [.field "author"])).map Usage.fieldNames =
        some ["name"] ∧
      ((after.get? "Note").bind (·.at? [.field "author"])).map Usage.fieldNames =
        some ["name", "id"] ∧
      before.typeNames <+: after.typeNames ∧
      ∃ known grown, before.get? "Note" = some known ∧ after.get? "Note" = some grown ∧
        grown.covers known = true := by
  intro before after
  have hdistinct : before.Distinct := distinct_table_run UsageTable.distinct_empty _
  have hsome : (before.get? "Note").isSome = true := by decide +kernel
  obtain ⟨known, hknown⟩ := Option.isSome_iff_exists.1 hsome
  obtain ⟨htypes, husages⟩ := growth_run hdistinct noteSteps
  obtain ⟨grown, hgrown, hcovers, -⟩ := husages "Note" known hknown
  exact ⟨hdistinct, by decide +kernel, by decide +kernel, by decide +kernel, by decide +kernel,
    htypes, known, grown, hknown, hgrown, hcovers⟩

end Session

end SelectionRecall
