import SelectionRecall.Proofs.Session.Growth
import SelectionRecall.Proofs.Usage.Congruence

/-!
# Results in any order

Results of different keys belong to different operations, so that none of them changes what another one
does: each retires its query, if one waits for it, and teaches the document of its operation, if it has
data. In another order the same documents are taught, and the table is a union of the same usages. So it
has the same types, fields and parts, but they may stand in another order, and a field may have other
arguments, as the last ones that are not empty count. It is an equal table in every order just if no two
of the documents have different arguments for a field at the same path under the same type. Arguments with
a float that is not a number differ even from themselves, so there must be none in the table either.

* `Session.taught`, `Session.retired`: what results teach, and the queries whose wait they end.
* `Session.foldl_receive`: what results of different keys do together.
* `UsageTable.Agrees`: no field has different arguments in two tables.
* `UsageTable.alike_learnAll`, `UsageTable.agrees_of_beq_learnAll`: documents in any order.
* `Session.foldl_receive_perm`: results in any order.
* `Session.foldl_receive_perm_notes`: two queries with different arguments for a field.
-/

namespace SelectionRecall

namespace Session

/-! ## What results do together -/

/-- The document that a result teaches: that of the operation that waits for it, if it has data. -/
def taught? (session : Session) (result : OperationResult) : Option Document :=
  if result.hasData then (session.waiting? result.key).map Operation.document else none

/-- The documents that results teach, each that of an operation that waits now. -/
def taught (session : Session) (results : List OperationResult) : List Document :=
  results.filterMap session.taught?

/-- Whether the result ends the wait of a query. -/
def ends (session : Session) (result : OperationResult) : Bool :=
  (session.waiting? result.key).any fun operation => operation.intent = .run .query

/-- The keys of the queries whose wait results end. -/
def retired (session : Session) (results : List OperationResult) : List Nat :=
  (results.filter session.ends).map OperationResult.key

/-- **What a result does**: it teaches its document and retires its query. -/
theorem receive_eq (session : Session) (result : OperationResult) :
    session.receive result =
      { session with
        table := session.table.learnAll session.schema (session.taught [result])
        inFlight := session.inFlight.filter fun operation =>
          operation.key ∉ session.retired [result] } := by
  cases hwaiting : session.waiting? result.key with
  | none =>
    rw [receive_of_waiting?_eq_none session hwaiting]
    simp [taught, taught?, retired, ends, hwaiting, UsageTable.learnAll]
  | some operation =>
    rw [receive_of_waiting? session hwaiting]
    by_cases hdata : result.hasData = true <;> by_cases hquery : operation.intent = .run .query <;>
      simp [taught, taught?, retired, ends, hwaiting, hdata, hquery, forget]

/-- What waits under another key waits as before. -/
theorem waiting?_receive_of_ne {session : Session} {result : OperationResult} {key : Nat}
    (h : result.key ≠ key) : (session.receive result).waiting? key = session.waiting? key := by
  rw [waiting?_receive]
  cases session.waiting? key <;> simp [h, Option.filter_some]

/-- **What results of different keys do together**: they teach the documents of the operations that wait
for them, and retire the queries. -/
theorem foldl_receive {session : Session} {results : List OperationResult}
    (hkeys : (results.map OperationResult.key).Nodup) :
    results.foldl receive session =
      { session with
        table := session.table.learnAll session.schema (session.taught results)
        inFlight := session.inFlight.filter fun operation =>
          operation.key ∉ session.retired results } := by
  induction results generalizing session with
  | nil => simp [taught, retired, UsageTable.learnAll]
  | cons result rest ih =>
    obtain ⟨hnew, hrest⟩ := List.nodup_cons.1 hkeys
    -- the first result leaves alone what the others will find
    have hwaiting : ∀ other ∈ rest,
        (session.receive result).waiting? other.key = session.waiting? other.key := by
      intro other hother
      refine waiting?_receive_of_ne fun hsame => ?_
      exact hnew (hsame ▸ List.mem_map_of_mem hother)
    have htaught : (session.receive result).taught rest = session.taught rest := by
      refine List.filterMap_congr fun other hother => ?_
      unfold taught?
      rw [hwaiting other hother]
    have hretired : (session.receive result).retired rest = session.retired rest := by
      unfold retired
      congr 1
      refine List.filter_congr fun other hother => ?_
      unfold ends
      rw [hwaiting other hother]
    have hlessons : session.taught (result :: rest) = session.taught [result] ++ session.taught rest :=
      @List.filterMap_append _ _ [result] _ _
    have hkeys' : session.retired (result :: rest) =
        session.retired [result] ++ session.retired rest := by
      unfold retired
      rw [← List.map_append, ← List.filter_append]; rfl
    rw [List.foldl_cons, ih hrest, htaught, hretired, hlessons, hkeys', learnAll_append, receive_eq]
    simp only [List.filter_filter, List.mem_append, not_or, Bool.decide_and, Bool.and_comm]

end Session

namespace UsageTable

/-! ## Documents in any order -/

/-- The arguments of a field in the usage that a path leads to under a type. -/
def arguments? (table : UsageTable) (typeName : String) (path : List Usage.Step) (name : String) :
    Option Arguments :=
  (table.get? typeName).bind fun usage => usage.arguments? path name

/-- No field has different arguments in the two tables, under whatever type and at whatever path, unless
it has none in one of them. -/
def Agrees (table other : UsageTable) : Prop :=
  ∀ typeName path name known added,
    table.arguments? typeName path name = some known →
      other.arguments? typeName path name = some added →
        known ≠ [] → added ≠ [] → (known == added) = true

theorem arguments?_toUsage_part (table : UsageTable) (typeName : String) (path : List Usage.Step)
    (name : String) :
    table.toUsage.arguments? (.part typeName :: path) name = table.arguments? typeName path name := by
  have hstep : table.toUsage.step? (.part typeName) = table.get? typeName := rfl
  unfold Usage.arguments? arguments?
  rw [Usage.at?, hstep]
  cases table.get? typeName <;> rfl

/-- Arguments in a table as a usage are arguments under some type. -/
theorem exists_of_arguments?_toUsage {table : UsageTable} {path : List Usage.Step} {name : String}
    {known : Arguments} (h : table.toUsage.arguments? path name = some known) :
    ∃ typeName rest, path = .part typeName :: rest := by
  cases path with
  | nil => cases h
  | cons step rest =>
    cases step with
    | part typeName => exact ⟨typeName, rest, rfl⟩
    | field => cases h

/-- A table agrees with itself just if all floats in it are numbers. -/
theorem agrees_self_iff {table : UsageTable} (h : table.Distinct) :
    table.Agrees table ↔ table.NanFree := by
  rw [← nanFree_toUsage, Usage.nanFree_iff_arguments? h.toUsage]
  constructor
  · intro hagrees path name known hknown
    obtain ⟨typeName, rest, rfl⟩ := exists_of_arguments?_toUsage hknown
    rw [arguments?_toUsage_part] at hknown
    cases known with
    | nil => rfl
    | cons argument others =>
      have hne : argument :: others ≠ [] := List.cons_ne_nil argument others
      exact ((Arguments.beq_iff _ _).1 (hagrees typeName rest name _ _ hknown hknown hne hne)).2
  · intro hnumbers typeName path name known added hknown hadded _ _
    rw [hknown, Option.some.injEq] at hadded
    rw [← arguments?_toUsage_part] at hknown
    exact (Arguments.beq_iff known added).2
      ⟨congrArg Arguments.canonical hadded, hnumbers (.part typeName :: path) name known hknown⟩

variable {schema : Schema}

/-- A table that learns documents is a union of what they show. -/
theorem toUsage_learnAll (table : UsageTable) (schema : Schema) (documents : List Document) :
    (table.learnAll schema documents).toUsage =
      (documents.map fun document => (document.usages schema).toUsage).foldl Usage.merge
        table.toUsage := by
  induction documents generalizing table with
  | nil => rfl
  | cons document rest ih =>
    rw [List.map_cons, List.foldl_cons, ← toUsage_mergeAll]
    exact ih (table.mergeAll (document.usages schema))

/-- **Tables that learn documents in any order are alike**, if documents that have arguments for the same
field have arguments for it that look the same. -/
theorem alike_learnAll {view : Arguments → Arguments} (hnil : view [] = [])
    (hnewer : ∀ old new : Arguments, view (old.newer new) = (view old).newer (view new))
    {documents others : List Document} (hperm : documents.Perm others)
    (hagree : ∀ document ∈ documents, ∀ other ∈ documents, ∀ typeName path name known added,
      (document.usages schema).arguments? typeName path name = some known →
        (other.usages schema).arguments? typeName path name = some added →
          known ≠ [] → added ≠ [] → view known = view added)
    (table : UsageTable) :
    (table.learnAll schema documents).toUsage.Alike view (table.learnAll schema others).toUsage := by
  rw [toUsage_learnAll, toUsage_learnAll]
  refine Usage.alike_foldl_merge hnil hnewer (hperm.map _) ?_ ?_ table.toUsage
  · exact List.forall_mem_map.2 fun document _ => (document.distinct_usages schema).toUsage
  · refine List.forall_mem_map.2 fun document hdocument => List.forall_mem_map.2 fun other hother => ?_
    intro path name known added hknown hadded
    obtain ⟨typeName, rest, rfl⟩ := exists_of_arguments?_toUsage hknown
    rw [arguments?_toUsage_part] at hknown hadded
    exact hagree document hdocument other hother typeName rest name known added hknown hadded

/-- The document that is learned last has the last word on arguments. -/
theorem arguments?_learnAll_append {document : Document} {typeName : String} {path : List Usage.Step}
    {name : String} {last : Arguments}
    (h : (document.usages schema).arguments? typeName path name = some last) (hlast : last ≠ [])
    (table : UsageTable) (documents : List Document) :
    (table.learnAll schema (documents ++ [document])).arguments? typeName path name = some last := by
  rw [← arguments?_toUsage_part] at h ⊢
  rw [Session.learnAll_append]
  have hlearn : (table.learnAll schema documents).learnAll schema [document] =
      (table.learnAll schema documents).mergeAll (document.usages schema) := rfl
  rw [hlearn, toUsage_mergeAll, Usage.arguments?_merge (document.distinct_usages schema).toUsage, h]
  cases last with
  | nil => exact absurd rfl hlast
  | cons argument rest =>
    cases (table.learnAll schema documents).toUsage.arguments? (.part typeName :: path) name <;> rfl

/-- All floats in what a document shows are numbers, if those in a table that learns it last are. -/
theorem nanFree_usages_of_learnAll_append {document : Document} {table : UsageTable} (h : table.Distinct)
    {documents : List Document}
    (hnumbers : (table.learnAll schema (documents ++ [document])).NanFree) :
    (document.usages schema).NanFree := by
  rw [← nanFree_toUsage, Usage.nanFree_iff_arguments? (h.learnAll _).toUsage] at hnumbers
  refine nanFree_toUsage.1 ((Usage.nanFree_iff_arguments? (document.distinct_usages schema).toUsage).2 ?_)
  intro path name known hknown
  obtain ⟨typeName, rest, rfl⟩ := exists_of_arguments?_toUsage hknown
  rw [arguments?_toUsage_part] at hknown
  cases known with
  | nil => rfl
  | cons argument others =>
    have hlast := arguments?_learnAll_append hknown (List.cons_ne_nil argument others) table documents
    rw [← arguments?_toUsage_part] at hlast
    exact hnumbers _ name _ hlast

/-- Tables that learn documents keep it that all floats are numbers. -/
theorem NanFree.learnAll {table : UsageTable} (h : table.NanFree) {documents : List Document}
    (hdocuments : ∀ document ∈ documents, (document.usages schema).NanFree) :
    (table.learnAll schema documents).NanFree := by
  have hlearned : table.learnAll schema documents =
      (documents.map fun document => document.usages schema).foldl UsageTable.mergeAll table := by
    rw [List.foldl_map]; rfl
  rw [hlearned]
  exact h.foldl_mergeAll (List.forall_mem_map.2 hdocuments)

/-- **Documents agree** if a table that learns one of them before the other is equal to one that learns
them the other way round. -/
theorem agrees_of_beq_learnAll {table : UsageTable} (h : table.Distinct) {documents : List Document}
    {first second : Document}
    (hequal : (table.learnAll schema (documents ++ [second] ++ [first]) ==
      table.learnAll schema (documents ++ [first] ++ [second])) = true) :
    (first.usages schema).Agrees (second.usages schema) := by
  intro typeName path name known added hknown hadded hknown' hadded'
  obtain ⟨halike, hnumbers⟩ := (beq_iff (h.learnAll _) (h.learnAll _)).1 hequal
  have hfirst := nanFree_usages_of_learnAll_append h hnumbers
  have hsame := halike.arguments (.part typeName :: path) name
  rw [arguments?_toUsage_part, arguments?_toUsage_part,
    arguments?_learnAll_append hknown hknown', arguments?_learnAll_append hadded hadded'] at hsame
  have hself := (agrees_self_iff (first.distinct_usages schema)).2 hfirst
    typeName path name known known hknown hknown hknown' hknown'
  exact (Arguments.beq_iff known added).2 ⟨Option.some.inj hsame, ((Arguments.beq_iff _ _).1 hself).2⟩

end UsageTable

namespace Session

/-- Two results may come last, in both orders. -/
theorem exists_perm_of_mem {results : List OperationResult} {first second : OperationResult}
    (hfirst : first ∈ results) (hsecond : second ∈ results) (hne : second ≠ first) :
    ∃ rest, results.Perm (rest ++ [first] ++ [second]) ∧
      results.Perm (rest ++ [second] ++ [first]) := by
  obtain ⟨before, after, rfl⟩ := List.append_of_mem hfirst
  have hothers : second ∈ before ++ after := by
    rcases List.mem_append.1 hsecond with hbefore | hafter
    · exact List.mem_append_left _ hbefore
    · exact List.mem_append_right _ ((List.mem_cons.1 hafter).resolve_left hne)
  obtain ⟨left, right, hsplit⟩ := List.append_of_mem hothers
  have hperm : (before ++ first :: after).Perm (first :: second :: (left ++ right)) := by
    refine List.perm_middle.trans ?_
    rw [hsplit]
    exact List.perm_middle.cons first
  refine ⟨left ++ right, hperm.trans ?_, hperm.trans ?_⟩
  · rw [List.append_assoc]
    exact @List.perm_append_comm _ [first, second] _
  · rw [List.append_assoc]
    exact (List.Perm.swap second first _).trans (@List.perm_append_comm _ [second, first] _)

/-- Documents that results teach agree, if the table is equal whatever the order of the results. -/
theorem agree_of_equal {session : Session} (hdistinct : session.table.Distinct)
    {results : List OperationResult}
    (h : ∀ others, results.Perm others →
      (session.table.learnAll session.schema (session.taught others) ==
        session.table.learnAll session.schema (session.taught results)) = true) :
    ∀ document ∈ session.taught results, ∀ other ∈ session.taught results,
      (document.usages session.schema).Agrees (other.usages session.schema) := by
  have hlearned : ∀ documents, (session.table.learnAll session.schema documents).Distinct :=
    fun documents => hdistinct.learnAll documents
  have hequal : ∀ {others : List OperationResult}, results.Perm others →
      (session.table.learnAll session.schema (session.taught others)).toUsage.Same
        (session.table.learnAll session.schema (session.taught results)).toUsage :=
    fun hperm => UsageTable.Same.toUsage ⟨hlearned _, hlearned _, h _ hperm⟩
  have htaught : ∀ {result taught}, session.taught? result = some taught →
      session.taught [result] = [taught] :=
    fun hsome => List.filterMap_cons_some hsome
  have happend : ∀ before after,
      session.taught (before ++ after) = session.taught before ++ session.taught after :=
    fun _ _ => List.filterMap_append
  intro document hdocument other hother
  obtain ⟨first, hfirst, hfirstTaught⟩ := List.mem_filterMap.1 hdocument
  obtain ⟨second, hsecond, hsecondTaught⟩ := List.mem_filterMap.1 hother
  by_cases hsame : second = first
  · -- a document that comes last leaves all its arguments in the table
    have hown : document = other := by
      rw [hsame, hfirstTaught] at hsecondTaught
      exact Option.some.inj hsecondTaught
    obtain ⟨before, after, rfl⟩ := List.append_of_mem hfirst
    have hlast : (before ++ first :: after).Perm (before ++ after ++ [first]) :=
      List.perm_middle.trans (List.perm_append_singleton first _).symm
    have hnumbers := UsageTable.nanFree_toUsage.1 (hequal hlast).nanFree
    rw [happend, htaught hfirstTaught] at hnumbers
    rw [← hown]
    exact (UsageTable.agrees_self_iff (document.distinct_usages _)).2
      (UsageTable.nanFree_usages_of_learnAll_append hdistinct hnumbers)
  · -- in one order the first document has the last word, in the other one the second document
    obtain ⟨rest, hlast, hswapped⟩ := exists_perm_of_mem hfirst hsecond hsame
    have hsame := ((hequal hswapped).trans (hequal hlast).symm)
    simp only [happend, htaught hfirstTaught, htaught hsecondTaught] at hsame
    exact UsageTable.agrees_of_beq_learnAll hdistinct
      (UsageTable.same_of_toUsage (hlearned _) (hlearned _) hsame).equal

/-- **Results in any order.** Let names in the table of a session be distinct, as they are in a map, and
apply results of different keys, in whatever order. Then

* the same operations are in flight afterwards;
* the tables are equal up to the order of names and to arguments: without arguments they are equal;
* they are equal in every order just if no two of the documents that the results teach have different
  arguments for a field, under whatever type and at whatever path, arguments that are empty aside. In this
  all floats in the table of the session are taken to be numbers;
* with whatever floats there, they are equal in every order just if moreover all floats in the table are
  numbers after the results. -/
theorem foldl_receive_perm {session : Session} (hdistinct : session.table.Distinct)
    {results : List OperationResult} (hkeys : (results.map OperationResult.key).Nodup) :
    let equal := ∀ others, results.Perm others →
      ((others.foldl receive session).table == (results.foldl receive session).table) = true
    let agree := ∀ document ∈ session.taught results, ∀ other ∈ session.taught results,
      (document.usages session.schema).Agrees (other.usages session.schema)
    (∀ others, results.Perm others →
      (others.foldl receive session).inFlight = (results.foldl receive session).inFlight ∧
        ((others.foldl receive session).table.withoutArguments ==
          (results.foldl receive session).table.withoutArguments) = true) ∧
      (session.table.NanFree → (equal ↔ agree)) ∧
      (equal ↔ agree ∧ (results.foldl receive session).table.NanFree) := by
  intro equal agree
  have hothers : ∀ {others : List OperationResult}, results.Perm others →
      (others.map OperationResult.key).Nodup ∧ (session.taught results).Perm (session.taught others) :=
    fun hperm => ⟨(hperm.map _).nodup_iff.1 hkeys, hperm.filterMap _⟩
  have hlearned : ∀ documents, (session.table.learnAll session.schema documents).Distinct :=
    fun documents => hdistinct.learnAll documents
  have hequal : ∀ {others : List OperationResult}, results.Perm others →
      (((others.foldl receive session).table == (results.foldl receive session).table) = true ↔
        (session.table.learnAll session.schema (session.taught others) ==
          session.table.learnAll session.schema (session.taught results)) = true) := by
    intro others hperm
    rw [foldl_receive hkeys, foldl_receive (hothers hperm).1]
  have hfinal : (results.foldl receive session).table =
      session.table.learnAll session.schema (session.taught results) := by
    rw [foldl_receive hkeys]
  have hagree : equal → agree := fun h => agree_of_equal hdistinct fun others hperm =>
    (hequal hperm).1 (h others hperm)
  have hback : agree → (results.foldl receive session).table.NanFree → equal := by
    intro hagree hnumbers others hperm
    have halike := UsageTable.alike_learnAll rfl Arguments.canonical_newer (hothers hperm).2
      (fun document hdocument other hother typeName path name known added hknown hadded hne hne' =>
        ((Arguments.beq_iff known added).1 (hagree document hdocument other hother typeName path name
          known added hknown hadded hne hne')).1) session.table
    rw [hfinal, ← UsageTable.nanFree_toUsage,
      halike.nanFree_iff (hlearned _).toUsage (hlearned _).toUsage, UsageTable.nanFree_toUsage] at hnumbers
    exact (hequal hperm).2 ((UsageTable.beq_iff (hlearned _) (hlearned _)).2 ⟨halike.symm, hnumbers⟩)
  refine ⟨?_, ?_, ?_⟩
  · intro others hperm
    obtain ⟨hkeys', htaught⟩ := hothers hperm
    rw [foldl_receive hkeys, foldl_receive hkeys']
    refine ⟨?_, ?_⟩
    · refine List.filter_congr fun operation _ => ?_
      have hretired : (session.retired others).Perm (session.retired results) :=
        (hperm.symm.filter _).map _
      simp only [hretired.mem_iff]
    · rw [UsageTable.beq_withoutArguments_iff (hlearned _) (hlearned _)]
      refine UsageTable.alike_learnAll rfl (fun _ _ => rfl) htaught.symm ?_ session.table
      intro document _ other _ typeName path name known added _ _ _ _
      rfl
  · -- documents that agree with themselves hold numbers only, and so does what they are united to
    refine fun hnumbers => ⟨hagree, fun h => hback h ?_⟩
    rw [hfinal]
    exact hnumbers.learnAll fun document hdocument =>
      (UsageTable.agrees_self_iff (document.distinct_usages _)).1 (h document hdocument document hdocument)
  · refine ⟨fun h => ⟨hagree h, ?_⟩, fun h => hback h.1 h.2⟩
    rw [hfinal, UsageTable.nanFree_iff_beq_self (hlearned _)]
    exact (hequal (.refl results)).1 (h results (.refl results))

/-- A query for one field of the author of a note, with an argument for the author. -/
def sizedQuery (key : Nat) (size : Value) (ofAuthor : String) : Operation :=
  ⟨key, .run .query, ⟨[.operation ⟨none, [.field none "note" [] []
    [.field none "author" [("size", size)] [] [.field none ofAuthor [] [] []]]]⟩]⟩⟩

/-- A session in which two such queries wait. -/
def waitingSession (first second : Value) : Session :=
  (start noteSchema {} .empty).run
    [.forward (sizedQuery 1 first "name"), .forward (sizedQuery 2 second "id")]

/-- Their answers, in two orders. -/
def answers (keys : List Nat) : List OperationResult :=
  keys.map fun key => ⟨key, some (.boolean true), []⟩

/-- **Two queries with different arguments for a field.** Whichever answer comes first, no query is left
waiting and the same names are learned, but the argument is that of the query that is answered last. So
the documents do not agree. With the same argument in both queries the tables are equal, if it is a
number. -/
theorem foldl_receive_perm_notes :
    let session := waitingSession (.int 1) (.int 2)
    let first := (answers [1, 2]).foldl receive session
    let second := (answers [2, 1]).foldl receive session
    let tableAfter := fun (size : Value) (keys : List Nat) =>
      ((answers keys).foldl receive (waitingSession size size)).table
    session.table.Distinct ∧ session.table.NanFree ∧
      ((answers [1, 2]).map OperationResult.key).Nodup ∧
      session.inFlightCount = 2 ∧ first.inFlightCount = 0 ∧ second.inFlight = first.inFlight ∧
      (second.table.withoutArguments == first.table.withoutArguments) = true ∧
      (second.table == first.table) = false ∧
      (¬ ∀ document ∈ session.taught (answers [1, 2]), ∀ other ∈ session.taught (answers [1, 2]),
        (document.usages noteSchema).Agrees (other.usages noteSchema)) ∧
      (tableAfter (.int 1) [2, 1]).typeNames = ["User", "Note"] ∧
      (tableAfter (.int 1) [2, 1] == tableAfter (.int 1) [1, 2]) = true ∧
      (tableAfter (.float .nan) [2, 1] == tableAfter (.float .nan) [1, 2]) = false := by
  intro session first second tableAfter
  have hdistinct : session.table.Distinct := distinct_table_run UsageTable.distinct_empty _
  have hnumbers : session.table.NanFree :=
    (UsageTable.nanFree_iff_beq_self hdistinct).2 (by decide +kernel)
  have hkeys : ((answers [1, 2]).map OperationResult.key).Nodup := by decide
  have hperm : (answers [1, 2]).Perm (answers [2, 1]) := List.Perm.swap _ _ _
  have hdifferent : (second.table == first.table) = false := by decide +kernel
  obtain ⟨hall, hequal, -⟩ := foldl_receive_perm hdistinct hkeys
  obtain ⟨hinFlight, hnames⟩ := hall (answers [2, 1]) hperm
  refine ⟨hdistinct, hnumbers, hkeys, by decide +kernel, by decide +kernel, hinFlight, hnames,
    hdifferent, ?_, by decide +kernel, by decide +kernel, by decide +kernel⟩
  intro hagree
  have hsame := (hequal hnumbers).2 hagree (answers [2, 1]) hperm
  rw [hdifferent] at hsame
  cases hsame

end Session

end SelectionRecall
