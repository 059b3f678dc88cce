import SelectionRecall.Proofs.Expansion.Outcome
import SelectionRecall.Proofs.Session.Delivery

/-!
# Streams pass operations one by one

A stream takes an operation from upstream only when one is pulled, and passes it as if it were forwarded
then. So pulling operations while results are sent is forwarding them with the same results sent in
between. The operations come out in their order, under their keys and with what they do, and only the
documents of mutations with markers differ: they are expanded with what is known once the results that
were sent until then have been applied. What is not pulled has no effect.

* `Session.pulling`, `Session.forwarding`: operations that are pulled through, and that are forwarded,
  while results are sent.
* `Session.passedIn`: the operations that pass in a run.
* `Session.Traffic.run_pulling`: pulling is forwarding.
* `Session.passedIn_forwarding_getElem?`: what passes in one turn.
* `Session.streamed_eq_forwarded`: streams of operations.
* `Session.streamed_eq_forwarded_memo`: a mutation that is expanded with what the same stream taught.
-/

namespace SelectionRecall.Session

/-! ## Turns -/

/-- Sends results from the first to the last. -/
def sending (results : List OperationResult) : List Step := results.map .send

/-- Pulls operations through a session. In each turn some results are sent, and then one operation is
pulled. -/
def pulling (turns : List (List OperationResult)) : List Action :=
  turns.flatMap fun sent => (sending sent).map .step ++ [.pull]

/-- Forwards operations with the same results sent in between. Once there are none left, results are
only sent. -/
def forwarding : List (List OperationResult) → List Operation → List Step
  | [], _ => []
  | sent :: rest, [] => sending sent ++ forwarding rest []
  | sent :: rest, operation :: others => sending sent ++ .forward operation :: forwarding rest others

/-- Operations behind those that have a turn play no part. -/
theorem forwarding_take (turns : List (List OperationResult)) (operations : List Operation) :
    forwarding turns (operations.take turns.length) = forwarding turns operations := by
  induction turns generalizing operations with
  | nil => rfl
  | cons sent rest ih =>
    cases operations with
    | nil => rfl
    | cons operation others => rw [List.length_cons, List.take_succ_cons, forwarding, forwarding, ih]

/-- When no results are sent, operations are only pulled. -/
theorem pulling_of_forall_eq_nil {turns : List (List OperationResult)} (h : ∀ sent ∈ turns, sent = []) :
    pulling turns = List.replicate turns.length .pull := by
  induction turns with
  | nil => rfl
  | cons sent rest ih =>
    obtain ⟨rfl, hrest⟩ := List.forall_mem_cons.1 h
    rw [List.length_cons, List.replicate_succ, ← ih hrest]
    rfl

/-! ## What passes in a run -/

/-- The operations that pass in a run. -/
def passedIn (session : Session) : List Step → List Operation
  | [] => []
  | step :: rest => session.passedBy step ++ passedIn (session.step step) rest

theorem run_append (session : Session) (first second : List Step) :
    session.run (first ++ second) = (session.run first).run second := List.foldl_append

theorem passedIn_append (session : Session) (first second : List Step) :
    session.passedIn (first ++ second) =
      session.passedIn first ++ (session.run first).passedIn second := by
  induction first generalizing session with
  | nil => rfl
  | cons step rest ih => rw [List.cons_append, passedIn, passedIn, ih, List.append_assoc]; rfl

/-- Results that are sent wait in the queue. -/
theorem run_sending (session : Session) (results : List OperationResult) :
    session.run (sending results) = session.withQueue (session.queue ++ results) := by
  induction results generalizing session with
  | nil => rw [List.append_nil]; rfl
  | cons result rest ih =>
    have hrun : session.run (sending (result :: rest)) = (session.send result).run (sending rest) := rfl
    rw [hrun, ih, List.append_cons]
    rfl

/-- While results are sent nothing passes. -/
theorem passedIn_sending (session : Session) (results : List OperationResult) :
    session.passedIn (sending results) = [] := by
  induction results generalizing session with
  | nil => rfl
  | cons result rest ih => exact ih (session.send result)

/-- What passes when results are sent and then an operation is forwarded. -/
theorem passedIn_turn (session : Session) (sent : List OperationResult) (operation : Operation)
    (rest : List Step) :
    session.passedIn (sending sent ++ .forward operation :: rest) =
      ((session.run (sending sent)).forward operation).1 ::
        ((session.run (sending sent)).forward operation).2.passedIn rest := by
  rw [passedIn_append, passedIn_sending]
  rfl

/-- As many operations pass as there are turns and operations. -/
theorem length_passedIn_forwarding (session : Session) (turns : List (List OperationResult))
    (operations : List Operation) :
    (session.passedIn (forwarding turns operations)).length =
      min turns.length operations.length := by
  induction turns generalizing session operations with
  | nil => simp [forwarding, passedIn]
  | cons sent rest ih =>
    cases operations with
    | nil => rw [forwarding, passedIn_append, passedIn_sending, List.nil_append, ih]; simp
    | cons operation others =>
      rw [forwarding, passedIn_turn, List.length_cons, ih, List.length_cons, List.length_cons,
        Nat.succ_min_succ]

/-- **What passes in one turn**: the operation of this turn, after the turns before it and with the
results of this turn in the queue. -/
theorem passedIn_forwarding_getElem? (session : Session) {turns : List (List OperationResult)}
    {operations : List Operation} {index : Nat} {sent : List OperationResult} {operation : Operation}
    (hsent : turns[index]? = some sent) (hoperation : operations[index]? = some operation) :
    (session.passedIn (forwarding turns operations))[index]? =
      some (((session.run (forwarding (turns.take index) operations ++ sending sent)).forward
        operation).1) := by
  induction turns generalizing session operations index with
  | nil => simp at hsent
  | cons first rest ih =>
    cases operations with
    | nil => simp at hoperation
    | cons other others =>
      rw [forwarding, passedIn_turn]
      cases index with
      | zero =>
        rw [List.getElem?_cons_zero, Option.some.injEq] at hsent hoperation ⊢
        subst hsent hoperation
        rfl
      | succ index =>
        rw [List.getElem?_cons_succ] at hsent hoperation ⊢
        rw [ih _ hsent hoperation, List.take_succ_cons, forwarding, List.append_assoc,
          session.run_append]
        rfl

namespace Traffic

variable (traffic : Traffic)

/-- Steps pass operations, and leave the stream alone. -/
theorem run_steps (steps : List Step) :
    (traffic.run (steps.map .step)).passed = traffic.passed ++ traffic.session.passedIn steps ∧
      (traffic.run (steps.map .step)).session = traffic.session.run steps ∧
      (traffic.run (steps.map .step)).upstream = traffic.upstream := by
  induction steps generalizing traffic with
  | nil => exact ⟨(List.append_nil _).symm, rfl, rfl⟩
  | cons step rest ih =>
    obtain ⟨hpassed, hsession, hupstream⟩ := ih (traffic.act (.step step))
    refine ⟨?_, hsession, hupstream⟩
    rw [List.map_cons, run_cons, hpassed, passedIn, ← List.append_assoc]
    rfl

/-- The stream plays no part in steps. -/
theorem run_steps_withUpstream (steps : List Step) (upstream : List Operation) :
    ({ traffic with upstream := upstream } : Traffic).run (steps.map .step) =
      { traffic.run (steps.map .step) with upstream := upstream } := by
  induction steps generalizing traffic with
  | nil => rfl
  | cons step rest ih => exact ih (traffic.act (.step step))

/-- **Pulling is forwarding**: an operation that is pulled passes as it is forwarded, and is gone from
the stream. -/
theorem run_pulling (turns : List (List OperationResult)) :
    traffic.run (pulling turns) =
      { traffic.run ((forwarding turns traffic.upstream).map .step) with
        upstream := traffic.upstream.drop turns.length } := by
  induction turns generalizing traffic with
  | nil => rfl
  | cons sent rest ih =>
    have hsplit : pulling (sent :: rest) = (sending sent).map .step ++ .pull :: pulling rest := by
      unfold pulling
      rw [List.flatMap_cons, List.append_assoc]
      rfl
    obtain ⟨-, -, hupstream⟩ := traffic.run_steps (sending sent)
    rw [hsplit, run_append, run_cons]
    cases hstream : traffic.upstream with
    | nil =>
      rw [hstream] at hupstream
      rw [act_pull_nil hupstream, ih, hupstream, forwarding, List.map_append, run_append,
        List.drop_nil, List.drop_nil]
    | cons operation others =>
      rw [hstream] at hupstream
      rw [act_pull_cons hupstream, ih, run_steps_withUpstream, forwarding, List.map_append, run_append,
        List.length_cons, List.drop_succ_cons]
      rfl

/-- What comes of a stream that is pulled from. -/
theorem run_transform (session : Session) (turns : List (List OperationResult))
    (operations : List Operation) :
    let last := (start session).run (.transform operations :: pulling turns)
    last.passed = session.passedIn (forwarding turns operations) ∧
      last.session = session.run (forwarding turns operations) ∧
      last.upstream = operations.drop turns.length := by
  intro last
  have hlast : last = _ := run_pulling { start session with upstream := operations } turns
  obtain ⟨hpassed, hsession, -⟩ :=
    run_steps { start session with upstream := operations } (forwarding turns operations)
  rw [hlast]
  exact ⟨hpassed, hsession, rfl⟩

end Traffic

/-! ## Streams -/

/-- What is known once the results that wait and these results have been applied. -/
def tableAfter (session : Session) (sent : List OperationResult) : UsageTable :=
  ((session.queue ++ sent).foldl receive (session.withQueue [])).table

/-- With this table markers are expanded after these results were sent. -/
theorem expansion_drain_run_sending (session : Session) (steps : List Step)
    (sent : List OperationResult) :
    (session.run (steps ++ sending sent)).drain.expansion =
      ⟨session.options, session.schema, (session.run steps).tableAfter sent⟩ := by
  have hsettings := session.settings_run (steps ++ sending sent ++ [.drain])
  rw [← run_drain] at hsettings
  have htable : (session.run (steps ++ sending sent)).drain.table =
      (session.run steps).tableAfter sent := by
    rw [run_append, run_sending, drain_eq_foldl]; rfl
  unfold expansion
  rw [hsettings.1, hsettings.2, htable]

/-- **What comes out of one turn**: the operation, if it is a mutation with a marker with its document
expanded. -/
theorem exists_output_of_turn (session : Session) {turns : List (List OperationResult)}
    {operations : List Operation} {index : Nat} {sent : List OperationResult} {operation : Operation}
    (hsent : turns[index]? = some sent) (hoperation : operations[index]? = some operation) :
    let before := session.run (forwarding (turns.take index) operations)
    let expansion : Expansion := ⟨session.options, session.schema, before.tableAfter sent⟩
    ∃ output, (session.passedIn (forwarding turns operations))[index]? = some output ∧
      output.key = operation.key ∧ output.intent = operation.intent ∧
      output.document =
        if operation.intent = .run .mutation ∧ expansion.isMarked operation.document = true then
          expansion.expand operation.document
        else operation.document := by
  intro before expansion
  refine ⟨_, session.passedIn_forwarding_getElem? hsent hoperation, ?_⟩
  have hexpansion : _ = expansion :=
    session.expansion_drain_run_sending (forwarding (turns.take index) operations) sent
  rw [forward_fst, hexpansion]
  refine ⟨rfl, rfl, ?_⟩
  dsimp only
  -- the expansion of a document without markers is the document itself
  cases hmarked : expansion.isMarked operation.document with
  | true => simp
  | false => rw [expansion.expand_of_isMarked_eq_false hmarked]; simp

/-- **A stream passes operations one by one.** For any session, operations and results, let an operation
be pulled from a stream in each turn, after some results were sent.

* This is forwarding as many of the operations as there are turns, with the same results sent in
  between: the same operations pass, and the session is the same. The others are left in the stream.
* The operation of a turn passes in its place, under its key and with what it does. Its document is
  unchanged, unless it is a mutation with a marker. Then the document is expanded with what is known
  after the turns before it, once the results that wait and those of this turn have been applied.
* Other operations in the stream behind those that are pulled make no difference.
* When no results are sent, this is what `Session.pull` does. -/
theorem streamed_eq_forwarded (session : Session) (turns : List (List OperationResult))
    (operations : List Operation) :
    let streamed := (Traffic.start session).run (.transform operations :: pulling turns)
    let forwarded := (Traffic.start session).run ((forwarding turns operations).map .step)
    (streamed.passed = forwarded.passed ∧ streamed.session = forwarded.session ∧
        streamed.session = session.run (forwarding turns operations) ∧
        streamed.upstream = operations.drop turns.length) ∧
      streamed.passed.length = min turns.length operations.length ∧
      (∀ index sent operation, turns[index]? = some sent → operations[index]? = some operation →
        let before := session.run (forwarding (turns.take index) operations)
        let expansion : Expansion := ⟨session.options, session.schema, before.tableAfter sent⟩
        ∃ output, streamed.passed[index]? = some output ∧ output.key = operation.key ∧
          output.intent = operation.intent ∧
          output.document =
            if operation.intent = .run .mutation ∧ expansion.isMarked operation.document = true then
              expansion.expand operation.document
            else operation.document) ∧
      (∀ others : List Operation, others.take turns.length = operations.take turns.length →
        let instead := (Traffic.start session).run (.transform others :: pulling turns)
        instead.passed = streamed.passed ∧ instead.session = streamed.session) ∧
      ((∀ sent ∈ turns, sent = []) →
        session.pull turns.length operations = (streamed.passed, streamed.session)) := by
  intro streamed forwarded
  obtain ⟨hpassed, hsession, hupstream⟩ := Traffic.run_transform session turns operations
  obtain ⟨hdirect, hrun, -⟩ := (Traffic.start session).run_steps (forwarding turns operations)
  refine ⟨⟨hpassed.trans hdirect.symm, hsession.trans hrun.symm, hsession, hupstream⟩, ?_, ?_, ?_, ?_⟩
  · rw [hpassed, length_passedIn_forwarding]
  · intro index sent operation hsent hoperation
    rw [hpassed]
    exact session.exists_output_of_turn hsent hoperation
  · intro others hsame instead
    have hforwarding : forwarding turns others = forwarding turns operations := by
      rw [← forwarding_take turns others, hsame, forwarding_take]
    obtain ⟨hothers, hsessions, -⟩ := Traffic.run_transform session turns others
    rw [hforwarding] at hothers hsessions
    exact ⟨hothers.trans hpassed.symm, hsessions.trans hsession.symm⟩
  · intro hnothing
    have hpulled := Traffic.run_replicate_pull { Traffic.start session with upstream := operations }
      turns.length
    rw [← pulling_of_forall_eq_nil hnothing] at hpulled
    exact Prod.ext hpulled.1.symm hpulled.2.1.symm

/-- A session that has learned nothing of memos yet. -/
def memoSession : Session :=
  start ⟨"Query", some "Mutation", none,
    [⟨"Query", .object, [("memo", "Memo")], []⟩, ⟨"Mutation", .object, [("addMemo", "Memo")], []⟩,
      ⟨"Memo", .object, [("id", "ID"), ("text", "String")], []⟩]⟩ {} .empty

/-- A query for the text of a memo. -/
def memoQuery : Operation :=
  ⟨1, .run .query, ⟨[.operation ⟨none, [.field none "memo" [] [] [.field none "text" [] [] []]]⟩]⟩⟩

/-- A mutation with a marker on a memo. -/
def memoMutation : Operation :=
  ⟨2, .run .mutation, ⟨[.operation ⟨some ⟨.mutation, none, [], []⟩,
    [.field none "addMemo" [] [⟨"populate", []⟩] []]⟩]⟩⟩

/-- The answer to the query. -/
def memoResult : OperationResult := ⟨1, some (.boolean true), []⟩

/-- **A stream that learns while it is pulled**: a result that was sent before the query passed is not
taken for its answer, but the one that is sent after it has passed is learned from before the mutation
passes. The last operation is not pulled. -/
theorem streamed_eq_forwarded_memo :
    let operations := [memoQuery, memoMutation, memoQuery.toTeardown]
    let turns := [[memoResult], [memoResult]]
    let streamed := (Traffic.start memoSession).run (.transform operations :: pulling turns)
    streamed.session = memoSession.run [.send memoResult, .forward memoQuery, .send memoResult,
        .forward memoMutation] ∧
      streamed.passed.length = 2 ∧ streamed.upstream = [memoQuery.toTeardown] ∧
      (memoSession.tableAfter [memoResult]).typeNames = [] ∧
      ∃ output, streamed.passed[1]? = some output ∧ output.key = 2 ∧
        output.document.fragmentNames = ["MemoFragment"] := by
  intro operations turns streamed
  obtain ⟨⟨-, -, hsession, hupstream⟩, hlength, hturns, -, -⟩ :=
    streamed_eq_forwarded memoSession turns operations
  obtain ⟨output, houtput, hkey, -, hdocument⟩ := hturns 1 [memoResult] memoMutation rfl rfl
  refine ⟨hsession, hlength, hupstream, by decide +kernel, output, houtput, hkey, ?_⟩
  rw [hdocument]
  decide +kernel

end SelectionRecall.Session
