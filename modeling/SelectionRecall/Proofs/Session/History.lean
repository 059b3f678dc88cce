import Mathlib.Data.List.DropRight
import Mathlib.Data.List.Nodup
import SelectionRecall.Session.Basic

/-!
# Sessions and their history

What a session holds after any run is told from what happened in it: which operations passed, which
results were applied and which documents were learned, in this order. An operation waits if it is the
last one that passed under its key, mutations aside, and no result has ended its wait since. The table
holds what was learned before the run and what was learned in it: of each document that was learned
directly, and of each waiting operation at a result with data.

* `Session.Step`, `Session.run`: what may be done with a session.
* `Session.Event`, `Session.history`: what happens in a run.
* `Session.awaited?`, `Session.lessons`: the waiting operations and the lessons of a history.
* `Session.run_eq`: a run is what happens in it, and what is left in the queue.
* `Session.table_run_induction`: what tables keep when a document is learned, they keep in a run.
* `Session.Follows`: the session holds what the history says, which each event keeps.
* `Session.run_start`: the session after a run, told from its history.
-/

namespace SelectionRecall

/-- Adds to a table what documents show, from the first to the last. -/
def UsageTable.learnAll (table : UsageTable) (schema : Schema) (documents : List Document) :
    UsageTable :=
  documents.foldl (fun table document => table.mergeAll (document.usages schema)) table

namespace Session

/-! ## Runs -/

/-- What may be done with a session. -/
inductive Step where
  | forward (operation : Operation)
  | receive (result : OperationResult)
  | send (result : OperationResult)
  | drain
  | learn (document : Document)

/-- Does one step. -/
def step (session : Session) : Step → Session
  | .forward operation => (session.forward operation).2
  | .receive result => session.receive result
  | .send result => session.send result
  | .drain => session.drain
  | .learn document => session.learn document

/-- Does steps from the first to the last. -/
def run (session : Session) (steps : List Step) : Session := steps.foldl step session

/-- What happens to a session: an operation passes, a result is applied, or a document is learned. -/
inductive Event where
  | passed (operation : Operation)
  | applied (result : OperationResult)
  | learned (document : Document)

/-- What happens in a run that begins with these results in the queue. They are applied when the
queue is worked off, at the latest before the next operation passes. -/
def historyFrom (queue : List OperationResult) : List Step → List Event
  | [] => []
  | .forward operation :: rest =>
    queue.map .applied ++ .passed operation :: historyFrom [] rest
  | .receive result :: rest => .applied result :: historyFrom queue rest
  | .send result :: rest => historyFrom (queue ++ [result]) rest
  | .drain :: rest => queue.map .applied ++ historyFrom [] rest
  | .learn document :: rest => .learned document :: historyFrom queue rest

/-- What is in the queue after a run that begins with these results in it. -/
def queueAfter (queue : List OperationResult) : List Step → List OperationResult
  | [] => queue
  | .forward _ :: rest | .drain :: rest => queueAfter [] rest
  | .send result :: rest => queueAfter (queue ++ [result]) rest
  | .receive _ :: rest | .learn _ :: rest => queueAfter queue rest

/-- What happens in a run that begins with nothing in the queue. -/
def history (steps : List Step) : List Event := historyFrom [] steps

/-! ## What a history says -/

/-- The operation that passes under this key, unless it is a mutation. -/
def Event.operation? (key : Nat) : Event → Option Operation
  | .passed operation =>
    if operation.key = key ∧ operation.intent ≠ .run .mutation then some operation else none
  | .applied _ | .learned _ => none

/-- Whether a result of this key is applied. -/
def Event.answers (key : Nat) : Event → Bool
  | .applied result => result.key = key
  | .passed _ | .learned _ => false

/-- The last operation that passed under this key, mutations aside. -/
def latest? (history : List Event) (key : Nat) : Option Operation :=
  (history.filterMap (Event.operation? key)).getLast?

/-- What happened since it passed. -/
def since (history : List Event) (key : Nat) : List Event :=
  history.rtakeWhile fun event => (event.operation? key).isNone

/-- The operation of this key that waits for results: the last one that passed, if it is a
subscription, or if it is a query and no result of its key was applied since. -/
def awaited? (history : List Event) (key : Nat) : Option Operation :=
  (latest? history key).filter fun operation =>
    operation.intent = .run .subscription ||
      operation.intent = .run .query && !(since history key).any (Event.answers key)

/-- The document that an event teaches: one that is learned, or that of the operation that waits for
a result with data. -/
def Event.lesson? (before : List Event) : Event → Option Document
  | .passed _ => none
  | .applied result =>
    if result.hasData then (awaited? before result.key).map Operation.document else none
  | .learned document => some document

/-- The documents that further events teach. -/
def lessonsAfter (before : List Event) : List Event → List Document
  | [] => []
  | event :: rest => (event.lesson? before).toList ++ lessonsAfter (before ++ [event]) rest

/-- The documents that a history teaches, in order. -/
def lessons (history : List Event) : List Document := lessonsAfter [] history

/-! ## The history grows -/

section

variable (history : List Event) (key : Nat)

theorem lessonsAfter_append (before first second : List Event) :
    lessonsAfter before (first ++ second) =
      lessonsAfter before first ++ lessonsAfter (before ++ first) second := by
  induction first generalizing before with
  | nil => rw [List.append_nil]; rfl
  | cons event rest ih =>
    rw [List.cons_append, lessonsAfter, lessonsAfter, ih, List.append_assoc, List.append_assoc]
    rfl

/-- One more event teaches one more document at most. -/
theorem lessons_append (event : Event) :
    lessons (history ++ [event]) = lessons history ++ (event.lesson? history).toList := by
  unfold lessons
  rw [lessonsAfter_append, lessonsAfter, lessonsAfter, List.append_nil, List.nil_append]

/-- An operation that passes under the key, no mutation, is the one that waits or ends the wait. -/
theorem awaited?_append_of_operation? {event : Event} {operation : Operation}
    (h : event.operation? key = some operation) :
    awaited? (history ++ [event]) key =
      if operation.intent = .run .subscription ∨ operation.intent = .run .query then some operation
      else none := by
  have hlatest : latest? (history ++ [event]) key = some operation := by
    unfold latest?
    rw [List.filterMap_append, List.filterMap_cons_some h, List.getLast?_append_of_ne_nil]
    · rfl
    · simp
  have hsince : since (history ++ [event]) key = [] := by
    unfold since
    rw [List.rtakeWhile_concat_neg]
    rw [h]; simp
  unfold awaited?
  rw [hlatest, hsince]
  simp [Option.filter_some]

/-- Any other event leaves it waiting, unless it is a result of the key and ends its wait. -/
theorem awaited?_append_of_operation?_eq_none {event : Event}
    (h : event.operation? key = none) :
    awaited? (history ++ [event]) key =
      (awaited? history key).filter fun operation =>
        !(event.answers key && operation.intent = .run .query) := by
  have hlatest : latest? (history ++ [event]) key = latest? history key := by
    unfold latest?
    rw [List.filterMap_append, List.filterMap_cons_none h, List.filterMap_nil, List.append_nil]
  have hsince : since (history ++ [event]) key = since history key ++ [event] := by
    unfold since
    rw [List.rtakeWhile_concat_pos]
    rw [h]; rfl
  unfold awaited?
  rw [hlatest, hsince, Option.filter_filter]
  congr 1
  funext operation
  rw [List.any_append, List.any_cons, List.any_nil, Bool.or_false]
  by_cases hquery : operation.intent = .run .query
  · simp [hquery]
  · simp [hquery]

end

/-! ## Sessions under events -/

section

variable (session : Session) (key : Nat)

/-- What is forgotten waits no longer, and anything else waits as before. -/
theorem waiting?_forget (forgotten : Nat) :
    (session.forget forgotten).waiting? key =
      if forgotten = key then none else session.waiting? key := by
  unfold waiting? forget
  rw [List.find?_filter]
  split
  · rename_i h
    rw [List.find?_eq_none]
    intro operation _
    simp [h]
  · rename_i h
    congr 1
    funext operation
    by_cases hkey : operation.key = key
    · simp [hkey, Ne.symm h]
    · simp [hkey]

/-- What is remembered waits, and anything else waits as before. -/
theorem waiting?_remember (operation : Operation) :
    (session.remember operation).waiting? key =
      if operation.key = key then some operation else session.waiting? key := by
  have hforget := session.waiting?_forget key operation.key
  unfold remember waiting? at *
  rw [List.find?_cons, hforget]
  by_cases h : operation.key = key <;> simp [h]

/-- A result for which nothing waits does nothing. -/
theorem receive_of_waiting?_eq_none {result : OperationResult}
    (h : session.waiting? result.key = none) : session.receive result = session := by
  unfold receive
  rw [h]

/-- **What a result does** if an operation waits for it: the table learns from it, if it has data, and
the operation is forgotten, if it is a query. -/
theorem receive_of_waiting? {result : OperationResult} {operation : Operation}
    (h : session.waiting? result.key = some operation) :
    session.receive result =
      { session with
        table := session.table.learnAll session.schema
          (if result.hasData then [operation.document] else [])
        inFlight :=
          if operation.intent = .run .query then (session.forget result.key).inFlight
          else session.inFlight } := by
  unfold receive
  rw [h]
  by_cases hdata : result.hasData = true <;> by_cases hquery : operation.intent = .run .query <;>
    simp [hdata, hquery, learn, forget, UsageTable.learnAll]

/-- A result ends the wait of a query of its key, and of nothing else. -/
theorem waiting?_receive (result : OperationResult) :
    (session.receive result).waiting? key =
      (session.waiting? key).filter fun operation =>
        !(decide (result.key = key) && decide (operation.intent = .run .query)) := by
  by_cases hkey : result.key = key
  · subst hkey
    cases hwaiting : session.waiting? result.key with
    | none => rw [receive_of_waiting?_eq_none session hwaiting, hwaiting]; rfl
    | some operation =>
      rw [receive_of_waiting? session hwaiting]
      unfold waiting? at hwaiting ⊢
      by_cases hquery : operation.intent = .run .query
      · have hforget := session.waiting?_forget result.key result.key
        unfold waiting? at hforget
        simp [hquery, hforget, Option.filter_some]
      · simp [hquery, hwaiting, Option.filter_some]
  · have hother : (session.receive result).waiting? key = session.waiting? key := by
      cases hwaiting : session.waiting? result.key with
      | none => rw [receive_of_waiting?_eq_none session hwaiting]
      | some operation =>
        rw [receive_of_waiting? session hwaiting]
        have hforget := session.waiting?_forget key result.key
        rw [if_neg hkey] at hforget
        unfold waiting? at hforget ⊢
        dsimp only
        split
        · exact hforget
        · rfl
    rw [hother]
    cases session.waiting? key with
    | none => rfl
    | some operation => simp [hkey, Option.filter_some]

/-- What an event does to a session. -/
def happen (session : Session) : Event → Session
  | .passed operation =>
    match operation.intent with
    | .run .mutation => session
    | .run _ => session.remember operation
    | .teardown => session.forget operation.key
  | .applied result => session.receive result
  | .learned document => session.learn document

/-- An operation that passes, no mutation, waits under its key or ends the wait there. -/
theorem waiting?_happen_passed (operation : Operation) :
    (session.happen (.passed operation)).waiting? key =
      if operation.key = key ∧ operation.intent ≠ .run .mutation then
        if operation.intent = .run .subscription ∨ operation.intent = .run .query then
          some operation
        else none
      else session.waiting? key := by
  have hremember := session.waiting?_remember key operation
  have hforget := session.waiting?_forget key operation.key
  obtain ⟨own, intent, document⟩ := operation
  cases intent with
  | teardown => exact hforget.trans (by simp)
  | run type =>
    cases type with
    | mutation => simp [happen]
    | query => exact hremember.trans (by simp)
    | subscription => exact hremember.trans (by simp)

/-- The session with these results in the queue. -/
def withQueue (session : Session) (queue : List OperationResult) : Session :=
  { session with queue := queue }

/-- The queue plays no part in what an event does. -/
theorem happen_withQueue (queue : List OperationResult) (event : Event) :
    (session.withQueue queue).happen event = (session.happen event).withQueue queue := by
  cases event with
  | learned document => rfl
  | passed operation =>
    unfold happen
    dsimp only
    split
    · rfl
    · rfl
    · rfl
  | applied result =>
    unfold happen
    dsimp only
    have hsame : (session.withQueue queue).waiting? result.key = session.waiting? result.key := rfl
    cases hwaiting : session.waiting? result.key with
    | none =>
      rw [receive_of_waiting?_eq_none _ hwaiting, receive_of_waiting?_eq_none _ (hsame ▸ hwaiting)]
    | some operation =>
      rw [receive_of_waiting? _ hwaiting, receive_of_waiting? _ (hsame.trans hwaiting)]; rfl

/-- Neither does it in what several events do. -/
theorem foldl_happen_withQueue (queue : List OperationResult) (events : List Event) :
    events.foldl happen (session.withQueue queue) =
      (events.foldl happen session).withQueue queue := by
  induction events generalizing session with
  | nil => rfl
  | cons event rest ih => rw [List.foldl_cons, List.foldl_cons, happen_withQueue, ih]

/-- Working off the queue applies its results. -/
theorem drain_eq :
    session.drain = ((session.queue.map Event.applied).foldl happen session).withQueue [] := by
  rw [drain_eq_foldl, ← foldl_happen_withQueue, List.foldl_map]
  rfl

/-- An operation passes after the queue is worked off. -/
theorem forward_snd (operation : Operation) :
    (session.forward operation).2 = session.drain.happen (.passed operation) := by
  obtain ⟨key, intent, document⟩ := operation
  cases intent with
  | teardown => rfl
  | run type => cases type <;> rfl

/-- What passes on is the operation, if it is a mutation with the markers expanded in its document. -/
theorem forward_fst (operation : Operation) :
    (session.forward operation).1 =
      { operation with
        document :=
          if operation.intent = .run .mutation then session.drain.expansion.expand operation.document
          else operation.document } := by
  obtain ⟨key, intent, document⟩ := operation
  cases intent with
  | teardown => rfl
  | run type => cases type <;> rfl

/-- What is added to an operation on its way is what the expansion of its document adds. -/
theorem mem_drop_expand_of_forward {operation : Operation} {added : Definition}
    (h : added ∈ (session.forward operation).1.document.definitions.drop
      operation.document.definitions.length) :
    added ∈ (session.drain.expansion.expand operation.document).definitions.drop
      operation.document.definitions.length := by
  rw [forward_fst] at h
  dsimp only at h
  split at h
  · exact h
  · rw [List.drop_length] at h; simp at h

/-- **What a step does**: some events happen, and some results are left in the queue. -/
theorem step_eq (step : Step) :
    session.step step =
      ((historyFrom session.queue [step]).foldl happen session).withQueue
        (queueAfter session.queue [step]) := by
  cases step with
  | forward operation =>
    unfold Session.step historyFrom historyFrom
    dsimp only
    rw [forward_snd, drain_eq, happen_withQueue, List.foldl_append]; rfl
  | receive result => exact session.happen_withQueue session.queue (.applied result)
  | send result => rfl
  | drain =>
    unfold Session.step historyFrom historyFrom
    dsimp only
    rw [drain_eq, List.append_nil]; rfl
  | learn document => rfl

theorem historyFrom_cons (queue : List OperationResult) (step : Step) (rest : List Step) :
    historyFrom queue (step :: rest) =
      historyFrom queue [step] ++ historyFrom (queueAfter queue [step]) rest := by
  cases step <;> simp [historyFrom, queueAfter]

theorem queueAfter_cons (queue : List OperationResult) (step : Step) (rest : List Step) :
    queueAfter queue (step :: rest) = queueAfter (queueAfter queue [step]) rest := by
  cases step <;> rfl

/-- **A run is what happens in it**, and what is left in the queue. -/
theorem run_eq (steps : List Step) :
    session.run steps =
      ((historyFrom session.queue steps).foldl happen session).withQueue
        (queueAfter session.queue steps) := by
  induction steps generalizing session with
  | nil => rfl
  | cons step rest ih =>
    have hrun : session.run (step :: rest) = (session.step step).run rest := rfl
    rw [hrun, ih, historyFrom_cons session.queue step rest,
      queueAfter_cons session.queue step rest, List.foldl_append, step_eq, foldl_happen_withQueue]
    rfl

end

/-- A session that has worked off its queue is reached by one more step. -/
theorem run_drain (session : Session) (steps : List Step) :
    (session.run steps).drain = session.run (steps ++ [.drain]) := by
  unfold run
  rw [List.foldl_append]; rfl

/-! ## What tables keep -/

theorem learnAll_append (table : UsageTable) (schema : Schema) (first second : List Document) :
    table.learnAll schema (first ++ second) =
      (table.learnAll schema first).learnAll schema second :=
  List.foldl_append

/-- What tables keep when a document is learned, they keep when several are. -/
theorem learnAll_induction {Kept : UsageTable → Prop} {schema : Schema}
    (hlearn : ∀ table, ∀ document : Document, Kept table →
      Kept (table.mergeAll (document.usages schema)))
    {table : UsageTable} (h : Kept table) (documents : List Document) :
    Kept (table.learnAll schema documents) := by
  induction documents generalizing table with
  | nil => exact h
  | cons document rest ih => exact ih (hlearn table document h)

/-- An event leaves the schema alone, and the table too, unless it teaches documents. -/
theorem happen_table (session : Session) (event : Event) :
    (session.happen event).schema = session.schema ∧
      ∃ documents, (session.happen event).table =
        session.table.learnAll session.schema documents := by
  cases event with
  | learned document => exact ⟨rfl, [document], rfl⟩
  | applied result =>
    unfold happen
    dsimp only
    cases hwaiting : session.waiting? result.key with
    | none => rw [receive_of_waiting?_eq_none session hwaiting]; exact ⟨rfl, [], rfl⟩
    | some operation => rw [receive_of_waiting? session hwaiting]; exact ⟨rfl, _, rfl⟩
  | passed operation =>
    obtain ⟨key, intent, document⟩ := operation
    cases intent with
    | teardown => exact ⟨rfl, [], rfl⟩
    | run type => cases type <;> exact ⟨rfl, [], rfl⟩

/-- So do several events. -/
theorem foldl_happen_table (session : Session) (events : List Event) :
    (events.foldl happen session).schema = session.schema ∧
      ∃ documents, (events.foldl happen session).table =
        session.table.learnAll session.schema documents := by
  induction events generalizing session with
  | nil => exact ⟨rfl, [], rfl⟩
  | cons event rest ih =>
    obtain ⟨hschema, first, hfirst⟩ := happen_table session event
    obtain ⟨hsame, others, hothers⟩ := ih (session.happen event)
    refine ⟨hsame.trans hschema, first ++ others, ?_⟩
    rw [List.foldl_cons, hothers, hfirst, hschema, ← learnAll_append]

/-- An event leaves the options alone. -/
theorem options_happen (session : Session) (event : Event) :
    (session.happen event).options = session.options := by
  cases event with
  | learned document => rfl
  | applied result =>
    unfold happen
    dsimp only
    cases hwaiting : session.waiting? result.key with
    | none => rw [receive_of_waiting?_eq_none session hwaiting]
    | some operation => rw [receive_of_waiting? session hwaiting]
  | passed operation =>
    obtain ⟨key, intent, document⟩ := operation
    cases intent with
    | teardown => rfl
    | run type => cases type <;> rfl

/-- **A run leaves the schema and the options alone.** -/
theorem settings_run (session : Session) (steps : List Step) :
    (session.run steps).schema = session.schema ∧ (session.run steps).options = session.options := by
  have hoptions : ∀ events : List Event, (events.foldl happen session).options = session.options := by
    intro events
    induction events using List.reverseRecOn with
    | nil => rfl
    | append_singleton events event ih =>
      rw [List.foldl_append, List.foldl_cons, List.foldl_nil, options_happen, ih]
  rw [run_eq]
  exact ⟨(session.foldl_happen_table _).1, hoptions _⟩

/-- **The table of a session in any run**: what tables keep when a document is learned, it keeps. -/
theorem table_run_induction {Kept : UsageTable → Prop} {session : Session}
    (hlearn : ∀ table, ∀ document : Document, Kept table →
      Kept (table.mergeAll (document.usages session.schema)))
    (h : Kept session.table) (steps : List Step) : Kept (session.run steps).table := by
  obtain ⟨-, documents, htable⟩ := session.foldl_happen_table (historyFrom session.queue steps)
  have hrun : (session.run steps).table = session.table.learnAll session.schema documents := by
    rw [run_eq, ← htable]; rfl
  rw [hrun]
  exact learnAll_induction hlearn h documents

/-- So it does once the queue is worked off. -/
theorem table_drain_run_induction {Kept : UsageTable → Prop} {session : Session}
    (hlearn : ∀ table, ∀ document : Document, Kept table →
      Kept (table.mergeAll (document.usages session.schema)))
    (h : Kept session.table) (steps : List Step) : Kept (session.run steps).drain.table := by
  rw [run_drain]
  exact table_run_induction hlearn h _

/-! ## What the session holds -/

/-- **The session holds what the history says**: its table what was known before and the lessons of
the history, and its operations in flight are those that wait. -/
structure Follows (schema : Schema) (table : UsageTable) (history : List Event)
    (session : Session) : Prop where
  schema_eq : session.schema = schema
  table_eq : session.table = table.learnAll schema (lessons history)
  waiting_eq : ∀ key, session.waiting? key = awaited? history key
  keys_nodup : (session.inFlight.map Operation.key).Nodup

section

variable {schema : Schema} {table : UsageTable} {history : List Event} {session : Session}

/-- Forgetting an operation keeps the keys of the others apart. -/
theorem keys_nodup_forget (h : (session.inFlight.map Operation.key).Nodup) (key : Nat) :
    ((session.forget key).inFlight.map Operation.key).Nodup :=
  h.sublist (List.filter_sublist.map Operation.key)

/-- So does remembering one in place of an older one. -/
theorem keys_nodup_remember (h : (session.inFlight.map Operation.key).Nodup)
    (operation : Operation) :
    ((session.remember operation).inFlight.map Operation.key).Nodup := by
  have hothers := keys_nodup_forget h operation.key
  refine List.nodup_cons.2 ⟨?_, hothers⟩
  intro hmem
  obtain ⟨other, hother, hkey⟩ := List.mem_map.1 hmem
  have hkept := (List.mem_filter.1 hother).2
  simp [hkey] at hkept

/-- An operation that passes keeps the session with its history. -/
theorem Follows.passed (h : session.Follows schema table history) (operation : Operation) :
    (session.happen (.passed operation)).Follows schema table (history ++ [.passed operation]) := by
  have htable : table.learnAll schema (lessons (history ++ [.passed operation])) =
      session.table := by
    rw [lessons_append, h.table_eq]
    exact congrArg _ (List.append_nil _)
  have hwaiting : ∀ key, (session.happen (.passed operation)).waiting? key =
      awaited? (history ++ [.passed operation]) key := by
    intro key
    rw [waiting?_happen_passed]
    by_cases hpasses : operation.key = key ∧ operation.intent ≠ .run .mutation
    · have hsome : Event.operation? key (.passed operation) = some operation := if_pos hpasses
      rw [if_pos hpasses, awaited?_append_of_operation? history key hsome]
    · have hnone : Event.operation? key (.passed operation) = none := if_neg hpasses
      rw [if_neg hpasses, awaited?_append_of_operation?_eq_none history key hnone, h.waiting_eq]
      cases awaited? history key <;> rfl
  obtain ⟨own, intent, document⟩ := operation
  cases intent with
  | teardown =>
    exact ⟨h.schema_eq, htable.symm, hwaiting, keys_nodup_forget h.keys_nodup own⟩
  | run type =>
    cases type with
    | mutation => exact ⟨h.schema_eq, htable.symm, hwaiting, h.keys_nodup⟩
    | query => exact ⟨h.schema_eq, htable.symm, hwaiting, keys_nodup_remember h.keys_nodup _⟩
    | subscription =>
      exact ⟨h.schema_eq, htable.symm, hwaiting, keys_nodup_remember h.keys_nodup _⟩

/-- A result that is applied keeps the session with its history. -/
theorem Follows.applied (h : session.Follows schema table history) (result : OperationResult) :
    (session.happen (.applied result)).Follows schema table (history ++ [.applied result]) := by
  have hwaiting : ∀ key, (session.receive result).waiting? key =
      awaited? (history ++ [.applied result]) key := by
    intro key
    rw [waiting?_receive, h.waiting_eq, awaited?_append_of_operation?_eq_none history key rfl]
    rfl
  have hlessons := lessons_append history (.applied result)
  have hlesson : Event.lesson? history (.applied result) =
      if result.hasData then (session.waiting? result.key).map Operation.document else none := by
    rw [h.waiting_eq]; rfl
  rw [hlesson] at hlessons
  unfold happen
  dsimp only
  cases hsome : session.waiting? result.key with
  | none =>
    have htable : lessons (history ++ [.applied result]) = lessons history := by
      rw [hlessons, hsome]; simp
    have hsame := receive_of_waiting?_eq_none session hsome
    refine ⟨?_, ?_, hwaiting, ?_⟩
    · rw [hsame]; exact h.schema_eq
    · rw [hsame, htable]; exact h.table_eq
    · rw [hsame]; exact h.keys_nodup
  | some operation =>
    have htable : lessons (history ++ [.applied result]) =
        lessons history ++ if result.hasData then [operation.document] else [] := by
      rw [hlessons, hsome]
      cases result.hasData <;> rfl
    have hafter := receive_of_waiting? session hsome
    refine ⟨?_, ?_, hwaiting, ?_⟩
    · rw [hafter]; exact h.schema_eq
    · rw [hafter, htable, learnAll_append, ← h.table_eq, ← h.schema_eq]
    · rw [hafter]
      dsimp only
      split
      · exact keys_nodup_forget h.keys_nodup _
      · exact h.keys_nodup

/-- A document that is learned keeps the session with its history. -/
theorem Follows.learned (h : session.Follows schema table history) (document : Document) :
    (session.happen (.learned document)).Follows schema table (history ++ [.learned document]) := by
  refine ⟨h.schema_eq, ?_, ?_, h.keys_nodup⟩
  · rw [lessons_append, learnAll_append, ← h.table_eq, ← h.schema_eq]; rfl
  · intro key
    rw [awaited?_append_of_operation?_eq_none history key rfl, ← h.waiting_eq]
    have hsame : (session.happen (.learned document)).waiting? key = session.waiting? key := rfl
    rw [hsame]
    cases session.waiting? key <;> rfl

/-- **Each event keeps the session with its history.** -/
theorem Follows.happen (h : session.Follows schema table history) (event : Event) :
    (session.happen event).Follows schema table (history ++ [event]) := by
  cases event with
  | passed operation => exact h.passed operation
  | applied result => exact h.applied result
  | learned document => exact h.learned document

/-- **The run lemma.** So do several events. -/
theorem Follows.foldl_happen (h : session.Follows schema table history) (events : List Event) :
    (events.foldl Session.happen session).Follows schema table (history ++ events) := by
  induction events generalizing session history with
  | nil => rw [List.append_nil]; exact h
  | cons event rest ih =>
    have hrest := ih (h.happen event)
    rw [List.append_assoc] at hrest
    exact hrest

/-- A session starts without a history. -/
theorem follows_start (schema : Schema) (options : MarkerOptions) (table : UsageTable) :
    (start schema options table).Follows schema table [] :=
  ⟨rfl, rfl, fun _ => rfl, List.nodup_nil⟩

/-- After a run the session holds what the history of the run says. -/
theorem follows_run (schema : Schema) (options : MarkerOptions) (table : UsageTable)
    (steps : List Step) :
    ((start schema options table).run steps).Follows schema table (Session.history steps) := by
  have hevents := (follows_start schema options table).foldl_happen (Session.history steps)
  rw [run_eq]
  exact ⟨hevents.schema_eq, hevents.table_eq, hevents.waiting_eq, hevents.keys_nodup⟩

/-- The keys in flight are those under which something waits. -/
theorem mem_keys_iff (session : Session) (key : Nat) :
    key ∈ session.inFlight.map Operation.key ↔ (session.waiting? key).isSome = true := by
  unfold waiting?
  rw [List.find?_isSome, List.mem_map]
  simp only [decide_eq_true_eq]

/-- Something waits under a key if the last operation that passed is a subscription, or a query
without a result since. -/
theorem isSome_awaited?_iff (history : List Event) (key : Nat) :
    (awaited? history key).isSome = true ↔
      ∃ operation, latest? history key = some operation ∧
        (operation.intent = .run .subscription ∨
          operation.intent = .run .query ∧
            ∀ result, .applied result ∈ since history key → result.key ≠ key) := by
  have hanswers : (since history key).any (Event.answers key) = false ↔
      ∀ result, .applied result ∈ since history key → result.key ≠ key := by
    rw [List.any_eq_false]
    constructor
    · intro h result hresult hkey
      exact h _ hresult (by simp [Event.answers, hkey])
    · intro h event hevent
      cases event with
      | passed | learned => simp [Event.answers]
      | applied result => simpa [Event.answers] using h result hevent
  unfold awaited?
  cases latest? history key with
  | none => simp
  | some operation => simp [Option.isSome_filter, ← hanswers]

/-- **A session is told from its history.** After any run of a session, new or with usages learned
before,

* the table holds what it held at the start and the lessons of the history, and nothing else;
* the operations in flight are those that wait, one for each key under which the last operation that
  passed is a subscription, or a query without a result since;
* the queue holds the results that were sent and not worked off;
* a mutation only works off the queue, and neither a result without data nor one for which nothing
  waits changes the table. -/
theorem run_start (schema : Schema) (options : MarkerOptions) (table : UsageTable)
    (steps : List Step) :
    let session := (start schema options table).run steps
    session.table = table.learnAll schema (lessons (Session.history steps)) ∧
      (∀ key, session.waiting? key = awaited? (Session.history steps) key) ∧
      (session.inFlight.map Operation.key).Nodup ∧
      (∀ key, key ∈ session.inFlight.map Operation.key ↔
        ∃ operation, latest? (Session.history steps) key = some operation ∧
          (operation.intent = .run .subscription ∨
            operation.intent = .run .query ∧
              ∀ result, .applied result ∈ since (Session.history steps) key →
                result.key ≠ key)) ∧
      session.queue = queueAfter [] steps ∧
      (∀ operation, operation.intent = .run .mutation →
        (session.forward operation).2 = session.drain) ∧
      (∀ result, result.hasData = false ∨ awaited? (Session.history steps) result.key = none →
        (session.receive result).table = session.table) := by
  intro session
  have hfollows : session.Follows schema table (Session.history steps) :=
    follows_run schema options table steps
  refine ⟨hfollows.table_eq, hfollows.waiting_eq, hfollows.keys_nodup, ?_, ?_, ?_, ?_⟩
  · intro key
    rw [mem_keys_iff, hfollows.waiting_eq]
    exact isSome_awaited?_iff _ key
  · have hrun : session = _ := run_eq (start schema options table) steps
    rw [hrun]; rfl
  · intro operation hmutation
    rw [forward_snd]
    unfold Session.happen
    dsimp only
    rw [hmutation]
  · intro result hresult
    rw [← hfollows.waiting_eq] at hresult
    cases hwaiting : session.waiting? result.key with
    | none => rw [receive_of_waiting?_eq_none session hwaiting]
    | some operation =>
      have hdata := hresult.resolve_right (by rw [hwaiting]; simp)
      rw [receive_of_waiting? session hwaiting, hdata]; rfl

/-- Of two queries under one key the second one waits, and only its first result teaches. -/
example (first second : Document) :
    lessons (Session.history
      [.forward ⟨1, .run .query, first⟩, .forward ⟨1, .run .query, second⟩,
        .send ⟨1, some (.boolean true), []⟩, .receive ⟨2, some (.boolean true), []⟩, .drain,
        .receive ⟨1, some (.boolean true), []⟩]) = [second] := rfl

end

end Session

end SelectionRecall
