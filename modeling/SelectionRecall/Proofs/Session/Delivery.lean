import SelectionRecall.Proofs.Session.History

/-!
# Results reach the session in the order in which they were sent

A result that was sent waits in the queue. It might as well be received later, without any queue: just
before the next operation passes or the queue is worked off, after all results that were sent before it.
The operations that pass, the table and the operations in flight are the same. So the queue neither
loses a result nor applies one twice, and it keeps their order.

* `Session.workOff`: takes the results off the queue one by one, and counts them.
* `Session.workOff_eq`, `Session.workOff_zero`: this is `Session.drainResults`, and the count is the length
  of the queue.
* `Session.Action`, `Session.Traffic`: what may be done while a stream of operations is pulled, and what
  has come of it.
* `Session.Traffic.run_replicate_pull`: pulling operations one by one is `Session.pull`.
* `Session.delivered`: the same actions without a queue.
* `Session.Traffic.balance_run`: no result is lost, and none is counted twice.
* `Session.run_delivered`: a run and the same run without a queue.
-/

namespace SelectionRecall.Session

/-! ## Working off the queue -/

/-- A result that is applied leaves the queue alone. -/
theorem queue_receive (session : Session) (result : OperationResult) :
    (session.receive result).queue = session.queue := by
  cases hwaiting : session.waiting? result.key with
  | none => rw [receive_of_waiting?_eq_none session hwaiting]
  | some operation => rw [receive_of_waiting? session hwaiting]

/-- Takes results off the queue until there is none, applies each of them, and adds one for each of them
to a count. -/
def workOff (session : Session) (count : Nat) : Nat × Session :=
  match h : session.queue with
  | [] => (count, session)
  | result :: rest => ((session.withQueue rest).receive result).workOff (count + 1)
termination_by session.queue.length
decreasing_by rw [queue_receive, h]; exact Nat.lt_succ_self _

/-- Taking off the first result leaves the others to be worked off. -/
theorem drain_receive_withQueue {session : Session} {result : OperationResult}
    {rest : List OperationResult} (h : session.queue = result :: rest) :
    ((session.withQueue rest).receive result).drain = session.drain := by
  have hreceive : (session.withQueue rest).receive result =
      (session.receive result).withQueue rest := session.happen_withQueue rest (.applied result)
  have hempty : (session.withQueue []).receive result = (session.receive result).withQueue [] :=
    session.happen_withQueue [] (.applied result)
  calc ((session.withQueue rest).receive result).drain
      = rest.foldl receive ((session.receive result).withQueue []) := by
        rw [hreceive, drain_eq_foldl]; rfl
    _ = (result :: rest).foldl receive (session.withQueue []) := by rw [List.foldl_cons, hempty]
    _ = session.drain := by rw [drain_eq_foldl, ← h]; rfl

/-- **Working off the queue** one by one applies all its results, and counts each of them once. -/
theorem workOff_eq (session : Session) (count : Nat) :
    session.workOff count = (count + session.queue.length, session.drain) := by
  induction hqueue : session.queue generalizing session count with
  | nil =>
    have hdrain : session.drain = session := by
      rw [drain_eq_foldl, hqueue, List.foldl_nil, ← hqueue]
    rw [workOff, hdrain]
    split
    · rfl
    · rename_i hcons
      rw [hqueue] at hcons; cases hcons
  | cons result rest ih =>
    have hrest : ((session.withQueue rest).receive result).queue = rest := queue_receive _ result
    rw [workOff]
    split
    · rename_i hnil
      rw [hqueue] at hnil; cases hnil
    · rename_i first others hcons
      obtain ⟨rfl, rfl⟩ := List.cons.inj (hqueue.symm.trans hcons)
      rw [ih _ _ hrest, drain_receive_withQueue hqueue, List.length_cons, Nat.add_right_comm]; rfl

/-- So nothing is lost or counted twice when the queue is emptied first. -/
theorem workOff_zero (session : Session) : session.workOff 0 = session.drainResults := by
  rw [workOff_eq, Nat.zero_add, ← session.drainResults_fst]; rfl

/-- After that nothing is left to work off. -/
theorem queue_drain (session : Session) : session.drain.queue = [] := by
  rw [drain_eq]; rfl

theorem drain_drain (session : Session) : session.drain.drain = session.drain := by
  have hempty := session.queue_drain
  rw [session.drain.drain_eq_foldl, hempty, List.foldl_nil, ← hempty]

/-- An operation passes a session as it passes one that has worked off its queue before. -/
theorem forward_drain (session : Session) (operation : Operation) :
    session.drain.forward operation = session.forward operation := by
  unfold forward
  rw [drain_drain]

theorem queue_forward (session : Session) (operation : Operation) :
    (session.forward operation).2.queue = [] := by
  have hempty : session.drain.withQueue [] = session.drain := by rw [drain_eq]; rfl
  have hhappen := session.drain.happen_withQueue [] (.passed operation)
  rw [forward_snd, ← hempty, hhappen]; rfl

/-! ## Streams of operations -/

/-- What may be done while operations are pulled through a session: a step of the session, a stream that
is opened, or an operation that is pulled through from the stream opened last. -/
inductive Action where
  | step (step : Step)
  | transform (operations : List Operation)
  | pull

/-- A session, what the stream still holds, the operations that have passed, and the number of results
that were taken off the queue. -/
structure Traffic where
  session : Session
  upstream : List Operation
  passed : List Operation
  taken : Nat

/-- A session before anything is done with it. -/
def Traffic.start (session : Session) : Traffic := ⟨session, [], [], 0⟩

/-- The operations that a step passes on. -/
def passedBy (session : Session) : Step → List Operation
  | .forward operation => [(session.forward operation).1]
  | .receive _ | .send _ | .drain | .learn _ => []

/-- The number of results that a step takes off the queue. -/
def takenBy (session : Session) : Step → Nat
  | .forward _ | .drain => session.drainResults.1
  | .receive _ | .send _ | .learn _ => 0

namespace Traffic

/-- Does one action. From a stream that holds nothing more nothing is pulled, and the queue stays. -/
def act (traffic : Traffic) : Action → Traffic
  | .step step =>
    ⟨traffic.session.step step, traffic.upstream, traffic.passed ++ traffic.session.passedBy step,
      traffic.taken + traffic.session.takenBy step⟩
  | .transform operations => { traffic with upstream := operations }
  | .pull =>
    let pulled := traffic.session.pull 1 traffic.upstream
    ⟨pulled.2, traffic.upstream.tail, traffic.passed ++ pulled.1,
      traffic.taken + if traffic.upstream.isEmpty then 0 else traffic.session.drainResults.1⟩

/-- Does actions from the first to the last. -/
def run (traffic : Traffic) (actions : List Action) : Traffic := actions.foldl act traffic

theorem run_cons (traffic : Traffic) (action : Action) (rest : List Action) :
    traffic.run (action :: rest) = (traffic.act action).run rest := rfl

theorem run_append (traffic : Traffic) (first second : List Action) :
    traffic.run (first ++ second) = (traffic.run first).run second := List.foldl_append

/-- An operation that is pulled passes the session. -/
theorem act_pull_cons {traffic : Traffic} {operation : Operation} {rest : List Operation}
    (h : traffic.upstream = operation :: rest) :
    traffic.act .pull = { traffic.act (.step (.forward operation)) with upstream := rest } := by
  unfold act
  rw [h]; rfl

/-- From an empty stream nothing comes. -/
theorem act_pull_nil {traffic : Traffic} (h : traffic.upstream = []) :
    traffic.act .pull = traffic := by
  obtain ⟨session, upstream, passed, taken⟩ := traffic
  cases h
  simp [act, Session.pull]

/-- **Operations are pulled through one by one**: so many pulls are what `Session.pull` does with the
operations in the stream. -/
theorem run_replicate_pull (traffic : Traffic) (count : Nat) :
    let last := traffic.run (List.replicate count .pull)
    last.passed = traffic.passed ++ (traffic.session.pull count traffic.upstream).1 ∧
      last.session = (traffic.session.pull count traffic.upstream).2 ∧
      last.upstream = traffic.upstream.drop count := by
  dsimp only
  induction count generalizing traffic with
  | zero => simp [run, Session.pull]
  | succ count ih =>
    rw [List.replicate_succ, run_cons]
    cases hstream : traffic.upstream with
    | nil =>
      have hrest := ih traffic
      rw [hstream] at hrest
      rw [act_pull_nil hstream]
      cases count <;> simpa [Session.pull] using hrest
    | cons operation rest =>
      rw [act_pull_cons hstream]
      have hrest := ih { traffic.act (.step (.forward operation)) with upstream := rest }
      simpa [Session.pull, act, Session.step, passedBy] using hrest

end Traffic

/-! ## The same actions without a queue -/

/-- The result that an action sends. -/
def Action.sent? : Action → Option OperationResult
  | .step (.send result) => some result
  | .step _ | .transform _ | .pull => none

/-- Applies a result. -/
def Action.received (result : OperationResult) : Action := .step (.receive result)

/-- The same actions, but no result is sent. Those that wait at the beginning, and those that would be
sent later, are received one by one just before the queue would be worked off, in the order in which
they would be sent. The operations are those that the stream holds at the beginning. -/
def delivered (waiting : List OperationResult) (upstream : List Operation) :
    List Action → List Action
  | [] => []
  | .step (.send result) :: rest => delivered (waiting ++ [result]) upstream rest
  | .step (.forward operation) :: rest =>
    waiting.map .received ++ .step (.forward operation) :: delivered [] upstream rest
  | .step .drain :: rest => waiting.map .received ++ .step .drain :: delivered [] upstream rest
  | .step (.receive result) :: rest => .received result :: delivered waiting upstream rest
  | .step (.learn document) :: rest => .step (.learn document) :: delivered waiting upstream rest
  | .transform operations :: rest => .transform operations :: delivered waiting operations rest
  | .pull :: rest =>
    match upstream with
    | [] => .pull :: delivered waiting [] rest
    | _ :: others => waiting.map .received ++ .pull :: delivered [] others rest

/-- Without a queue nothing is sent. -/
theorem sent?_of_mem_delivered (waiting : List OperationResult) (upstream : List Operation)
    (actions : List Action) : ∀ action ∈ delivered waiting upstream actions, action.sent? = none := by
  have hreceived : ∀ waiting : List OperationResult,
      ∀ action ∈ waiting.map Action.received, action.sent? = none := by
    intro waiting action haction
    obtain ⟨result, -, rfl⟩ := List.mem_map.1 haction
    rfl
  induction actions generalizing waiting upstream with
  | nil => simp [delivered]
  | cons action rest ih =>
    cases action with
    | step step =>
      cases step with
      | send result => exact ih _ _
      | forward operation =>
        exact List.forall_mem_append.2 ⟨hreceived waiting, List.forall_mem_cons.2 ⟨rfl, ih _ _⟩⟩
      | drain => exact List.forall_mem_append.2 ⟨hreceived waiting, List.forall_mem_cons.2 ⟨rfl, ih _ _⟩⟩
      | receive result => exact List.forall_mem_cons.2 ⟨rfl, ih _ _⟩
      | learn document => exact List.forall_mem_cons.2 ⟨rfl, ih _ _⟩
    | transform operations => exact List.forall_mem_cons.2 ⟨rfl, ih _ _⟩
    | pull =>
      cases upstream with
      | nil => exact List.forall_mem_cons.2 ⟨rfl, ih _ _⟩
      | cons operation others =>
        exact List.forall_mem_append.2 ⟨hreceived waiting, List.forall_mem_cons.2 ⟨rfl, ih _ _⟩⟩

namespace Traffic

/-- The second one has no queue, and else they are the same, but for the number of results taken off. -/
structure Matches (queued direct : Traffic) : Prop where
  session : direct.session = queued.session.withQueue []
  upstream : direct.upstream = queued.upstream
  passed : direct.passed = queued.passed

variable {queued direct : Traffic}

/-- What is received in place of the queue is what working it off does. -/
theorem run_received (traffic : Traffic) (waiting : List OperationResult) :
    traffic.run (waiting.map .received) =
      { traffic with session := waiting.foldl receive traffic.session } := by
  induction waiting generalizing traffic with
  | nil => rfl
  | cons result rest ih =>
    rw [List.map_cons, run_cons, ih]
    simp [act, Action.received, Session.step, passedBy, takenBy]

/-- Without the queue, receiving what is in it leads to where it is worked off. -/
theorem Matches.foldl_receive (h : queued.Matches direct) :
    queued.session.queue.foldl receive direct.session = queued.session.drain := by
  rw [h.session, drain_eq_foldl]; rfl

/-- Both pass the same operation, and have the same session afterwards. -/
theorem Matches.forward (h : queued.Matches direct) (operation : Operation) :
    (queued.act (.step (.forward operation))).Matches
      (direct.run (queued.session.queue.map .received ++ [.step (.forward operation)])) := by
  have hempty := queue_forward queued.session operation
  rw [run_append, run_received, h.foldl_receive]
  refine ⟨?_, h.upstream, ?_⟩
  · show (queued.session.drain.forward operation).2 = (queued.session.forward operation).2.withQueue []
    rw [forward_drain, withQueue, ← hempty]
  · show direct.passed ++ [(queued.session.drain.forward operation).1] = _
    rw [forward_drain, h.passed]; rfl

/-- Both have the same session after the queue is worked off. -/
theorem Matches.drain (h : queued.Matches direct) :
    (queued.act (.step .drain)).Matches
      (direct.run (queued.session.queue.map .received ++ [.step .drain])) := by
  have hempty := queue_drain queued.session
  rw [run_append, run_received, h.foldl_receive]
  refine ⟨?_, h.upstream, ?_⟩
  · show queued.session.drain.drain = queued.session.drain.withQueue []
    rw [drain_drain, withQueue, ← hempty]
  · show direct.passed ++ [] = queued.passed ++ []
    rw [h.passed]

/-- What an action does does not depend on the queue, if it leaves the queue alone. -/
theorem Matches.happen (h : queued.Matches direct) (step : Step) (event : Event)
    (hstep : ∀ session : Session, session.step step = session.happen event)
    (hpassed : ∀ session : Session, session.passedBy step = []) :
    (queued.act (.step step)).Matches (direct.act (.step step)) := by
  refine ⟨?_, h.upstream, ?_⟩
  · show direct.session.step step = (queued.session.step step).withQueue []
    rw [hstep, hstep, h.session, happen_withQueue]
  · show direct.passed ++ direct.session.passedBy step = queued.passed ++ queued.session.passedBy step
    rw [hpassed, hpassed, h.passed]

/-- **A run and the same run without a queue** stay the same. -/
theorem Matches.run (h : queued.Matches direct) (actions : List Action) :
    (queued.run actions).Matches
      (direct.run (delivered queued.session.queue queued.upstream actions)) := by
  induction actions generalizing queued direct with
  | nil => exact h
  | cons action rest ih =>
    cases action with
    | transform operations => exact ih ⟨h.session, rfl, h.passed⟩
    | pull =>
      cases hstream : queued.upstream with
      | nil =>
        have hnothing : direct.upstream = [] := h.upstream.trans hstream
        have hrest := ih h
        rw [hstream] at hrest
        rw [delivered, run_cons, run_cons, act_pull_nil hstream, act_pull_nil hnothing]
        exact hrest
      | cons operation others =>
        -- what is pulled passes like any other operation
        have hpassed := h.forward operation
        have hqueue : (queued.act .pull).session.queue = [] := by
          rw [act_pull_cons hstream]; exact queue_forward _ _
        have hstep : (queued.act .pull).Matches
            (direct.run (queued.session.queue.map .received ++ [.pull])) := by
          have hsame : (direct.run (queued.session.queue.map .received)).upstream =
              operation :: others := by
            rw [run_received]; exact h.upstream.trans hstream
          rw [run_append] at hpassed ⊢
          rw [act_pull_cons hstream, run_cons, act_pull_cons hsame]
          exact ⟨hpassed.session, rfl, hpassed.passed⟩
        have hrest := ih hstep
        rw [hqueue, act_pull_cons hstream] at hrest
        rw [delivered, List.append_cons, run_append, run_cons, act_pull_cons hstream]
        exact hrest
    | step step =>
      cases step with
      | send result =>
        -- nothing happens on the other side: the result is owed to it from now on
        have hpassed : direct.passed = queued.passed ++ [] :=
          h.passed.trans (List.append_nil _).symm
        exact ih ⟨h.session, h.upstream, hpassed⟩
      | receive result =>
        have hrest := ih (h.happen (.receive result) (.applied result) (fun _ => rfl) fun _ => rfl)
        have hqueue := queue_receive queued.session result
        simp only [act, Session.step, hqueue] at hrest
        exact hrest
      | learn document =>
        exact ih (h.happen (.learn document) (.learned document) (fun _ => rfl) fun _ => rfl)
      | forward operation =>
        have hrest := ih (h.forward operation)
        have hqueue := queue_forward queued.session operation
        simp only [act, Session.step, hqueue] at hrest
        rw [delivered, List.append_cons, run_append]
        exact hrest
      | drain =>
        have hrest := ih h.drain
        have hqueue := queue_drain queued.session
        simp only [act, Session.step, hqueue] at hrest
        rw [delivered, List.append_cons, run_append]
        exact hrest

/-! ## The balance of the queue -/

/-- **The balance of the queue**: the results that were taken off it and those that are left in it are
those that were in it before and one more if one is sent. -/
theorem balance_act (traffic : Traffic) (action : Action) :
    (traffic.act action).taken + (traffic.act action).session.queue.length =
      traffic.taken + traffic.session.queue.length + action.sent?.toList.length := by
  have hforward : ∀ operation,
      traffic.taken + traffic.session.drainResults.1 +
        (traffic.session.forward operation).2.queue.length =
          traffic.taken + traffic.session.queue.length := by
    intro operation
    rw [drainResults_fst, queue_forward]; simp
  cases action with
  | transform operations => rfl
  | pull =>
    cases hstream : traffic.upstream with
    | nil => rw [act_pull_nil hstream]; rfl
    | cons operation rest => rw [act_pull_cons hstream]; exact hforward operation
  | step step =>
    cases step with
    | forward operation => exact hforward operation
    | drain =>
      show traffic.taken + traffic.session.drainResults.1 + traffic.session.drain.queue.length = _
      rw [drainResults_fst, queue_drain]; simp [Action.sent?]
    | send result => simp [act, Session.step, takenBy, Session.send, Action.sent?, Nat.add_assoc]
    | receive result => simp [act, Session.step, takenBy, queue_receive, Action.sent?]
    | learn document => rfl

/-- So it is in a run. -/
theorem balance_run (traffic : Traffic) (actions : List Action) :
    (traffic.run actions).taken + (traffic.run actions).session.queue.length =
      traffic.taken + traffic.session.queue.length + (actions.filterMap Action.sent?).length := by
  induction actions generalizing traffic with
  | nil => rfl
  | cons action rest ih =>
    rw [run_cons, ih, balance_act]
    cases hsent : action.sent? with
    | none => rw [List.filterMap_cons_none hsent]; rfl
    | some result => rw [List.filterMap_cons_some hsent, List.length_cons]; simp; omega

end Traffic

/-- **Sending a result is delivering it later.** For any session and any actions, of which the last one
works off the queue, consider the same actions without a queue: nothing is sent, and each result that
waits in the queue or would be sent later is received just before the queue would be worked off, by the
next operation that passes or is pulled through, or else on demand. Then

* the same operations have passed, and the session is the same, with its table and the operations in
  flight;
* no result is left in the queue, and the number of those that were taken off it is the number of those
  that were in it at the beginning or sent later; without the queue none is taken off. -/
theorem run_delivered (session : Session) (actions : List Action) :
    let queued := (Traffic.start session).run (actions ++ [.step .drain])
    let direct := (Traffic.start (session.withQueue [])).run
      (delivered session.queue [] (actions ++ [.step .drain]))
    (∀ action ∈ delivered session.queue [] (actions ++ [.step .drain]), action.sent? = none) ∧
      direct.passed = queued.passed ∧
      direct.session.table = queued.session.table ∧
      direct.session.inFlight = queued.session.inFlight ∧
      direct.session = queued.session ∧ queued.session.queue = [] ∧
      queued.taken = session.queue.length + (actions.filterMap Action.sent?).length ∧
      direct.taken = 0 := by
  intro queued direct
  have hstart : (Traffic.start session).Matches (.start (session.withQueue [])) := ⟨rfl, rfl, rfl⟩
  have hmatches : queued.Matches direct := hstart.run (actions ++ [.step .drain])
  have hempty : queued.session.queue = [] := by
    show ((Traffic.start session).run (actions ++ [.step .drain])).session.queue = []
    rw [Traffic.run_append]; exact queue_drain _
  have hsession : direct.session = queued.session := by
    rw [hmatches.session, withQueue, ← hempty]
  have hnone := sent?_of_mem_delivered session.queue [] (actions ++ [.step .drain])
  have hqueued := (Traffic.start session).balance_run (actions ++ [.step .drain])
  have hdirect := (Traffic.start (session.withQueue [])).balance_run
    (delivered session.queue [] (actions ++ [.step .drain]))
  rw [List.filterMap_eq_nil_iff.2 hnone] at hdirect
  have hdrain : [Action.step .drain].filterMap Action.sent? = [] := rfl
  rw [List.filterMap_append, hdrain, List.append_nil] at hqueued
  refine ⟨hnone, hmatches.passed, by rw [hsession], by rw [hsession], hsession, hempty, ?_, ?_⟩
  · have htaken : queued.taken + queued.session.queue.length = _ := hqueued
    rw [hempty] at htaken
    simpa [Traffic.start] using htaken
  · have htaken : direct.taken + direct.session.queue.length = _ := hdirect
    rw [hsession, hempty] at htaken
    simpa [Traffic.start, withQueue] using htaken

/-- A pull from an empty stream leaves the queue alone, an operation that passes does not. -/
example (operation : Operation) (first second : OperationResult) :
    delivered [] []
        [.step (.send first), .pull, .step (.send second), .step (.forward operation), .pull] =
      [.pull, .received first, .received second, .step (.forward operation), .pull] := rfl

end SelectionRecall.Session
