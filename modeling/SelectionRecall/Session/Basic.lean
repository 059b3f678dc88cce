import SelectionRecall.Expansion.Marker
import SelectionRecall.Session.Operation

/-!
# Sessions

A session stands between a client and a server. It learns from the queries and subscriptions that
the server answered, and expands the markers of mutations with what it has learned. A query waits for
its first result, a subscription for its teardown. Results that were sent to the session wait in a
queue, which is worked off before the next operation passes.

* `Session`: what has been learned, and what is waiting.
* `Session.forward`: passes one operation.
* `Session.receive`, `Session.send`, `Session.drainResults`: results that are applied, queued and worked
  off.
* `Session.drainResults_fst`, `Session.drain_eq_foldl`: what working off the queue comes to.
* `Session.pull`: passes the first operations of a stream.
-/

namespace SelectionRecall

/-- What has been learned, the operations that wait for results, and the results that were sent. -/
structure Session where
  schema : Schema
  options : MarkerOptions
  table : UsageTable
  inFlight : List Operation
  queue : List OperationResult

namespace Session

/-- A session that goes on from usages learned before. -/
def start (schema : Schema) (options : MarkerOptions) (table : UsageTable) : Session :=
  ⟨schema, options, table, [], []⟩

/-- The operation of a key that waits for results. -/
def waiting? (session : Session) (key : Nat) : Option Operation :=
  session.inFlight.find? fun operation => operation.key = key

/-- Forgets the operation of a key. -/
def forget (session : Session) (key : Nat) : Session :=
  { session with inFlight := session.inFlight.filter fun operation => operation.key ≠ key }

/-- Remembers an operation in place of an older one of its key. -/
def remember (session : Session) (operation : Operation) : Session :=
  { session with inFlight := operation :: (session.forget operation.key).inFlight }

/-- Learns what a document selects. -/
def learn (session : Session) (document : Document) : Session :=
  { session with table := session.table.mergeAll (document.usages session.schema) }

/-- What markers are expanded with at this time. -/
def expansion (session : Session) : Expansion :=
  ⟨session.options, session.schema, session.table⟩

/-- Learns from a result that has data and belongs to an operation in flight. A query is forgotten
after its first result. -/
def receive (session : Session) (result : OperationResult) : Session :=
  match session.waiting? result.key with
  | none => session
  | some operation =>
    let learned := if result.hasData then session.learn operation.document else session
    if operation.intent = .run .query then learned.forget result.key else learned

/-- Queues a result. -/
def send (session : Session) (result : OperationResult) : Session :=
  { session with queue := session.queue ++ [result] }

/-- Applies results one by one, and counts them. -/
def receiveAll (session : Session) : List OperationResult → Nat × Session
  | [] => (0, session)
  | result :: rest =>
    let others := (session.receive result).receiveAll rest
    (others.1 + 1, others.2)

/-- Works off the queue, and tells how many results were in it. -/
def drainResults (session : Session) : Nat × Session :=
  { session with queue := [] }.receiveAll session.queue

/-- The session after its queue was worked off. -/
def drain (session : Session) : Session := session.drainResults.2

theorem receiveAll_eq (session : Session) (results : List OperationResult) :
    session.receiveAll results = (results.length, results.foldl receive session) := by
  induction results generalizing session with
  | nil => rfl
  | cons result rest ih => rw [receiveAll, ih]; rfl

/-- As many results are counted as were in the queue. -/
theorem drainResults_fst (session : Session) : session.drainResults.1 = session.queue.length := by
  rw [drainResults, receiveAll_eq]

/-- Working off the queue applies its results in their order. -/
theorem drain_eq_foldl (session : Session) :
    session.drain = session.queue.foldl receive { session with queue := [] } := by
  rw [drain, drainResults, receiveAll_eq]

/-- The number of operations that wait for results. -/
def inFlightCount (session : Session) : Nat := session.inFlight.length

/-- Passes one operation, after the queue is worked off. Queries and subscriptions are remembered,
the markers of mutations expanded, and teardowns forget the operation of their key. -/
def forward (session : Session) (operation : Operation) : Operation × Session :=
  let session := session.drain
  match operation.intent with
  | .run .mutation =>
    ({ operation with document := session.expansion.expand operation.document }, session)
  | .run _ => (operation, session.remember operation)
  | .teardown => (operation, session.forget operation.key)

/-- Passes the first `count` operations of a stream, or all if there are fewer. -/
def pull (session : Session) : Nat → List Operation → List Operation × Session
  | 0, _ | _, [] => ([], session)
  | count + 1, operation :: rest =>
    let first := session.forward operation
    let others := first.2.pull count rest
    (first.1 :: others.1, others.2)

/-- Passes all operations of a stream. -/
def transform (session : Session) (operations : List Operation) : List Operation × Session :=
  session.pull operations.length operations

end Session

end SelectionRecall
