import SelectionRecall.Document.Basic
import SelectionRecall.Json

/-!
# Operations and results

What passes through a session: operations on their way to a server, and results on their way back.

* `Operation`: a document under a key, to be run or to be torn down.
* `OperationResult`: the answer of a server to the operation of a key.
-/

namespace SelectionRecall

/-- What is asked for: to run a document, or to forget an operation that was run before. -/
inductive Intent where
  | run (type : OperationType)
  | teardown
  deriving DecidableEq, Repr

/-- A document on its way to a server. -/
structure Operation where
  key : Nat
  intent : Intent
  document : Document
  deriving Repr

namespace Operation

/-- The operation that runs a document. What it does is what the first operation in it does. -/
def ofDocument (key : Nat) (document : Document) : Operation := ⟨key, .run document.type, document⟩

/-- The operation that tears this one down. -/
def toTeardown (operation : Operation) : Operation := { operation with intent := .teardown }

/-- How the key is written. -/
def keyText (operation : Operation) : String := "#" ++ toString operation.key

end Operation

/-- The answer to the operation of a key. -/
structure OperationResult where
  key : Nat
  data? : Option Json
  errors : List Json

namespace OperationResult

/-- Whether there is an answer to learn from. Null is none. -/
def hasData (result : OperationResult) : Bool :=
  match result.data? with
  | none | some .null => false
  | some _ => true

end OperationResult

end SelectionRecall
