import SelectionRecall.Command.Arguments
import SelectionRecall.Files.Discovery
import SelectionRecall.Files.Reading
import SelectionRecall.Session.Basic
import SelectionRecall.Text.Blank

/-!
# Running commands

The two commands of the program. One learns from observed documents and prints mutation documents
with their markers expanded; the other prints what was learned as fragments. A command prints its
output or fails with a message, never both. Both are told for any format of documents.

* `CommandError`: why a command failed.
* `FileSystem.learnAll`: learns from all documents at or under paths.
* `CommandOptions.populate`, `CommandOptions.selections`: the commands.
* `Outcome`, `Report`: what the program shows, and where it is written.
* `Request.answerIn`, `Request.answer`: the outcome of a request, in any format and in that of the program.
-/

namespace SelectionRecall

/-- Why a command failed. -/
inductive CommandError where
  | schema (cause : SchemaFileError)
  | scan (cause : ScanError)
  | document (cause : ReadError)

/-- The text of the error. -/
def CommandError.message : CommandError → String
  | .schema cause => cause.message
  | .scan cause => cause.message
  | .document cause => cause.message

namespace FileSystem

/-- Learns from documents that were found, one by one. -/
def learnFound (format : DocumentFormat) (session : Session) :
    List (List String × ByteArray) → Except CommandError Session
  | [] => .ok session
  | (place, bytes) :: rest =>
    match decodeDocument format (pathOf place) bytes with
    | .error cause => .error (.document cause)
    | .ok source => learnFound format (session.learn source.document) rest

/-- Learns from all documents at or under the paths. -/
def learnAll (files : FileSystem) (format : DocumentFormat) (paths extensions : List String)
    (session : Session) : Except CommandError Session :=
  match files.discover paths extensions with
  | .error cause => .error (.scan cause)
  | .ok discovery => learnFound format session discovery.found

/-- The documents that the paths lead to. -/
def readDocuments (files : FileSystem) (format : DocumentFormat) :
    List String → Except CommandError (List Document)
  | [] => .ok []
  | path :: rest =>
    match files.readDocumentIn format path with
    | .error cause => .error (.document cause)
    | .ok source =>
      match files.readDocuments format rest with
      | .error error => .error error
      | .ok others => .ok (source.document :: others)

end FileSystem

namespace CommandOptions

/-- The session that a command starts with. -/
def startSession (options : CommandOptions) (files : FileSystem) : Except CommandError Session :=
  match files.readSchema options.schema with
  | .error cause => .error (.schema cause)
  | .ok schema => .ok (.start schema options.markers .empty)

/-- The documents as operations, with their positions as keys. -/
def operations (documents : List Document) : List Operation :=
  documents.zipIdx.map fun (document, key) => Operation.ofDocument key document

/-- The section of the output for one document. -/
def resultSection (format : DocumentFormat) (path : String) (operation : Operation) : String :=
  "# " ++ path ++ "\n" ++ format.print operation.document ++ "\n"

/-- Expands the markers of the mutation documents with what the observed documents show. Each document
that comes out is printed under the path at the position that its key tells. -/
def populate (options : CommandOptions) (format : DocumentFormat) (files : FileSystem) :
    Except CommandError String := do
  let session ← options.startSession files
  let learned ← if options.observe.isEmpty then pure session
    else files.learnAll format options.observe options.extensions session
  let documents ← files.readDocuments format options.files
  let forwarded := (learned.transform (operations documents)).1
  return Text.trimEnd (String.join (forwarded.filterMap fun operation =>
    options.files[operation.key]?.map fun path => resultSection format path operation))

/-- Prints what the documents show as fragments. -/
def selections (options : CommandOptions) (format : DocumentFormat) (files : FileSystem) :
    Except CommandError String := do
  let session ← options.startSession files
  let learned ← files.learnAll format options.files options.extensions session
  if learned.table.isEmpty then return "# No selections were observed."
  return format.print (learned.table.toDocument options.markers.suffix)

end CommandOptions

/-- How the program is used. -/
def usage : String :=
  "Usage: [-v] populate --schema <SCHEMA> [--observe <PATH>...] [--directive <NAME>]\n"
    ++ "         [--fragment-suffix <SUFFIX>] [--graphql-file-exts <EXTENSIONS>] <FILE>...\n"
    ++ "       [-v] selections --schema <SCHEMA> [--fragment-suffix <SUFFIX>]\n"
    ++ "         [--graphql-file-exts <EXTENSIONS>] <PATH>..."

/-- What the program writes to its output and to its error output, and the code that it ends with. -/
structure Report where
  output? : Option String
  complaint? : Option String
  code : UInt32
  deriving DecidableEq, Repr

/-- What the program shows. -/
inductive Outcome where
  | help
  | misuse
  | nothing (verbose : Bool)
  | printed (text : String)
  | failed (message : String)
  deriving DecidableEq, Repr

namespace Outcome

/-- The outcome of a command. -/
def ofResult : Except CommandError String → Outcome
  | .ok text => .printed text
  | .error error => .failed ("❌ " ++ error.message)

/-- How an outcome is shown. -/
def report : Outcome → Report
  | .help | .nothing _ => ⟨some usage, none, 0⟩
  | .misuse => ⟨none, some usage, 2⟩
  | .printed text => ⟨some text, none, 0⟩
  | .failed message => ⟨none, some message, 1⟩

end Outcome

/-- The outcome of a request. -/
def Request.answerIn (format : DocumentFormat) (files : FileSystem) : Request → Outcome
  | .help => .help
  | .misuse => .misuse
  | .nothing verbose => .nothing verbose
  | .run .populate options => .ofResult (options.populate format files)
  | .run .selections options => .ofResult (options.selections format files)

/-- The outcome that the program shows. -/
def Request.answer (files : FileSystem) (request : Request) : Outcome :=
  request.answerIn .graphQL files

end SelectionRecall
