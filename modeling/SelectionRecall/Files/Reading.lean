import SelectionRecall.Document.Parser
import SelectionRecall.Document.Printer
import SelectionRecall.Files.Tree
import SelectionRecall.Schema.Building
import SelectionRecall.Text.Quoted

/-!
# Reading files

Texts, documents and schemas from files. All that is done with documents takes a parser and a printer for
them, which the program sets to its own.

* `DocumentFormat`: a parser and a printer for documents.
* `ReadError`: why a file could not be read, with its message and equality.
* `FileSystem.readText`, `FileSystem.readDocumentIn`, `FileSystem.readSchema`: reading.
-/

namespace SelectionRecall

/-- How documents are read from texts and written as texts. -/
structure DocumentFormat where
  parse? : String → Option SourceDocument
  print : Document → String

/-- The format of the program. -/
def DocumentFormat.graphQL : DocumentFormat := ⟨SourceDocument.parse?, Document.print⟩

/-- The kind of a fault of the device. -/
inductive DeviceFault where
  | notFound
  | permissionDenied
  | other
  deriving DecidableEq, Repr

/-- Why a file could not be read. -/
inductive ReadError where
  | notFile (path : String)
  | unreadable (path : String) (fault : DeviceFault) (text : String)
  | notText (path : String) (bytes : ByteArray)
  | notDocument (path text : String)

namespace ReadError

/-- The text of the error. -/
def message : ReadError → String
  | .notFile path => "Path " ++ Text.quoted path ++ " is not a file"
  | .unreadable path _ text => "Failed to read file at " ++ Text.quoted path ++ ": " ++ text
  | .notText path _ => "File at " ++ Text.quoted path ++ " is not valid UTF-8"
  | .notDocument path _ =>
    "Failed to parse GraphQL document at " ++ Text.quoted path ++ ": query parse error"

/-- Equality of errors. Paths are compared by components, and of a fault of the device the kind
counts and not the text. -/
def equals : ReadError → ReadError → Bool
  | .notFile path, .notFile other => Path.same path other
  | .unreadable path fault _, .unreadable other fault' _ => Path.same path other && fault = fault'
  | .notText path bytes, .notText other bytes' => Path.same path other && bytes == bytes'
  | .notDocument path text, .notDocument other text' => Path.same path other && text == text'
  | _, _ => false

instance : BEq ReadError := ⟨equals⟩

end ReadError

/-- The text that bytes encode. -/
def decodeText (path : String) (bytes : ByteArray) : Except ReadError String :=
  match String.fromUTF8? bytes with
  | some text => .ok text
  | none => .error (.notText path bytes)

/-- The document that bytes encode. -/
def decodeDocument (format : DocumentFormat) (path : String) (bytes : ByteArray) :
    Except ReadError SourceDocument :=
  match decodeText path bytes with
  | .error error => .error error
  | .ok text =>
    match format.parse? text with
    | some source => .ok source
    | none => .error (.notDocument path text)

/-- Why there is no schema in a file. -/
inductive SchemaFileError where
  | unreadable (cause : ReadError)
  | invalid (cause : SchemaError)

/-- The text of the error. -/
def SchemaFileError.message : SchemaFileError → String
  | .unreadable _ => "Failure while trying to read an introspection file from disk"
  | .invalid cause => cause.message

namespace FileSystem

/-- The bytes of the file that a path leads to. -/
def readBytes (files : FileSystem) (path : String) : Except ReadError ByteArray :=
  match files.find path with
  | .ok (_, .file bytes) => .ok bytes
  | _ => .error (.notFile path)

/-- The text of the file that a path leads to. -/
def readText (files : FileSystem) (path : String) : Except ReadError String :=
  (files.readBytes path).bind (decodeText path)

/-- The document in the file that a path leads to. -/
def readDocumentIn (files : FileSystem) (format : DocumentFormat) (path : String) :
    Except ReadError SourceDocument :=
  (files.readBytes path).bind (decodeDocument format path)

/-- The document that the program reads there. -/
def readDocument (files : FileSystem) (path : String) : Except ReadError SourceDocument :=
  files.readDocumentIn .graphQL path

/-- The schema in the file that a path leads to. -/
def readSchema (files : FileSystem) (path : String) : Except SchemaFileError Schema :=
  match files.readText path with
  | .error cause => .error (.unreadable cause)
  | .ok text =>
    match Schema.ofText text with
    | .error cause => .error (.invalid cause)
    | .ok schema => .ok schema

end FileSystem

end SelectionRecall
