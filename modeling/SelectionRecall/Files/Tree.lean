import SelectionRecall.Files.Path
import SelectionRecall.Keyed

/-!
# File trees

Files in directories, and nothing else: links, pipes and devices are left out, as are permissions. The
entries of a directory stand in ascending order of their names, which is the order in which a directory is
searched.

* `FileTree`: a file with its bytes, or a directory.
* `FileSystem`: a tree and the directory that relative paths start from.
* `FileSystem.find`: the file or directory that a path leads to.
* `FileSystem.pathOf`: the path of a place.
* `FileTree.filesUnder`: all files of a tree.
-/

namespace SelectionRecall

/-- A file, or a directory with its entries by name. -/
inductive FileTree where
  | file (bytes : ByteArray)
  | directory (entries : List (String × FileTree))

namespace FileTree

/-- What a path of names leads to. -/
def at? : FileTree → List String → Option FileTree
  | tree, [] => some tree
  | .file _, _ :: _ => none
  | .directory entries, name :: rest =>
    match entries.lookup name with
    | none => none
    | some entry => entry.at? rest

/-- Puts a tree at a path of names. Directories are made where they are missing, and a directory that
is there already is not emptied. -/
def insert (node : FileTree) : List String → FileTree → FileTree
  | [], existing =>
    match node, existing with
    | .directory [], .directory entries => .directory entries
    | _, _ => node
  | name :: rest, .directory entries =>
    let entry := (entries.lookup name).getD (.directory [])
    .directory (Keyed.insertSorted name (insert node rest entry) entries)
  | name :: rest, .file _ => .directory [(name, insert node rest (.directory []))]

mutual

/-- The paths of all files of a tree that stands at `place`, with their bytes. -/
def filesUnder (place : List String) : FileTree → List (List String × ByteArray)
  | .file bytes => [(place, bytes)]
  | .directory entries => filesAmong place entries

/-- The paths of all files among the entries of a directory, with their bytes. -/
def filesAmong (place : List String) :
    List (String × FileTree) → List (List String × ByteArray)
  | [] => []
  | (name, tree) :: rest => filesUnder (place ++ [name]) tree ++ filesAmong place rest

end

end FileTree

/-- All files, and the directory that relative paths start from. -/
structure FileSystem where
  root : FileTree
  current : List String

/-- Why a path leads nowhere. -/
inductive LookupError where
  | missing
  | notDirectory
  | tooLong
  | zeroCharacter
  deriving DecidableEq, Repr

/-- The text of the error. -/
def LookupError.message : LookupError → String
  | .missing => "No such file or directory (os error 2)"
  | .notDirectory => "Not a directory (os error 20)"
  | .tooLong => "File name too long (os error 36)"
  | .zeroCharacter => "file name contained an unexpected NUL byte"

namespace FileSystem

/-- Goes on from a directory along pieces of a path. A name that is too long is noticed when the
directory that should hold it is reached. -/
def walk (files : FileSystem) (place : List String) : List String → Except LookupError (List String)
  | [] => .ok place
  | piece :: rest =>
    match files.root.at? place with
    | some (.directory entries) =>
      if piece = "" ∨ piece = "." then files.walk place rest
      else if piece = ".." then files.walk place.dropLast rest
      else if Path.nameLimit < piece.utf8ByteSize then .error .tooLong
      else if (entries.lookup piece).isSome then files.walk (place ++ [piece]) rest
      else .error .missing
    | some (.file _) => .error .notDirectory
    | none => .error .missing

/-- The place that a path leads to, as names from the root, and what is there. The path as a whole
is looked at before its pieces. -/
def find (files : FileSystem) (path : String) : Except LookupError (List String × FileTree) :=
  if path.toList.contains '\x00' then .error .zeroCharacter
  else if path = "" then .error .missing
  else if Path.isOverlong path then .error .tooLong
  else
    let start := if Path.isAbsolute path then [] else files.current
    match files.walk start (Path.pieces path) with
    | .error error => .error error
    | .ok place =>
      match files.root.at? place with
      | none => .error .missing
      | some tree => .ok (place, tree)

/-- Whether a path leads to a file. -/
def isFile (files : FileSystem) (path : String) : Bool :=
  match files.find path with
  | .ok (_, .file _) => true
  | _ => false

/-- The absolute path of a place. -/
def pathOf (place : List String) : String := "/" ++ "/".intercalate place

end FileSystem

end SelectionRecall
