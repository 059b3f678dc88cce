import SelectionRecall.Files.Tree
import SelectionRecall.Text.Quoted

/-!
# Finding documents

The files at or under given paths whose extension is one of a set. A path that leads to a single file
is taken even if its extension is not in the set, as long as it is the only path.

Each file that is found is resolved to its absolute path, which may be too long. How the way to the file is
written does not matter for this: the path is resolved name by name.

* `ScanError`: why a search stopped.
* `Discovery`: the files that were found, and the number of those skipped.
* `FileTree.scanFault?`: what stops a search of a tree.
* `FileSystem.discover`: the search.
-/

namespace SelectionRecall

/-- Why a search stopped: a path could not be searched, because of the path `stop` at or under it; or the
file at a path was found, but its absolute path is too long. -/
inductive ScanError where
  | unsearched (path stop : String) (cause : LookupError)
  | unresolved (path : String)
  deriving DecidableEq, Repr

/-- The text of the error. -/
def ScanError.message : ScanError → String
  | .unsearched path stop cause =>
    "Failed to scan filesystem entries at/under " ++ Text.quoted path
      ++ ": IO error for operation on " ++ stop ++ ": " ++ cause.message ++ ": " ++ cause.message
  | .unresolved path =>
    "Failed to resolve path " ++ Text.quoted path ++ ": " ++ LookupError.tooLong.message

/-- The files that were found, by their places and with their bytes, and how many were skipped. -/
structure Discovery where
  found : List (List String × ByteArray)
  skipped : Nat

namespace Discovery

/-- An extension without the points in front of it. -/
def bareExtension (extension : String) : String :=
  String.ofList (extension.toList.dropWhile (· = '.'))

/-- Whether the last name of a place has one of the extensions. -/
def isWanted (extensions : List String) (place : List String) : Bool :=
  match (place.getLast?.bind Path.extension?) with
  | none => false
  | some extension => (extensions.map bareExtension).contains extension

/-- What is found among files. -/
def ofFiles (extensions : List String) (files : List (List String × ByteArray)) : Discovery :=
  let wanted := files.filter fun file => isWanted extensions file.1
  ⟨wanted, files.length - wanted.length⟩

end Discovery

namespace FileTree

mutual

/-- What stops a search from `start` in a tree that stands at `place`, to which `path` leads: a directory
whose path is too long to list it, or a file that is found and whose absolute path is too long. -/
def scanFault? (extensions : List String) (start path : String) (place : List String) :
    FileTree → Option ScanError
  | .file _ =>
    if Discovery.isWanted extensions place && Path.isOverlong (FileSystem.pathOf place) then
      some (.unresolved path)
    else none
  | .directory entries =>
    if Path.isOverlong path then some (.unsearched start path .tooLong)
    else scanFaultAmong? extensions start path place entries

/-- What stops it among the entries of such a directory. -/
def scanFaultAmong? (extensions : List String) (start path : String) (place : List String) :
    List (String × FileTree) → Option ScanError
  | [] => none
  | (name, tree) :: rest =>
    match scanFault? extensions start (Path.join path name) (place ++ [name]) tree with
    | some fault => some fault
    | none => scanFaultAmong? extensions start path place rest

end

end FileTree

namespace FileSystem

/-- All files at or under a path, unless something stops the search of it. -/
def filesAt (files : FileSystem) (extensions : List String) (path : String) :
    Except ScanError (List (List String × ByteArray)) :=
  match files.find path with
  | .error cause => .error (.unsearched path path cause)
  | .ok (place, tree) =>
    match tree.scanFault? extensions path path place with
    | some fault => .error fault
    | none => .ok (tree.filesUnder place)

/-- All files at or under the paths, path by path. -/
def filesAtAll (files : FileSystem) (extensions : List String) :
    List String → Except ScanError (List (List String × ByteArray))
  | [] => .ok []
  | path :: rest =>
    match files.filesAt extensions path with
    | .error error => .error error
    | .ok here =>
      match files.filesAtAll extensions rest with
      | .error error => .error error
      | .ok there => .ok (here ++ there)

/-- The files at or under the paths that have one of the extensions. -/
def discover (files : FileSystem) (paths extensions : List String) :
    Except ScanError Discovery :=
  match files.filesAtAll extensions paths with
  | .error error => .error error
  | .ok all =>
    let discovery := Discovery.ofFiles extensions all
    match discovery.found, paths, all with
    | [], [path], [only] =>
      if files.isFile path then
        if Path.isOverlong (pathOf only.1) then .error (.unresolved path) else .ok ⟨[only], 0⟩
      else .ok discovery
    | _, _, _ => .ok discovery

end FileSystem

end SelectionRecall
