/-!
# Paths

Paths as they are written: names with slashes between them.

* `Path.pieces`: what stands between the slashes.
* `Path.components`: the pieces that count when paths are compared.
* `Path.extension?`: what follows the last point of a file name.
* `Path.join`: the path of an entry of a directory.
* `Path.nameLimit`, `Path.isOverlong`: the lengths at which names and whole paths are refused.
-/

namespace SelectionRecall.Path

/-- What stands between the slashes of a path. -/
def pieces (path : String) : List String := go path.toList
where
  /-- The pieces of the characters; there is always a first one. -/
  go : List Char → List String
    | [] => [""]
    | '/' :: rest => "" :: go rest
    | c :: rest =>
      match go rest with
      | [] => [String.ofList [c]]
      | piece :: others => String.ofList (c :: piece.toList) :: others

/-- Whether a path starts at the root. -/
def isAbsolute (path : String) : Bool := path.toList.head? = some '/'

/-- The pieces that count when paths are compared: empty ones and single points are left out, but a
slash or a single point at the start counts. -/
def components (path : String) : List String :=
  let named := (pieces path).filter fun piece => piece ≠ "" ∧ piece ≠ "."
  if isAbsolute path then "/" :: named
  else if (pieces path).head? = some "." then "." :: named
  else named

/-- Whether two paths have the same components. -/
def same (path other : String) : Bool := components path = components other

/-- What follows the last point of a file name. A point at the start of the name does not count. -/
def extension? (name : String) : Option String :=
  let tail := name.toList.reverse.takeWhile (· ≠ '.')
  if tail.length + 1 < name.toList.length then some (String.ofList tail.reverse) else none

/-- The path of an entry of the directory at `path`. -/
def join (path name : String) : String :=
  if path.toList.getLast? = some '/' then path ++ name else path ++ "/" ++ name

/-- The greatest number of bytes in the name of an entry. -/
def nameLimit : Nat := 255

/-- Whether a path as written takes more bytes than are accepted. -/
def isOverlong (path : String) : Bool := 4095 < path.utf8ByteSize

end SelectionRecall.Path
