import SelectionRecall.Command.Run

/-!
# The program

Reads the arguments and the files that they name, answers the request and prints the outcome.

* `loadPath`: puts what a path leads to into a file system.
* `main`: the program.
-/

namespace SelectionRecall

/-- The paths that a request names. -/
def Request.paths : Request → List String
  | .run .populate options => options.schema :: options.observe ++ options.files
  | .run .selections options => options.schema :: options.files
  | _ => []

/-- The names of an absolute path. -/
def absoluteNames (path : String) : List String :=
  (Path.pieces path).filter (· ≠ "")

/-- Whether a path leads to a directory. -/
def isDirectory (path : String) : IO Bool := do
  try
    let place ← IO.FS.realPath path
    place.isDir
  catch _ => return false

/-- The file or directory at a path, with everything in it. -/
partial def loadTree (path : String) : IO FileTree := do
  let place ← IO.FS.realPath path
  if ← place.isDir then
    let mut tree := FileTree.directory []
    for entry in ← place.readDir do
      let node ← loadTree (path ++ "/" ++ entry.fileName)
      tree := node.insert [entry.fileName] tree
    return tree
  else
    return .file (← IO.FS.readBinFile place)

/-- Puts what a path leads to, and the directories on the way, into a file system. A path that leads
nowhere changes nothing. -/
def loadPath (files : FileSystem) (path : String) : IO FileSystem := do
  let mut root := files.root
  let mut place := if Path.isAbsolute path then [] else files.current
  for piece in Path.pieces path do
    if piece = ".." then
      place := place.dropLast
    else if piece ≠ "" ∧ piece ≠ "." then
      place := place ++ [piece]
    if ← isDirectory (FileSystem.pathOf place) then
      root := (FileTree.directory []).insert place root
  try
    let tree ← loadTree (FileSystem.pathOf place)
    return { files with root := tree.insert place root }
  catch _ => return { files with root := root }

end SelectionRecall

open SelectionRecall

/-- Answers the request of the arguments. -/
def main (arguments : List String) : IO UInt32 := do
  let request := Request.parse arguments
  let current := absoluteNames (toString (← IO.currentDir))
  let start : FileSystem := ⟨(FileTree.directory []).insert current (.directory []), current⟩
  let files ← request.paths.foldlM loadPath start
  let report := (request.answer files).report
  if let some text := report.output? then
    IO.println text
  if let some text := report.complaint? then
    IO.eprintln text
  return report.code
