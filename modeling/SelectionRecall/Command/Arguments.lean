import SelectionRecall.Expansion.Marker

/-!
# Command-line arguments

The arguments of the program: options that apply everywhere, then a command with options and files of
its own. Words are read from left to right, and the first word that asks for help or is out of place
decides. An option that takes one value may be given once. Behind `--` every word is a file.

* `Word`: what a word looks like.
* `CommandOptions`: the options and files of a command.
* `Request`: what the arguments ask for.
* `Request.parse`: the request of a list of arguments.
-/

namespace SelectionRecall

/-- What a word of the command line looks like. -/
inductive Word where
  | escape
  | long (name : String) (value? : Option String)
  | short (letters : List Char)
  | plain (text : String)
  deriving DecidableEq, Repr

namespace Word

/-- Reads a word. A single minus sign is a plain word. -/
def ofString (text : String) : Word :=
  match text.toList with
  | ['-', '-'] => .escape
  | '-' :: '-' :: rest =>
    let name := rest.takeWhile (· ≠ '=')
    match rest.drop name.length with
    | [] => .long (String.ofList name) none
    | _ :: value => .long (String.ofList name) (some (String.ofList value))
  | '-' :: letter :: letters => .short (letter :: letters)
  | _ => .plain text

/-- Whether a word can be the value of an option. -/
def isValue (text : String) : Bool :=
  match ofString text with
  | .plain _ => true
  | _ => false

end Word

/-- Why reading the arguments stops early. -/
inductive Stop where
  | help
  | misuse
  deriving DecidableEq, Repr

/-- A command of the program. -/
inductive Command where
  | populate
  | selections
  deriving DecidableEq, Repr

/-- An option of a command. -/
inductive CommandOption where
  | directive
  | suffix
  | extensions
  | observe
  | schema
  deriving DecidableEq, Repr

namespace Command

/-- The command of a name. -/
def ofName? : String → Option Command
  | "populate" => some .populate
  | "selections" => some .selections
  | _ => none

/-- The option of a command that has this name. -/
def option? (command : Command) (name : String) : Option CommandOption :=
  match name, command with
  | "directive", .populate => some .directive
  | "observe", .populate => some .observe
  | "fragment-suffix", _ => some .suffix
  | "graphql-file-exts", _ => some .extensions
  | "schema", _ => some .schema
  | _, _ => none

end Command

/-- The options and files that were read so far. -/
structure CommandDraft where
  directive? : Option String := none
  suffix? : Option String := none
  extensions? : Option (List String) := none
  observe : List String := []
  schema? : Option String := none
  files : List String := []

/-- The options and files of a command. -/
structure CommandOptions where
  markers : MarkerOptions
  extensions : List String
  observe : List String
  schema : String
  files : List String
  deriving DecidableEq, Repr

/-- The pieces of a text between commas. -/
def splitCommas (text : String) : List String := go text.toList
where
  /-- The pieces of the characters; there is always a first one. -/
  go : List Char → List String
    | [] => [""]
    | ',' :: rest => "" :: go rest
    | c :: rest =>
      match go rest with
      | [] => [String.ofList [c]]
      | piece :: others => String.ofList (c :: piece.toList) :: others

namespace CommandDraft

/-- Sets an option that may be given once. -/
def setOnce (old? : Option String) (value : String) : Except Stop (Option String) :=
  match old? with
  | none => .ok (some value)
  | some _ => .error .misuse

/-- Fails if one of the paths is empty. -/
def checkPaths (paths : List String) : Except Stop Unit :=
  if paths.contains "" then .error .misuse else .ok ()

/-- Adds the values of an option. There is one value, except for the observed paths. -/
def addOption (draft : CommandDraft) (option : CommandOption) (values : List String) :
    Except Stop CommandDraft :=
  match option, values with
  | .observe, first :: rest => do
    checkPaths (first :: rest)
    return { draft with observe := draft.observe ++ first :: rest }
  | .directive, [value] => do
    return { draft with directive? := ← setOnce draft.directive? value }
  | .suffix, [value] => do
    return { draft with suffix? := ← setOnce draft.suffix? value }
  | .extensions, [value] =>
    .ok { draft with extensions? := some (draft.extensions?.getD [] ++ splitCommas value) }
  | .schema, [value] => do
    checkPaths [value]
    return { draft with schema? := ← setOnce draft.schema? value }
  | _, _ => .error .misuse

/-- Adds files. -/
def addFiles (draft : CommandDraft) (files : List String) : Except Stop CommandDraft := do
  checkPaths files
  return { draft with files := draft.files ++ files }

/-- How many of the words that follow an option are its values. -/
def valueCount (option : CommandOption) (words : List String) : Nat :=
  let values := words.takeWhile Word.isValue
  match option with
  | .observe => values.length
  | _ => min 1 values.length

/-- Reads the words behind a command. -/
def read (command : Command) (draft : CommandDraft) : List String → Except Stop CommandDraft
  | [] => .ok draft
  | word :: rest =>
    match Word.ofString word with
    | .escape => draft.addFiles rest
    | .plain text =>
      match draft.addFiles [text] with
      | .error stop => .error stop
      | .ok next => read command next rest
    | .short letters => .error (if letters.head? = some 'h' then .help else .misuse)
    | .long "help" none => .error .help
    | .long name value? =>
      match command.option? name with
      | none => .error .misuse
      | some option =>
        let count := if value?.isSome then 0 else valueCount option rest
        match draft.addOption option (value?.toList ++ rest.take count) with
        | .error stop => .error stop
        | .ok next => read command next (rest.drop count)
  termination_by words => words.length
  decreasing_by all_goals grind

/-- The options with their defaults, if there is a schema and at least one file. -/
def finish (draft : CommandDraft) : Except Stop CommandOptions :=
  let defaults : MarkerOptions := {}
  match draft.schema?, draft.files with
  | none, _ | _, [] => .error .misuse
  | some schema, files =>
    .ok {
      markers := ⟨draft.directive?.getD defaults.directive, draft.suffix?.getD defaults.suffix⟩
      extensions := draft.extensions?.getD ["graphql", "graphqls"]
      observe := draft.observe
      schema := schema
      files := files }

end CommandDraft

/-- What the arguments ask for. Help includes the question for the version. -/
inductive Request where
  | help
  | misuse
  | nothing (verbose : Bool)
  | run (command : Command) (options : CommandOptions)
  deriving DecidableEq, Repr

namespace Request

/-- The request of a command with the words behind it. -/
def ofCommand (command : Command) (words : List String) : Request :=
  match (CommandDraft.read command {} words).bind CommandDraft.finish with
  | .ok options => .run command options
  | .error .help => .help
  | .error .misuse => .misuse

/-- The request for help on commands. -/
def ofHelp : List String → Request
  | [] | ["help"] => .help
  | [name] => if (Command.ofName? name).isSome then .help else .misuse
  | _ => .misuse

/-- Reads letters behind a minus sign: whether the program is to be verbose afterwards. -/
def readLetters (verbose : Bool) : List Char → Except Stop Bool
  | [] => .ok verbose
  | 'v' :: rest => if verbose then .error .misuse else readLetters true rest
  | 'h' :: _ | 'V' :: _ => .error .help
  | _ :: _ => .error .misuse

/-- Reads the words up to the command. -/
def read (verbose : Bool) : List String → Request
  | [] => .nothing verbose
  | word :: rest =>
    match Word.ofString word with
    | .escape => if rest.isEmpty then .nothing verbose else .misuse
    | .plain "help" => ofHelp rest
    | .plain name =>
      match Command.ofName? name with
      | some command => ofCommand command rest
      | none => .misuse
    | .short letters =>
      match readLetters verbose letters with
      | .ok verbose => read verbose rest
      | .error .help => .help
      | .error .misuse => .misuse
    | .long "verbose" none => if verbose then .misuse else read true rest
    | .long "help" none | .long "version" none => .help
    | .long _ _ => .misuse

/-- The request of the arguments behind the program's name. -/
def parse (arguments : List String) : Request := read false arguments

end Request

end SelectionRecall
