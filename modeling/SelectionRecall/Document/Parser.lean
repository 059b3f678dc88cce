import SelectionRecall.Document.Basic
import SelectionRecall.Document.Token
import SelectionRecall.Keyed

/-!
# Reading GraphQL

A grammar over tokens with one token of lookahead: no choice is taken back once a token is read.
Brackets nest at most fifty deep; the levels that are left are the measure on which values, types
and selection sets recurse.

* `Parser`: a step over the tokens that may fail.
* `Parser.many`: repetition while the next token starts an item.
* `SourceDocument`: a document with the positions of its nodes in reading order.
* `SourceDocument.parse?`, `Document.parse?`: the document that a text writes.
-/

namespace SelectionRecall

/-- The tokens that are left, and the positions recorded so far, the latest one first. -/
structure Cursor where
  tokens : List (Position × Token)
  positions : List Position

/-- A step over the tokens that may fail. -/
abbrev Parser := StateT Cursor Option

namespace Parser

/-- The next token, which is left in place. -/
def peek : Parser (Option Token) := fun cursor =>
  some (cursor.tokens.head?.map Prod.snd, cursor)

/-- Takes the next token. -/
def next : Parser Token := fun cursor =>
  match cursor.tokens with
  | [] => none
  | (_, token) :: rest => some (token, { cursor with tokens := rest })

/-- Records the position of the next token. -/
def record : Parser Unit := fun cursor =>
  match cursor.tokens with
  | [] => some ((), cursor)
  | (position, _) :: _ => some ((), { cursor with positions := position :: cursor.positions })

/-- Takes this token. -/
def expect (token : Token) : Parser Unit := do
  if (← next) = token then pure () else failure

/-- Takes a name. -/
def name : Parser String := do
  match ← next with
  | .name text => pure text
  | _ => failure

/-- The items that follow as long as the next token starts one. An item that takes no token ends the
repetition in a failure. -/
def many {α : Type} (starts : Token → Bool) (item : Parser α) : Parser (List α) := fun cursor =>
  match cursor.tokens with
  | [] => some ([], cursor)
  | (_, token) :: _ =>
    if starts token then
      match item cursor with
      | none => none
      | some (first, behind) =>
        if behind.tokens.length < cursor.tokens.length then
          match many starts item behind with
          | none => none
          | some (others, last) => some (first :: others, last)
        else none
    else some ([], cursor)
  termination_by cursor => cursor.tokens.length

/-- Like `many`, but at least one item. -/
def someOf {α : Type} (starts : Token → Bool) (item : Parser α) : Parser (List α) := do
  match ← many starts item with
  | [] => failure
  | items => pure items

/-- Whether a token is a name. -/
def isName : Token → Bool
  | .name _ => true
  | _ => false

/-- A value without brackets. -/
def scalar (variablesAllowed : Bool) : Parser Value := do
  match ← next with
  | .int value => pure (.int value)
  | .float value => pure (.float value)
  | .string text => pure (.string text)
  | .name "true" => pure (.boolean true)
  | .name "false" => pure (.boolean false)
  | .name "null" => pure .null
  | .name text => pure (.enum text)
  | .mark '$' => if variablesAllowed then return .variable (← name) else failure
  | _ => failure

/-- A value, in which variables may be forbidden. The count is that of bracket levels left. -/
def value (variablesAllowed : Bool) : Nat → Parser Value
  | 0 => scalar variablesAllowed
  | depth + 1 => do
    match ← peek with
    | some (.mark '[') => do
      expect (.mark '[')
      let items ← many (· ≠ .mark ']') (value variablesAllowed depth)
      expect (.mark ']')
      pure (.list items)
    | some (.mark '\x7b') => do
      expect (.mark '\x7b')
      let fields ← many isName do
        let key ← name
        expect (.mark ':')
        return (key, ← value variablesAllowed depth)
      expect (.mark '\x7d')
      pure (.object (fields.foldl (fun sorted field => Keyed.insertSorted field.1 field.2 sorted) []))
    | _ => scalar variablesAllowed

/-- A reference to a type. The count is that of bracket levels left. -/
def typeReference : Nat → Parser TypeReference
  | 0 => do nonNullable (.named (← name))
  | depth + 1 => do
    match ← peek with
    | some (.mark '[') => do
      expect (.mark '[')
      let item ← typeReference depth
      expect (.mark ']')
      nonNullable (.list item)
    | _ => nonNullable (.named (← name))
where
  /-- The type, or its non-null version if an exclamation mark follows. -/
  nonNullable (type : TypeReference) : Parser TypeReference := do
    match ← peek with
    | some (.mark '!') => do
      expect (.mark '!')
      pure (.nonNull type)
    | _ => pure type

/-- One or more items in parentheses, or nothing at all. The count is that of bracket levels left,
and the items are read with one level less. -/
def parenthesized {α : Type} (starts : Token → Bool) (item : Nat → Parser α) (depth : Nat) :
    Parser (List α) := do
  match ← peek, depth with
  | some (.mark '('), depth + 1 => do
    expect (.mark '(')
    let items ← someOf starts (item depth)
    expect (.mark ')')
    pure items
  | some (.mark '('), 0 => failure
  | _, _ => pure []

/-- Arguments, which may be missing. -/
def arguments : Nat → Parser Arguments :=
  parenthesized isName fun depth => do
    let key ← name
    expect (.mark ':')
    return (key, ← value true depth)

/-- A directive. -/
def directive (depth : Nat) : Parser Directive := do
  record
  expect (.mark '@')
  let name ← name
  return ⟨name, ← arguments depth⟩

/-- Directives, which may be missing. -/
def directives (depth : Nat) : Parser (List Directive) :=
  many (· = .mark '@') (directive depth)

/-- The declarations of variables, which may be missing. -/
def variableDefinitions : Nat → Parser (List VariableDefinition) :=
  parenthesized (· = .mark '$') fun depth => do
    record
    expect (.mark '$')
    let name ← name
    expect (.mark ':')
    let type ← typeReference depth
    match ← peek with
    | some (.mark '=') => do
      expect (.mark '=')
      return ⟨name, type, some (← value false depth)⟩
    | _ => pure ⟨name, type, none⟩

/-- A field, given the parser of its selection set. -/
def field (depth : Nat) (selectionSet : Parser (List Selection)) : Parser Selection := do
  record
  let first ← name
  let second? ← (do
    match ← peek with
    | some (.mark ':') => do
      expect (.mark ':')
      return some (← name)
    | _ => pure none)
  let arguments ← arguments depth
  let directives ← directives depth
  let selections ← (do
    match ← peek with
    | some (.mark '\x7b') => selectionSet
    | _ => pure [])
  match second? with
  | some second => pure (.field (some first) second arguments directives selections)
  | none => pure (.field none first arguments directives selections)

/-- What follows three points, given the parser of a selection set. -/
def fragmentUse (depth : Nat) (selectionSet : Parser (List Selection)) : Parser Selection := do
  record
  match ← peek with
  | some (.name "on") => do
    expect (.name "on")
    let condition ← name
    let directives ← directives depth
    return .inline (some condition) directives (← selectionSet)
  | some (.name fragment) => do
    expect (.name fragment)
    return .spread fragment (← directives depth)
  | _ => do
    let directives ← directives depth
    return .inline none directives (← selectionSet)

/-- A selection set. The count is that of bracket levels left. -/
def selectionSet : Nat → Parser (List Selection)
  | 0 => failure
  | depth + 1 => do
    record
    expect (.mark '\x7b')
    let selections ← someOf (fun token => isName token || token == .ellipsis) do
      match ← peek with
      | some .ellipsis => do
        expect .ellipsis
        fragmentUse depth (selectionSet depth)
      | _ => field depth (selectionSet depth)
    record
    expect (.mark '\x7d')
    pure selections

/-- The operation whose keyword comes next. -/
def operation (type : OperationType) (depth : Nat) : Parser Definition := do
  record
  let _ ← next
  let name? ← (do
    match ← peek with
    | some (.name text) => do
      expect (.name text)
      pure (some text)
    | _ => pure none)
  let declared ← variableDefinitions depth
  let directives ← directives depth
  let selections ← selectionSet depth
  pure (.operation ⟨some ⟨type, name?, declared, directives⟩, selections⟩)

/-- A fragment. -/
def fragment (depth : Nat) : Parser Definition := do
  record
  expect (.name "fragment")
  let name ← name
  expect (.name "on")
  let condition ← Parser.name
  let directives ← directives depth
  return .fragment ⟨name, condition, directives, ← selectionSet depth⟩

/-- A definition. -/
def definition (depth : Nat) : Parser Definition := do
  match ← peek with
  | some (.mark '\x7b') => return .operation ⟨none, ← selectionSet depth⟩
  | some (.name "query") => operation .query depth
  | some (.name "mutation") => operation .mutation depth
  | some (.name "subscription") => operation .subscription depth
  | some (.name "fragment") => fragment depth
  | _ => failure

end Parser

/-- A document together with the positions of its nodes in reading order. -/
structure SourceDocument where
  document : Document
  positions : List Position
  deriving BEq, Repr

namespace SourceDocument

/-- The depth to which brackets may nest. -/
def maxDepth : Nat := 50

/-- The document that a text writes, with positions. There is at least one definition. -/
def parse? (text : String) : Option SourceDocument := do
  let tokens ← Token.scan? .start text.toList
  let (definitions, cursor) ← Parser.someOf (fun _ => true) (Parser.definition maxDepth) ⟨tokens, []⟩
  some ⟨⟨definitions⟩, cursor.positions.reverse⟩

end SourceDocument

/-- The document that a text writes. -/
def Document.parse? (text : String) : Option Document :=
  (SourceDocument.parse? text).map SourceDocument.document

end SelectionRecall
