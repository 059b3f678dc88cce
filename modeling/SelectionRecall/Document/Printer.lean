import SelectionRecall.Document.Basic
import SelectionRecall.Number.Shortest
import SelectionRecall.Text.Blank

/-!
# Writing GraphQL

The text of a document. A level of nesting indents by two spaces, and a block string inside a value
is indented one level deeper than the line that it starts on.

* `Value.print`: a value on a line of the given level.
* `Selection.print`: the lines of a selection.
* `Document.print`: the definitions with an empty line between them.
-/

namespace SelectionRecall

namespace Document

/-- The blanks in front of a line of the given level. -/
def indentation (level : Nat) : String := String.ofList (List.replicate (2 * level) ' ')

/-- Whether a string is written as a block: it has a line feed, and apart from line ends and tabs
only characters from the space up to U+FFFF. -/
def isBlockText (text : List Char) : Bool :=
  text.contains '\n'
    && text.all fun c => c == '\n' || c == '\r' || c == '\t' || (0x20 ≤ c.toNat && c.toNat ≤ 0xFFFF)

/-- The text of a character between quotes. A character without a form of its own is written by its
number in base ten, with at least four digits. -/
def quoteChar (c : Char) : List Char :=
  match c with
  | '\r' => ['\\', 'r']
  | '\n' => ['\\', 'n']
  | '\t' => ['\\', 't']
  | '"' => ['\\', '"']
  | '\\' => ['\\', '\\']
  | _ =>
    if 0x20 ≤ c.toNat ∧ c.toNat ≤ 0xFFFF then [c]
    else
      let digits := Nat.toDigits 10 c.toNat
      '\\' :: 'u' :: List.replicate (4 - digits.length) '0' ++ digits

/-- Three quotes in a row get a backslash. -/
def escapeBlock : List Char → List Char
  | [] => []
  | '"' :: '"' :: '"' :: rest => '\\' :: '"' :: '"' :: '"' :: escapeBlock rest
  | c :: rest => c :: escapeBlock rest

/-- A line of a block string. A line of white space is written as an empty line. -/
def blockLine (level : Nat) (line : List Char) : String :=
  if line.all Text.isBlank then "\n"
  else indentation (level + 1) ++ String.ofList (escapeBlock line) ++ "\n"

/-- A string on a line of the given level, as a block or in quotes. -/
def quote (level : Nat) (text : String) : String :=
  if isBlockText text.toList then
    "\"\"\"\n" ++ String.join ((Text.lines text.toList).map (blockLine level)) ++ indentation level
      ++ "\"\"\""
  else String.ofList ('"' :: text.toList.flatMap quoteChar ++ ['"'])

end Document

namespace Value

mutual

/-- The text of a value on a line of the given level. -/
def print (level : Nat) : Value → String
  | .variable name => "$" ++ name
  | .int value => toString value
  | .float value => value.positionalText
  | .string text => Document.quote level text
  | .boolean value => if value then "true" else "false"
  | .null => "null"
  | .enum name => name
  | .list items => "[" ++ ", ".intercalate (printItems level items) ++ "]"
  | .object fields => "\x7b" ++ ", ".intercalate (printFields level fields) ++ "\x7d"

/-- The texts of the items of a list. -/
def printItems (level : Nat) : List Value → List String
  | [] => []
  | item :: rest => item.print level :: printItems level rest

/-- The texts of named values. -/
def printFields (level : Nat) : List (String × Value) → List String
  | [] => []
  | (name, value) :: rest => (name ++ ": " ++ value.print level) :: printFields level rest

end

end Value

/-- Arguments in parentheses, or nothing. -/
def Arguments.print (level : Nat) (arguments : Arguments) : String :=
  if arguments.isEmpty then ""
  else "(" ++ ", ".intercalate (Value.printFields level arguments) ++ ")"

/-- A directive. -/
def Directive.print (level : Nat) (directive : Directive) : String :=
  "@" ++ directive.name ++ Arguments.print level directive.arguments

/-- Directives, each behind a blank. -/
def Directive.printAll (level : Nat) (directives : List Directive) : String :=
  String.join (directives.map fun directive => " " ++ directive.print level)

/-- A reference to a type. -/
def TypeReference.print : TypeReference → String
  | .named name => name
  | .list item => "[" ++ item.print ++ "]"
  | .nonNull inner => inner.print ++ "!"

/-- The declaration of a variable. -/
def VariableDefinition.print (declaration : VariableDefinition) : String :=
  "$" ++ declaration.name ++ ": " ++ declaration.type.print ++
    match declaration.default? with
    | none => ""
    | some value => " = " ++ value.print 0

namespace Selection

mutual

/-- The lines of a selection. -/
def print (level : Nat) : Selection → String
  | .field alias? name arguments directives selections =>
    let label := match alias? with
      | none => ""
      | some text => text ++ ": "
    Document.indentation level ++ label ++ name ++ Arguments.print level arguments
      ++ Directive.printAll level directives
      ++ (if selections.isEmpty then "\n"
        else " \x7b\n" ++ printAll (level + 1) selections ++ Document.indentation level ++ "\x7d\n")
  | .spread fragment directives =>
    Document.indentation level ++ "..." ++ fragment ++ Directive.printAll level directives ++ "\n"
  | .inline condition? directives selections =>
    let condition := match condition? with
      | none => ""
      | some type => " on " ++ type
    Document.indentation level ++ "..." ++ condition ++ Directive.printAll level directives
      ++ " \x7b\n" ++ printAll (level + 1) selections ++ Document.indentation level ++ "\x7d\n"

/-- The lines of several selections. -/
def printAll (level : Nat) : List Selection → String
  | [] => ""
  | selection :: rest => selection.print level ++ printAll level rest

end

end Selection

/-- The keyword of an operation. -/
def OperationType.keyword : OperationType → String
  | .query => "query"
  | .mutation => "mutation"
  | .subscription => "subscription"

/-- The head of an operation, up to the blank before its selection set. The variables of a
subscription are written without commas, and only if it has a name. -/
def OperationHead.print (head : OperationHead) : String :=
  let name := match head.name? with
    | none => ""
    | some text => " " ++ text
  let separator := if head.type = .subscription then "" else ", "
  let declared :=
    if head.variableDefinitions.isEmpty ∨ (head.type = .subscription ∧ head.name? = none) then ""
    else "(" ++ separator.intercalate (head.variableDefinitions.map VariableDefinition.print) ++ ")"
  head.type.keyword ++ name ++ declared ++ Directive.printAll 0 head.directives ++ " "

/-- A definition. -/
def Definition.print (definition : Definition) : String :=
  let head := match definition with
    | .operation ⟨none, _⟩ => ""
    | .operation ⟨some head, _⟩ => head.print
    | .fragment ⟨name, condition, directives, _⟩ =>
      "fragment " ++ name ++ " on " ++ condition ++ Directive.printAll 0 directives ++ " "
  head ++ "\x7b\n" ++ Selection.printAll 1 definition.selections ++ "\x7d\n"

/-- The definitions with an empty line between them. -/
def Document.print (document : Document) : String :=
  "\n".intercalate (document.definitions.map Definition.print)

end SelectionRecall
