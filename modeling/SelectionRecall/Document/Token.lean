import SelectionRecall.Document.Value
import SelectionRecall.Number.Digits
import SelectionRecall.Text.Blank

/-!
# GraphQL tokens

The words of a GraphQL text with their positions. Scanning is a walk over the characters: each token
says how many characters it took, and the walk goes on behind it.

* `Token`: marks, names, numbers and strings.
* `Position`: line and column of a token.
* `Token.number?`, `Token.unescape?`, `Token.blockText`: what numbers and the two kinds of strings
  stand for.
* `Token.scan?`: the tokens of a text, if all of it is made of tokens and gaps.
-/

namespace SelectionRecall

/-- A token. Strings and block strings are not told apart. -/
inductive Token where
  | mark (c : Char)
  | ellipsis
  | name (text : String)
  | int (value : Int)
  | float (value : Binary64)
  | string (text : String)
  deriving DecidableEq, Repr

/-- A place in a text, both counts starting at one. -/
structure Position where
  line : Nat
  column : Nat
  deriving DecidableEq, Repr

namespace Position

/-- The first place of a text. -/
def start : Position := ⟨1, 1⟩

/-- The place behind a character between tokens. A tab counts for eight columns. -/
def behindGap (position : Position) (c : Char) : Position :=
  if c = '\n' then ⟨position.line + 1, 1⟩
  else if c = '\t' then ⟨position.line, position.column + 8⟩
  else if c = ' ' ∨ c = ',' then ⟨position.line, position.column + 1⟩
  else position

/-- The place behind a comment, which takes the end of its line with it unless the text ends
first. -/
def behindComment (position : Position) (ended : Bool) : Position :=
  if ended then ⟨position.line + 1, 1⟩ else position

/-- The place behind the characters of a token. -/
def behindToken (position : Position) (token : List Char) : Position :=
  let lastLine := token.reverse.takeWhile (· ≠ '\n')
  if lastLine.length = token.length then ⟨position.line, position.column + token.length⟩
  else ⟨position.line + token.count '\n', lastLine.length + 1⟩

end Position

namespace Token

/-- Whether a character may start a name. -/
def startsName (c : Char) : Bool := c.isAlpha || c == '_'

/-- Whether a character may continue a name. -/
def continuesName (c : Char) : Bool := c.isAlphanum || c == '_'

/-- Whether a character ends a number. -/
def endsNumber (c : Char) : Bool :=
  [' ', '\n', '\r', '\t', ',', '#', '!', '$', ':', '=', '@', '|', '&', '(', ')', '[', ']', '\x7b',
    '\x7d'].contains c

/-- The value of digits that may have a minus sign. A leading zero stands alone. -/
def integer? (chars : List Char) : Option Int :=
  let digits := if chars.head? = some '-' then chars.tail else chars
  if digits.isEmpty ∨ ¬digits.all Char.isDigit ∨ (digits.head? = some '0' ∧ 1 < digits.length) then
    none
  else
    let value : Int := Digits.value digits
    some (if chars.head? = some '-' then -value else value)

/-- Whether the characters behind an `e` give a power of ten: a sign or one of `1` to `8` comes
first, and at least one digit belongs to it. -/
def isPower : List Char → Bool
  | [] => false
  | first :: digits =>
    digits.all Char.isDigit
      && (if first = '+' ∨ first = '-' then !digits.isEmpty
        else decide ('1' ≤ first ∧ first ≤ '8'))

/-- The power of ten that such characters give. -/
def powerOf : List Char → Int
  | '-' :: digits => -(Digits.value digits : Int)
  | '+' :: digits => Digits.value digits
  | digits => Digits.value digits

/-- The characters before the last one that fulfils `test`, and those behind it. -/
def splitAtLast (test : Char → Bool) (chars : List Char) : Option (List Char × List Char) :=
  let tail := (chars.reverse.takeWhile (!test ·)).reverse
  if tail.length = chars.length then none
  else some (chars.take (chars.length - tail.length - 1), tail)

/-- The float that is written by a whole number, places behind the point and a power of ten. -/
def floatOf? (whole places power : List Char) : Option Binary64 := do
  let _ ← integer? whole
  if ¬places.all Char.isDigit then none
  let digits := (if whole.head? = some '-' then whole.tail else whole) ++ places
  some (Binary64.ofDecimal (decide (whole.head? = some '-')) (Digits.value digits)
    (powerOf power - places.length))

/-- The token of a number's characters. An integer fits 64 bits with a sign; a float beyond the
format is an infinity. -/
def number? (chars : List Char) : Option Token :=
  match splitAtLast (fun c => c == 'e' || c == 'E') chars, splitAtLast (· == '.') chars with
  | none, none => do
    let value ← integer? chars
    if -Digits.negativeCount ≤ value ∧ value < Digits.negativeCount then some (.int value) else none
  | none, some (whole, places) =>
    if places.isEmpty then none else (floatOf? whole places []).map .float
  | some (mantissa, power), _ =>
    if ¬isPower power then none
    else match splitAtLast (· == '.') mantissa with
      | none => (floatOf? mantissa [] power).map .float
      | some (whole, places) =>
        if places.isEmpty then none else (floatOf? whole places power).map .float

/-- The value of four characters that write a number in base sixteen. A plus sign may come first. -/
def codePoint? (a b c d : Char) : Option Nat :=
  if a = '+' then Digits.hexQuad? '0' b c d else Digits.hexQuad? a b c d

/-- The character that a letter behind a backslash stands for. -/
def escape? : Char → Option Char
  | '"' => some '"'
  | '\\' => some '\\'
  | '/' => some '/'
  | 'b' => some '\x10'
  | 'f' => some '\x0c'
  | 'n' => some '\n'
  | 'r' => some '\r'
  | 't' => some '\t'
  | _ => none

/-- The text that stands between the quotes of a string. -/
def unescape? : List Char → Option (List Char)
  | [] => some []
  | '\\' :: 'u' :: a :: b :: c :: d :: rest =>
    match codePoint? a b c d with
    | none => none
    | some code =>
      if 0xD800 ≤ code ∧ code ≤ 0xDFFF then none
      else (unescape? rest).map (Char.ofNat code :: ·)
  | '\\' :: c :: rest =>
    match escape? c with
    | none => none
    | some character => (unescape? rest).map (character :: ·)
  | c :: rest => if c = '\\' then none else (unescape? rest).map (c :: ·)

/-- The characters of a string behind its opening quote up to the closing one, with their
backslashes. A line feed may not occur. -/
def quoted? : List Char → Option (List Char)
  | [] => none
  | '"' :: _ => some []
  | '\\' :: c :: rest => if c = '\n' then none else (quoted? rest).map ('\\' :: c :: ·)
  | c :: rest => if c = '\n' then none else (quoted? rest).map (c :: ·)

/-- The characters of a block string behind its opening quotes up to the closing ones: the first
three quotes that do not follow a backslash. -/
def block? (previous : Char) : List Char → Option (List Char)
  | [] => none
  | '"' :: '"' :: '"' :: rest =>
    if previous = '\\' then (block? '"' rest).map ('"' :: '"' :: '"' :: ·) else some []
  | c :: rest => (block? c rest).map (c :: ·)

/-- The number of bytes of the white space in front of a line, unless the line is all white space. -/
def indent? (line : List Char) : Option Nat :=
  let blank := line.takeWhile Text.isBlank
  if blank.length = line.length then none else some (String.ofList blank).utf8ByteSize

/-- A line without its first `count` bytes. -/
def dropBytes : Nat → List Char → List Char
  | 0, line => line
  | _, [] => []
  | count + 1, c :: rest => dropBytes (count + 1 - c.utf8Size) rest

/-- Removes the common indent from a line that is at least that long. -/
def outdent (count : Nat) (line : List Char) : List Char :=
  if count ≤ (String.ofList line).utf8ByteSize then dropBytes count line else line

/-- Three quotes behind a backslash lose the backslash. -/
def unescapeBlock : List Char → List Char
  | [] => []
  | '\\' :: '"' :: '"' :: '"' :: rest => '"' :: '"' :: '"' :: unescapeBlock rest
  | c :: rest => c :: unescapeBlock rest

/-- The text of a block string: blank lines at both ends are dropped, and the least indent of the
lines behind the first one is removed from them. -/
def blockText (content : List Char) : List Char :=
  match Text.lines content with
  | [] => []
  | first :: others =>
    let common := (others.filterMap indent?).min?.getD 0
    let shown := first :: others.map (outdent common)
    let isBlankLine := fun (line : List Char) => line.all Text.isBlank
    let trimmed := ((shown.dropWhile isBlankLine).reverse.dropWhile isBlankLine).reverse
    ['\n'].intercalate (trimmed.map unescapeBlock)

/-- The token that starts with `c`, and how many of the characters behind `c` belong to it. -/
def token? (c : Char) (rest : List Char) : Option (Token × Nat) :=
  if ['(', ')', '[', ']', '\x7b', '\x7d', '!', '$', ':', '=', '@', '|', '&'].contains c then
    some (.mark c, 0)
  else if c = '.' then
    if rest.take 2 = ['.', '.'] then some (.ellipsis, 2) else none
  else if startsName c then
    let tail := rest.takeWhile continuesName
    some (.name (String.ofList (c :: tail)), tail.length)
  else if c = '-' ∨ c.isDigit then
    let tail := rest.takeWhile (!endsNumber ·)
    (number? (c :: tail)).map fun token => (token, tail.length)
  else if c = '"' then
    if rest.take 2 = ['"', '"'] then do
      let content ← block? '"' (rest.drop 2)
      some (.string (String.ofList (blockText content)), content.length + 5)
    else do
      let content ← quoted? rest
      let text ← unescape? content
      some (.string (String.ofList text), content.length + 1)
  else none

/-- Whether a character stands between tokens without meaning. -/
def isGap (c : Char) : Bool := ['\ufeff', '\r', '\n', '\t', ' ', ','].contains c

/-- Whether a character belongs to a comment that has begun. -/
def inComment (c : Char) : Bool := c != '\r' && c != '\n'

/-- The tokens of a text from a position on, if all of it is made of tokens and gaps. -/
def scan? (position : Position) : List Char → Option (List (Position × Token))
  | [] => some []
  | c :: rest =>
    if isGap c then scan? (position.behindGap c) rest
    else if c = '#' then
      let comment := rest.takeWhile inComment
      let ended := decide (comment.length < rest.length)
      scan? (position.behindComment ended) (rest.drop (comment.length + 1))
    else match token? c rest with
      | none => none
      | some (token, taken) =>
        (scan? (position.behindToken (c :: rest.take taken)) (rest.drop taken)).map
          ((position, token) :: ·)
  termination_by chars => chars.length
  decreasing_by all_goals grind

end Token

end SelectionRecall
