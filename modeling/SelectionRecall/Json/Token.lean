import SelectionRecall.Json.Number

/-!
# JSON tokens

The words of JSON text. Scanning is a walk over the characters: each token says how many characters
it took, and the walk goes on behind it.

* `Json.Token`: punctuation and scalar values.
* `Json.scanText?`: the characters of a string and their number.
* `Json.tokens?`: the tokens of a text, if all of it is made of tokens and blanks.
-/

namespace SelectionRecall.Json

/-- A token of JSON text. -/
inductive Token where
  | openArray
  | closeArray
  | openObject
  | closeObject
  | comma
  | colon
  | scalar (value : Json)

/-- The character that a letter behind a backslash stands for. -/
def escape? : Char → Option Char
  | '"' => some '"'
  | '\\' => some '\\'
  | '/' => some '/'
  | 'b' => some '\x08'
  | 'f' => some '\x0c'
  | 'n' => some '\n'
  | 'r' => some '\r'
  | 't' => some '\t'
  | _ => none

/-- Puts a character in front of a scanned text that took `count` more characters of the source. -/
def prepend (character : Char) (count : Nat) : List Char × Nat → List Char × Nat
  | (text, taken) => (character :: text, taken + count)

/-- The text of a string behind its opening quote, and the number of characters up to and including
the closing one. Control characters and lone surrogates are refused. -/
def scanText? : List Char → Option (List Char × Nat)
  | [] => none
  | '"' :: _ => some ([], 1)
  | '\\' :: 'u' :: a :: b :: c :: d :: '\\' :: 'u' :: a' :: b' :: c' :: d' :: rest =>
    match Digits.hexQuad? a b c d with
    | none => none
    | some high =>
      if high < 0xD800 ∨ 0xDFFF < high then
        (scanText? ('\\' :: 'u' :: a' :: b' :: c' :: d' :: rest)).map (prepend (Char.ofNat high) 6)
      else match Digits.hexQuad? a' b' c' d' with
        | none => none
        | some low =>
          if high < 0xDC00 ∧ 0xDC00 ≤ low ∧ low ≤ 0xDFFF then
            let character := Char.ofNat (0x10000 + (high - 0xD800) * 0x400 + (low - 0xDC00))
            (scanText? rest).map (prepend character 12)
          else none
  | '\\' :: 'u' :: a :: b :: c :: d :: rest =>
    match Digits.hexQuad? a b c d with
    | none => none
    | some code =>
      if code < 0xD800 ∨ 0xDFFF < code then (scanText? rest).map (prepend (Char.ofNat code) 6)
      else none
  | '\\' :: c :: rest =>
    match escape? c with
    | none => none
    | some character => (scanText? rest).map (prepend character 2)
  | c :: rest => if c.toNat < 0x20 then none else (scanText? rest).map (prepend c 1)

/-- Whether a character may belong to a number. -/
def inNumber (c : Char) : Bool := c.isDigit || ['-', '+', '.', 'e', 'E'].contains c

/-- The token that starts with `c`, and how many of the characters behind `c` belong to it. -/
def token? (c : Char) (rest : List Char) : Option (Token × Nat) :=
  match c with
  | '[' => some (.openArray, 0)
  | ']' => some (.closeArray, 0)
  | '{' => some (.openObject, 0)
  | '}' => some (.closeObject, 0)
  | ',' => some (.comma, 0)
  | ':' => some (.colon, 0)
  | '"' => (scanText? rest).map fun (text, taken) => (.scalar (.string (String.ofList text)), taken)
  | 'n' => word ['u', 'l', 'l'] .null
  | 't' => word ['r', 'u', 'e'] (.boolean true)
  | 'f' => word ['a', 'l', 's', 'e'] (.boolean false)
  | _ =>
    if c = '-' ∨ c.isDigit then
      let tail := rest.takeWhile inNumber
      (number? (c :: tail)).map fun value => (.scalar value, tail.length)
    else none
where
  /-- A word whose first letter is already read. -/
  word (letters : List Char) (value : Json) : Option (Token × Nat) :=
    if rest.take letters.length = letters then some (.scalar value, letters.length) else none

/-- Whether a character stands between tokens without meaning. -/
def isGap (c : Char) : Bool := [' ', '\n', '\r', '\t'].contains c

/-- The tokens of a text, if all of it is made of tokens and blanks. -/
def tokens? : List Char → Option (List Token)
  | [] => some []
  | c :: rest =>
    if isGap c then tokens? rest
    else match token? c rest with
      | none => none
      | some (token, taken) => (tokens? (rest.drop taken)).map (token :: ·)
  termination_by chars => chars.length
  decreasing_by all_goals grind

end SelectionRecall.Json
