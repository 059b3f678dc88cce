import SelectionRecall.Json
import SelectionRecall.Number.Shortest

/-!
# Writing JSON

The compact text of a value, without blanks. Floats are written with the fewest digits that read
back: around a point where the point lies among or near the digits, else with an exponent.

* `Binary64.interchangeText`: the text of a float.
* `Json.quote`: a string in quotes.
* `Json.compact`: the text of a value.
-/

namespace SelectionRecall

/-- The text of a float: `1.0`, `0.001`, `1e+21`, `1.5e-7`. What is not finite has no text of
its own. -/
def Binary64.interchangeText : Binary64 → String
  | .infinite _ | .nan => "null"
  | .finite negative significand exponent =>
    if significand = 0 then signed negative ['0', '.', '0']
    else
      let decimal := shortest .toEven significand exponent
      let magnitude := decimal.exponent + (Nat.toDigits 10 decimal.digits).length
      signed negative <|
        if 0 ≤ decimal.exponent ∧ magnitude ≤ 16 then decimal.positional ++ ['.', '0']
        else if -5 < magnitude ∧ magnitude ≤ 16 then decimal.positional
        else decimal.scientific

namespace Json

/-- The text of a character in a string. -/
def quoteChar (c : Char) : List Char :=
  match c with
  | '"' => ['\\', '"']
  | '\\' => ['\\', '\\']
  | '\n' => ['\\', 'n']
  | '\r' => ['\\', 'r']
  | '\t' => ['\\', 't']
  | '\x08' => ['\\', 'b']
  | '\x0c' => ['\\', 'f']
  | _ =>
    if c.toNat < 0x20 then
      ['\\', 'u', '0', '0', Nat.digitChar (c.toNat / 16), Nat.digitChar (c.toNat % 16)]
    else [c]

/-- A string in quotes. -/
def quote (text : String) : String :=
  String.ofList ('"' :: text.toList.flatMap quoteChar ++ ['"'])

mutual

/-- The text of a value, without blanks. -/
def compact : Json → String
  | .null => "null"
  | .boolean value => if value then "true" else "false"
  | .integer value => toString value
  | .float value => value.interchangeText
  | .string value => quote value
  | .array items => "[" ++ ",".intercalate (compactItems items) ++ "]"
  | .object members => "\x7b" ++ ",".intercalate (compactMembers members) ++ "\x7d"

/-- The texts of the items of an array. -/
def compactItems : List Json → List String
  | [] => []
  | item :: rest => compact item :: compactItems rest

/-- The texts of the members of an object. -/
def compactMembers : List (String × Json) → List String
  | [] => []
  | (key, value) :: rest => (quote key ++ ":" ++ compact value) :: compactMembers rest

end

end Json

end SelectionRecall
