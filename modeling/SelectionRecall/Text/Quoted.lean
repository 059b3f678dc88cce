import SelectionRecall.Text.Graphic

/-!
# Quoted text

A text in double quotes as messages show it: every character that is not graphic is written by its
number in base sixteen, and so are characters that extend the one before them.

* `Text.quoteChar`: the form of a character between the quotes.
* `Text.quoted`: a text in quotes.
-/

namespace SelectionRecall.Text

/-- The form of a character between double quotes. -/
def quoteChar (c : Char) : List Char :=
  match c with
  | '\x00' => ['\\', '0']
  | '\t' => ['\\', 't']
  | '\n' => ['\\', 'n']
  | '\r' => ['\\', 'r']
  | '"' => ['\\', '"']
  | '\\' => ['\\', '\\']
  | _ =>
    if isGraphic c then [c]
    else ['\\', 'u', '\x7b'] ++ Nat.toDigits 16 c.toNat ++ ['\x7d']

/-- A text in double quotes. -/
def quoted (text : String) : String :=
  String.ofList ('"' :: text.toList.flatMap quoteChar ++ ['"'])

end SelectionRecall.Text
