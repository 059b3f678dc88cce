/-!
# Blank characters and lines

White space in the sense of the Unicode property of that name, and the division of a text into
lines.

* `Text.isBlank`: whether a character is white space.
* `Text.trimEnd`: a text without the white space at its end.
* `Text.lines`: the lines of a text; a final line end adds none.
-/

namespace SelectionRecall.Text

/-- The characters with the Unicode property `White_Space`. -/
def isBlank (c : Char) : Bool :=
  let code := c.toNat
  (0x09 ≤ code && code ≤ 0x0D) || code == 0x20 || code == 0x85 || code == 0xA0 || code == 0x1680
    || (0x2000 ≤ code && code ≤ 0x200A) || code == 0x2028 || code == 0x2029 || code == 0x202F
    || code == 0x205F || code == 0x3000

/-- A text without the white space at its end. -/
def trimEnd (text : String) : String :=
  String.ofList (text.toList.reverse.dropWhile isBlank).reverse

/-- The lines of a text. A line ends at a line feed, with or without a carriage return before it. -/
def lines : List Char → List (List Char)
  | [] => []
  | '\n' :: rest => [] :: lines rest
  | '\r' :: '\n' :: rest => [] :: lines rest
  | c :: rest =>
    match lines rest with
    | [] => [[c]]
    | line :: others => (c :: line) :: others

end SelectionRecall.Text
