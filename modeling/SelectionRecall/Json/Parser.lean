import SelectionRecall.Json.Token

/-!
# Reading JSON

A walk over the tokens with a stack of the arrays and objects that are still open. The stack may not
grow beyond a given depth. Of the members of an object with one key the last is kept.

* `Json.Building`: what is open, and what may come next.
* `Json.Building.step?`: the effect of a token.
* `Json.parse?`: the value that a text writes.
-/

namespace SelectionRecall.Json

/-- An array or object whose end is not reached. Items stand in reverse order; an object remembers
the key that waits for its value. -/
inductive Frame where
  | array (items : List Json)
  | object (members : List (String × Json)) (key : String)

/-- What may come next. -/
inductive Expected where
  | value
  | valueOrClose
  | key
  | keyOrClose
  | colon
  | commaOrClose
  | finish
  deriving DecidableEq

/-- A value under construction. -/
structure Building where
  frames : List Frame
  expected : Expected
  result : Json

namespace Building

/-- Nothing is read. -/
def start : Building := ⟨[], .value, .null⟩

/-- A finished value goes into the innermost open frame. -/
def attach (value : Json) : List Frame → Building
  | [] => ⟨[], .finish, value⟩
  | .array items :: outer => ⟨.array (value :: items) :: outer, .commaOrClose, .null⟩
  | .object members key :: outer =>
    ⟨.object (Keyed.insertSorted key value members) key :: outer, .commaOrClose, .null⟩

/-- The effect of a token, if it may come next. -/
def step? (maxDepth : Nat) (state : Building) (token : Token) : Option Building :=
  let awaitsValue := state.expected = .value ∨ state.expected = .valueOrClose
  let awaitsKey := state.expected = .key ∨ state.expected = .keyOrClose
  match token, state.frames with
  | .openArray, frames =>
    if awaitsValue ∧ frames.length < maxDepth then
      some ⟨.array [] :: frames, .valueOrClose, .null⟩
    else none
  | .openObject, frames =>
    if awaitsValue ∧ frames.length < maxDepth then
      some ⟨.object [] "" :: frames, .keyOrClose, .null⟩
    else none
  | .closeArray, .array items :: outer =>
    if state.expected = .valueOrClose ∨ state.expected = .commaOrClose then
      some (attach (.array items.reverse) outer)
    else none
  | .closeObject, .object members _ :: outer =>
    if state.expected = .keyOrClose ∨ state.expected = .commaOrClose then
      some (attach (.object members) outer)
    else none
  | .comma, .array items :: outer =>
    if state.expected = .commaOrClose then some ⟨.array items :: outer, .value, .null⟩ else none
  | .comma, .object members key :: outer =>
    if state.expected = .commaOrClose then some ⟨.object members key :: outer, .key, .null⟩
    else none
  | .colon, frames => if state.expected = .colon then some ⟨frames, .value, .null⟩ else none
  | .scalar (.string key), .object members pending :: outer =>
    if awaitsKey then some ⟨.object members key :: outer, .colon, .null⟩
    else if awaitsValue then some (attach (.string key) (.object members pending :: outer))
    else none
  | .scalar value, frames => if awaitsValue then some (attach value frames) else none
  | _, _ => none

/-- The finished value, if there is one. -/
def finished? (state : Building) : Option Json :=
  if state.expected = .finish then some state.result else none

end Building

/-- The value that a text writes, with at most `maxDepth` arrays and objects inside each other. -/
def parse? (maxDepth : Nat) (text : String) : Option Json := do
  let tokens ← tokens? text.toList
  let state ← tokens.foldlM (Building.step? maxDepth) Building.start
  state.finished?

end SelectionRecall.Json
