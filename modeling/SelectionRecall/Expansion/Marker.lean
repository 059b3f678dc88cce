import SelectionRecall.Expansion.Supply
import SelectionRecall.Usage.Observation

/-!
# Expanding markers

A marker is a directive on a field that asks for everything that is known to be used of the field's
type. Expansion takes the markers away and spreads fragments in their place, which are added at the
end of the document. On a field that returns an abstract type there is one inline fragment for each
implementer of which anything is known; an implementer that was never seen itself gets the fields
that are known of the abstract type. Nothing fails: a marker for which nothing is known is only taken
away.

* `MarkerOptions`: the name of the directive and the suffix of generated fragments.
* `Expansion`: options, schema and usages that markers are expanded with.
* `Expansion.isMarked`: whether a document has a marker on a field.
* `Expansion.fill`: the selections that stand for a marker.
* `Expansion.expand`: the document without markers.
-/

namespace SelectionRecall

/-- How markers look and how generated fragments are named. -/
structure MarkerOptions where
  directive : String := "populate"
  suffix : String := "Fragment"
  deriving DecidableEq, Repr

/-- What markers are expanded with. -/
structure Expansion where
  options : MarkerOptions
  schema : Schema
  table : UsageTable

namespace Expansion

variable (expansion : Expansion)

/-- Whether a directive is a marker. -/
def isMarker (directive : Directive) : Bool := directive.name = expansion.options.directive

mutual

/-- Whether a marker stands on a field of the selection. -/
def marks : Selection → Bool
  | .field _ _ _ directives selections =>
    directives.any expansion.isMarker || anyMarks selections
  | .inline _ _ selections => anyMarks selections
  | .spread _ _ => false

/-- Whether a marker stands on a field of one of the selections. -/
def anyMarks : List Selection → Bool
  | [] => false
  | selection :: rest => marks selection || anyMarks rest

end

/-- Whether a marker stands on a field of the document. -/
def isMarked (document : Document) : Bool :=
  document.definitions.any fun definition => expansion.anyMarks definition.selections

/-- Takes a fragment of the document into a supply. It is offered if its type is known and it has no
marker; else only its name is taken. -/
def register (document : Document) (supply : FragmentSupply) (fragment : FragmentDefinition) :
    FragmentSupply :=
  if expansion.anyMarks fragment.selections || !expansion.schema.hasType fragment.condition then
    supply.reserve fragment.name
  else
    supply.offer ⟨fragment.name, fragment.condition,
      (expansion.schema.observe document fragment.condition fragment.selections).usage⟩

/-- The supply of a document's own fragments. -/
def supplyOf (document : Document) : FragmentSupply :=
  document.fragments.foldl (expansion.register document) (.empty expansion.options.suffix)

/-- What an implementer of an abstract type is served with: its own usage, or else the fields that
are known of the abstract type. -/
def requestFor? (abstractName implementer : String) : Option (String × Usage) :=
  match expansion.table.getNonEmpty? implementer with
  | some usage => some (implementer, usage)
  | none =>
    (((expansion.table.get? abstractName).map Usage.unconditional).filter
      fun usage => !usage.isEmpty).map fun usage => (abstractName, usage)

/-- The inline fragments for implementers of an abstract type, and the supply afterwards. -/
def fillAbstract (abstractName : String) :
    List String → FragmentSupply → List Selection × FragmentSupply
  | [], supply => ([], supply)
  | implementer :: rest, supply =>
    match expansion.requestFor? abstractName implementer with
    | none => fillAbstract abstractName rest supply
    | some (typeName, usage) =>
      let served := supply.request typeName usage
      let others := fillAbstract abstractName rest served.2
      (.inline (some implementer) [] [.spread served.1 []] :: others.1, others.2)

/-- The selections that stand for a marker on a field of this type, and the supply afterwards. -/
def fill (typeName : String) (supply : FragmentSupply) : List Selection × FragmentSupply :=
  if expansion.schema.isAbstract typeName then
    expansion.fillAbstract typeName (expansion.schema.implementers typeName) supply
  else
    match expansion.table.getNonEmpty? typeName with
    | none => ([], supply)
    | some usage =>
      let served := supply.request typeName usage
      ([.spread served.1 []], served.2)

/-- What is added to a field that has these directives. -/
def fillField (directives : List Directive) (type? : Option String) (supply : FragmentSupply) :
    List Selection × FragmentSupply :=
  match type? with
  | some typeName =>
    if directives.any expansion.isMarker then expansion.fill typeName supply else ([], supply)
  | none => ([], supply)

mutual

/-- Expands the markers of a selection inside a type, which may be unknown. -/
def expandSelection (parent? : Option String) (supply : FragmentSupply) :
    Selection → Selection × FragmentSupply
  | .field alias? name arguments directives selections =>
    let type? := parent?.bind fun parent => expansion.schema.fieldType? parent name
    let inner := expandSelections type? supply selections
    let added := expansion.fillField directives type? inner.2
    (.field alias? name arguments (directives.filter fun directive => !expansion.isMarker directive)
      (inner.1 ++ added.1), added.2)
  | .inline condition? directives selections =>
    let inner := expandSelections (condition?.or parent?) supply selections
    (.inline condition? directives inner.1, inner.2)
  | .spread fragment directives => (.spread fragment directives, supply)

/-- Expands the markers of selections from the first one to the last. -/
def expandSelections (parent? : Option String) (supply : FragmentSupply) :
    List Selection → List Selection × FragmentSupply
  | [] => ([], supply)
  | selection :: rest =>
    let first := expandSelection parent? supply selection
    let others := expandSelections parent? first.2 rest
    (first.1 :: others.1, others.2)

end

/-- Expands the markers of a definition. -/
def expandDefinition (supply : FragmentSupply) : Definition → Definition × FragmentSupply
  | .operation operation =>
    let inner :=
      expansion.expandSelections (expansion.schema.root? operation.type) supply operation.selections
    (.operation { operation with selections := inner.1 }, inner.2)
  | .fragment fragment =>
    let inner := expansion.expandSelections (some fragment.condition) supply fragment.selections
    (.fragment { fragment with selections := inner.1 }, inner.2)

/-- Expands the markers of definitions from the first one to the last. -/
def expandDefinitions (supply : FragmentSupply) :
    List Definition → List Definition × FragmentSupply
  | [] => ([], supply)
  | definition :: rest =>
    let first := expansion.expandDefinition supply definition
    let others := expandDefinitions first.2 rest
    (first.1 :: others.1, others.2)

/-- The document without markers, followed by the fragments that were generated for them. -/
def expand (document : Document) : Document :=
  if expansion.isMarked document then
    let expanded := expansion.expandDefinitions (expansion.supplyOf document) document.definitions
    ⟨expanded.1 ++ expanded.2.generated.map SuppliedFragment.definition⟩
  else document

end Expansion

end SelectionRecall
