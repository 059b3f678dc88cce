import SelectionRecall.Proofs.Document.Nodes
import SelectionRecall.Proofs.Usage.Everywhere

/-!
# Variables in documents

The variables that stand in arguments and directives. An operation uses those of its own and those of
all fragments that it reaches through spreads. What a usage without variables is written as has none
either.

* `Value.variableNames`, `Selection.variablesIn`, `Definition.variableNames`: the variables in a text.
* `Document.Reaches`, `Document.Uses`: the fragments that a definition reaches, and the variables that
  it uses with them.
* `Usage.VariableFree.variablesIn_toSelections`: selections without variables.
-/

namespace SelectionRecall

namespace Value

mutual

/-- The variables that occur in the value. -/
def variableNames : Value → List String
  | .variable name => [name]
  | .list items => itemVariables items
  | .object fields => fieldVariables fields
  | .int _ | .float _ | .string _ | .boolean _ | .null | .enum _ => []

/-- Those that occur in items. -/
def itemVariables : List Value → List String
  | [] => []
  | item :: rest => item.variableNames ++ itemVariables rest

/-- Those that occur in the fields of an object. -/
def fieldVariables : List (String × Value) → List String
  | [] => []
  | (_, value) :: rest => value.variableNames ++ fieldVariables rest

end

mutual

/-- A value that mentions no variable has none. -/
theorem variableNames_eq_nil {value : Value} (h : value.mentionsVariable = false) :
    value.variableNames = [] := by
  match value, h with
  | .variable name, h => simp [mentionsVariable] at h
  | .list items, h =>
    rw [mentionsVariable] at h
    rw [variableNames]; exact itemVariables_eq_nil h
  | .object fields, h =>
    rw [mentionsVariable] at h
    rw [variableNames]; exact fieldVariables_eq_nil h
  | .int _, _ | .float _, _ | .string _, _ | .boolean _, _ | .null, _ | .enum _, _ => rw [variableNames]

theorem itemVariables_eq_nil {items : List Value} (h : anyItemMentions items = false) :
    itemVariables items = [] := by
  cases items with
  | nil => rw [itemVariables]
  | cons item rest =>
    rw [anyItemMentions, Bool.or_eq_false_iff] at h
    rw [itemVariables, variableNames_eq_nil h.1, itemVariables_eq_nil h.2]; rfl

theorem fieldVariables_eq_nil {fields : List (String × Value)} (h : anyFieldMentions fields = false) :
    fieldVariables fields = [] := by
  cases fields with
  | nil => rw [fieldVariables]
  | cons field rest =>
    obtain ⟨name, value⟩ := field
    rw [anyFieldMentions, Bool.or_eq_false_iff] at h
    rw [fieldVariables, variableNames_eq_nil h.1, fieldVariables_eq_nil h.2]; rfl

end

end Value

/-- The variables in arguments. -/
def Arguments.variableNames (arguments : Arguments) : List String :=
  arguments.flatMap fun argument => argument.2.variableNames

/-- The variables in directives. -/
def Directive.variablesIn (directives : List Directive) : List String :=
  directives.flatMap fun directive => directive.arguments.variableNames

theorem Arguments.variableNames_eq_nil {arguments : Arguments} (h : arguments.mentionVariable = false) :
    arguments.variableNames = [] := by
  unfold variableNames
  rw [List.flatMap_eq_nil_iff]
  intro argument hargument
  have hplain := List.any_eq_false.1 h argument hargument
  rw [Bool.not_eq_true] at hplain
  exact Value.variableNames_eq_nil hplain

namespace Selection

/-- The variables in the arguments and the directives of a selection, without those beneath it. -/
def ownVariables : Selection → List String
  | .field _ _ arguments directives _ => arguments.variableNames ++ Directive.variablesIn directives
  | .inline _ directives _ | .spread _ directives => Directive.variablesIn directives

/-- The variables in selections and everything beneath them. -/
def variablesIn (selections : List Selection) : List String :=
  (nodesOf selections).flatMap ownVariables

@[simp]
theorem variablesIn_append (first second : List Selection) :
    variablesIn (first ++ second) = variablesIn first ++ variablesIn second := by
  rw [variablesIn, nodesOf_append, List.flatMap_append]; rfl

theorem variablesIn_cons (selection : Selection) (rest : List Selection) :
    variablesIn (selection :: rest) = variablesIn [selection] ++ variablesIn rest := by
  rw [← variablesIn_append]; rfl

@[simp]
theorem variablesIn_field (alias? : Option String) (name : String) (arguments : Arguments)
    (directives : List Directive) (selections : List Selection) :
    variablesIn [.field alias? name arguments directives selections] =
      arguments.variableNames ++ Directive.variablesIn directives ++ variablesIn selections := by
  simp [variablesIn, nodesOf, nodes, ownVariables]

@[simp]
theorem variablesIn_inline (condition? : Option String) (directives : List Directive)
    (selections : List Selection) :
    variablesIn [.inline condition? directives selections] =
      Directive.variablesIn directives ++ variablesIn selections := by
  simp [variablesIn, nodesOf, nodes, ownVariables]

@[simp]
theorem variablesIn_spread (name : String) (directives : List Directive) :
    variablesIn [.spread name directives] = Directive.variablesIn directives := by
  simp [variablesIn, nodesOf, nodes, ownVariables]

/-- Selections have no variables if none of them has. -/
theorem variablesIn_eq_nil {selections : List Selection}
    (h : ∀ selection ∈ selections, variablesIn [selection] = []) : variablesIn selections = [] := by
  induction selections with
  | nil => rfl
  | cons selection rest ih =>
    obtain ⟨hfirst, hrest⟩ := List.forall_mem_cons.1 h
    rw [variablesIn_cons, hfirst, ih hrest]; rfl

end Selection

/-- The variables in the directives of a definition itself. -/
def Definition.headVariables : Definition → List String
  | .operation definition => Directive.variablesIn (definition.head?.elim [] OperationHead.directives)
  | .fragment definition => Directive.variablesIn definition.directives

/-- The variables in a definition. -/
def Definition.variableNames (definition : Definition) : List String :=
  definition.headVariables ++ Selection.variablesIn definition.selections

namespace Document

open Relation

/-- The definition reaches a fragment of this name through spreads. -/
def Reaches (document : Document) (definition : Definition) (name : String) : Prop :=
  ∃ first ∈ Selection.spreadsOf definition.selections, ReflTransGen document.Spreads first name

/-- The definition uses the variable of this name, itself or in a fragment that it reaches. -/
def Uses (document : Document) (definition : Definition) (name : String) : Prop :=
  name ∈ definition.variableNames ∨
    ∃ fragment ∈ document.fragments, document.Reaches definition fragment.name ∧
      name ∈ (Definition.fragment fragment).variableNames

end Document

/-- **A usage without variables is written without variables.** -/
theorem Usage.VariableFree.variablesIn_toSelections {usage : Usage} (h : usage.VariableFree) :
    Selection.variablesIn usage.toSelections = [] := by
  induction h with
  | @intro usage hfree _ _ ihFields ihParts =>
    refine Selection.variablesIn_eq_nil ?_
    intro selection hselection
    rcases mem_toSelections.1 hselection with ⟨field, hfield, rfl⟩ | ⟨part, hpart, rfl⟩
    · rw [Selection.variablesIn_field, Arguments.variableNames_eq_nil (hfree field hfield)]
      cases hnested : field.nested? with
      | none => rfl
      | some nested =>
        have hbeneath := ihFields field hfield nested hnested
        simpa [Directive.variablesIn] using hbeneath
    · rw [Selection.variablesIn_inline, ihParts part hpart]; rfl

/-- What is written of such a usage uses nothing. -/
theorem Usage.VariableFree.variableNames_toFragment {usage : Usage} (h : usage.VariableFree)
    (name typeName : String) :
    (Definition.fragment (usage.toFragment name typeName)).variableNames = [] := by
  have hselections := h.variablesIn_toSelections
  unfold Definition.variableNames Usage.toFragment
  rw [Definition.selections, hselections]; rfl

end SelectionRecall
