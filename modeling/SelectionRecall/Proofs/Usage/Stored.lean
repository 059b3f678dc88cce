import SelectionRecall.Proofs.Document.Variables
import SelectionRecall.Proofs.Usage.Built

/-!
# Usages kept in maps

A usage may be kept in maps: a field stands beside a key and has its own name inside, and a part stands
beside the name of its type. The form of such a map does not say that the key is the name of the field, and
the operations tell the two apart: a field is added under its name and found under its key, and it is
written with its name again. What the operations build, however, are just the usages without keys, with
each field beside its name.

* `StoredField`, `StoredUsage`: uses of fields and usages in maps, with the operations on them.
* `StoredField.Built`, `StoredUsage.Built`: what the operations on maps build.
* `FieldUse.stored`, `Usage.stored`: a usage as it is kept, each field beside its name.
* `Usage.stored_merge`, `Usage.stored_addField`, `Usage.stored_addPart`, `Usage.stored_unconditional`,
  `FieldUse.stored_withArguments`: operations before and after.
* `Usage.field?_stored`, `Usage.toSelections_stored`: what is found, and what is written.
* `StoredUsage.built_iff`: what is built in maps is what is built without them.
* `StoredUsage.Orderly`, `Usage.orderly_stored`: what holds of these maps at every depth.
-/

namespace SelectionRecall

mutual

/-- A field with its own name, its arguments, and what was selected beneath it in maps. -/
inductive StoredField where
  | mk (name : String) (arguments : Arguments) (nested? : Option StoredUsage)

/-- Fields under keys, and parts under the names of their types. -/
inductive StoredUsage where
  | mk (fields : List (String × StoredField)) (parts : List (String × StoredUsage))

end

namespace StoredField

/-- The name of the field. -/
def name : StoredField → String
  | .mk name _ _ => name

/-- The arguments of the field. -/
def arguments : StoredField → Arguments
  | .mk _ arguments _ => arguments

/-- What was selected beneath the field, if it is not a leaf. -/
def nested? : StoredField → Option StoredUsage
  | .mk _ _ nested? => nested?

/-- A field without arguments and without anything beneath it. -/
def leaf (name : String) : StoredField := .mk name [] none

/-- A field without arguments, with a usage beneath it. -/
def nested (name : String) (usage : StoredUsage) : StoredField := .mk name [] (some usage)

/-- The field with these arguments, unless one of them mentions a variable. -/
def withArguments (field : StoredField) (arguments : Arguments) : StoredField :=
  if arguments.mentionVariable then field else .mk field.name arguments field.nested?

end StoredField

namespace StoredUsage

/-- The fields beside their keys, in the order in which the keys were first seen. -/
def fields : StoredUsage → List (String × StoredField)
  | .mk fields _ => fields

/-- The parts beside the names of their types, in the order in which these were first seen. -/
def parts : StoredUsage → List (String × StoredUsage)
  | .mk _ parts => parts

/-- Nothing was selected. -/
def empty : StoredUsage := .mk [] []

/-- The usage without its parts. -/
def unconditional (usage : StoredUsage) : StoredUsage := .mk usage.fields []

/-- The field under a key. -/
def field? (usage : StoredUsage) (key : String) : Option StoredField := usage.fields.lookup key

/-- The part under the name of a type. -/
def part? (usage : StoredUsage) (typeName : String) : Option StoredUsage :=
  usage.parts.lookup typeName

end StoredUsage

mutual

/-- The union of two uses of a field. -/
def StoredField.merge (old : StoredField) : StoredField → StoredField
  | .mk _ arguments nested? =>
    .mk old.name (old.arguments.newer arguments) (StoredUsage.mergeNested old.nested? nested?)

/-- The union of what was selected beneath a field. -/
def StoredUsage.mergeNested (old? : Option StoredUsage) : Option StoredUsage → Option StoredUsage
  | none => old?
  | some new =>
    match old? with
    | none => some new
    | some old => some (old.merge new)

/-- The union of two usages. -/
def StoredUsage.merge (old : StoredUsage) : StoredUsage → StoredUsage
  | .mk fields parts =>
    .mk (StoredUsage.mergeFields old.fields fields) (StoredUsage.mergeParts old.parts parts)

/-- Adds fields one by one, whatever their keys were: one is merged into the field that stands under its
name, or is stored there. -/
def StoredUsage.mergeFields (old : List (String × StoredField)) :
    List (String × StoredField) → List (String × StoredField)
  | [] => old
  | (_, new) :: rest =>
    StoredUsage.mergeFields
      (Keyed.upsert Prod.fst new.name (fun known => (known.1, known.2.merge new)) (new.name, new) old)
      rest

/-- Adds parts one by one under the names of their types. -/
def StoredUsage.mergeParts (old : List (String × StoredUsage)) :
    List (String × StoredUsage) → List (String × StoredUsage)
  | [] => old
  | (typeName, new) :: rest =>
    StoredUsage.mergeParts
      (Keyed.upsert Prod.fst typeName (fun known => (known.1, known.2.merge new)) (typeName, new) old)
      rest

end

namespace StoredUsage

/-- Adds a field under its name. -/
def addField (usage : StoredUsage) (field : StoredField) : StoredUsage :=
  .mk (Keyed.upsert Prod.fst field.name (fun known => (known.1, known.2.merge field))
    (field.name, field) usage.fields) usage.parts

/-- Adds a part for a narrower type. -/
def addPart (usage : StoredUsage) (typeName : String) (part : StoredUsage) : StoredUsage :=
  .mk usage.fields (Keyed.upsert Prod.fst typeName (fun known => (known.1, known.2.merge part))
    (typeName, part) usage.parts)

mutual

/-- The selections that a usage stands for: the fields in their order, then the parts. -/
def toSelections : StoredUsage → List Selection
  | .mk fields parts => fieldSelections fields ++ partSelections parts

/-- The selections of fields, which are written with their own names. -/
def fieldSelections : List (String × StoredField) → List Selection
  | [] => []
  | (_, .mk name arguments none) :: rest =>
    .field none name arguments [] [] :: fieldSelections rest
  | (_, .mk name arguments (some nested)) :: rest =>
    .field none name arguments [] nested.toSelections :: fieldSelections rest

/-- The inline fragments of parts. -/
def partSelections : List (String × StoredUsage) → List Selection
  | [] => []
  | (typeName, part) :: rest =>
    .inline (some typeName) [] part.toSelections :: partSelections rest

end

end StoredUsage

/-! ## The operations on maps -/

mutual

/-- Uses of fields that the operations on maps build. -/
inductive StoredField.Built : StoredField → Prop
  | leaf (name : String) : StoredField.Built (.leaf name)
  | nested {usage} (name : String) : StoredUsage.Built usage → StoredField.Built (.nested name usage)
  | withArguments {field} (arguments : Arguments) :
    StoredField.Built field → StoredField.Built (field.withArguments arguments)
  | merge {old new} :
    StoredField.Built old → StoredField.Built new → StoredField.Built (old.merge new)
  | known {usage entry} :
    StoredUsage.Built usage → entry ∈ usage.fields → StoredField.Built entry.2

/-- Usages that the operations on maps build. -/
inductive StoredUsage.Built : StoredUsage → Prop
  | empty : StoredUsage.Built .empty
  | addField {usage field} :
    StoredUsage.Built usage → StoredField.Built field → StoredUsage.Built (usage.addField field)
  | addPart {usage part} (typeName : String) :
    StoredUsage.Built usage → StoredUsage.Built part → StoredUsage.Built (usage.addPart typeName part)
  | merge {old new} :
    StoredUsage.Built old → StoredUsage.Built new → StoredUsage.Built (old.merge new)
  | unconditional {usage} : StoredUsage.Built usage → StoredUsage.Built usage.unconditional
  | beneath {field nested} :
    StoredField.Built field → field.nested? = some nested → StoredUsage.Built nested
  | part {usage part} : StoredUsage.Built usage → part ∈ usage.parts → StoredUsage.Built part.2

end

/-! ## Keys are names -/

mutual

/-- The field as it is kept in maps. -/
def FieldUse.stored : FieldUse → StoredField
  | .mk name arguments nested? => .mk name arguments (Usage.storedNested nested?)

/-- What is beneath a field as it is kept in maps. -/
def Usage.storedNested : Option Usage → Option StoredUsage
  | none => none
  | some nested => some nested.stored

/-- The usage as it is kept in maps: each field stands under its name. -/
def Usage.stored : Usage → StoredUsage
  | .mk fields parts => .mk (Usage.storedFields fields) (Usage.storedParts parts)

/-- Fields beside their names. -/
def Usage.storedFields : List FieldUse → List (String × StoredField)
  | [] => []
  | field :: rest => (field.name, field.stored) :: Usage.storedFields rest

/-- Parts beside the names of their types. -/
def Usage.storedParts : List (String × Usage) → List (String × StoredUsage)
  | [] => []
  | (typeName, part) :: rest => (typeName, part.stored) :: Usage.storedParts rest

end

theorem Usage.storedNested_eq_map (nested? : Option Usage) :
    Usage.storedNested nested? = nested?.map Usage.stored := by
  cases nested? <;> rw [storedNested] <;> rfl

namespace FieldUse

/-- The field beside its name. -/
def entry (field : FieldUse) : String × StoredField := (field.name, field.stored)

@[simp]
theorem name_stored (field : FieldUse) : field.stored.name = field.name := by
  cases field; rw [stored]; rfl

@[simp]
theorem arguments_stored (field : FieldUse) : field.stored.arguments = field.arguments := by
  cases field; rw [stored]; rfl

@[simp]
theorem nested?_stored (field : FieldUse) :
    field.stored.nested? = field.nested?.map Usage.stored := by
  cases field
  rw [stored]
  exact Usage.storedNested_eq_map _

end FieldUse

namespace Usage

/-- The part beside the name of its type. -/
def storedPart (part : String × Usage) : String × StoredUsage := (part.1, part.2.stored)

theorem storedFields_eq_map (fields : List FieldUse) :
    storedFields fields = fields.map FieldUse.entry := by
  induction fields with
  | nil => rw [storedFields]; rfl
  | cons field rest ih => rw [storedFields, ih]; rfl

theorem storedParts_eq_map (parts : List (String × Usage)) :
    storedParts parts = parts.map storedPart := by
  induction parts with
  | nil => rw [storedParts]; rfl
  | cons part rest ih => rw [storedParts, ih]; rfl

theorem fields_stored (usage : Usage) : usage.stored.fields = usage.fields.map FieldUse.entry := by
  cases usage
  rw [stored]
  exact storedFields_eq_map _

theorem parts_stored (usage : Usage) : usage.stored.parts = usage.parts.map storedPart := by
  cases usage
  rw [stored]
  exact storedParts_eq_map _

end Usage

/-! ## The operations keep keys and names the same -/

namespace FieldUse

theorem stored_leaf (name : String) : (leaf name).stored = .leaf name := by
  rw [leaf, stored, Usage.storedNested_eq_map]; rfl

theorem stored_nested (name : String) (usage : Usage) :
    (nested name usage).stored = .nested name usage.stored := by
  rw [nested, stored, Usage.storedNested_eq_map]; rfl

theorem stored_withArguments (field : FieldUse) (arguments : Arguments) :
    (field.withArguments arguments).stored = field.stored.withArguments arguments := by
  unfold withArguments StoredField.withArguments
  split
  · rfl
  · rw [name_stored]
    obtain ⟨name, before, nested?⟩ := field
    rw [stored, stored]; rfl

/-- United fields, if what is beneath the new one is united so. -/
theorem stored_merge_of {field : FieldUse}
    (h : ∀ nested, field.nested? = some nested →
      ∀ old : Usage, (old.merge nested).stored = old.stored.merge nested.stored)
    (known : FieldUse) : (known.merge field).stored = known.stored.merge field.stored := by
  obtain ⟨name, arguments, nested?⟩ := field
  have hnested : (Usage.mergeNested known.nested? nested?).map Usage.stored =
      StoredUsage.mergeNested (known.nested?.map Usage.stored) (nested?.map Usage.stored) := by
    cases nested? with
    | none => simp [Usage.mergeNested, StoredUsage.mergeNested]
    | some nested =>
      have hunion := h nested rfl
      cases known.nested? <;> simp [Usage.mergeNested, StoredUsage.mergeNested, hunion]
  rw [merge, stored, stored, StoredField.merge, name_stored, arguments_stored, nested?_stored,
    Usage.storedNested_eq_map, Usage.storedNested_eq_map, hnested]

end FieldUse

namespace Usage

/-- Added fields stand beside their names, if each of them is united so. -/
theorem map_entry_mergeFields {new : List FieldUse}
    (h : ∀ field ∈ new, ∀ known : FieldUse, (known.merge field).stored = known.stored.merge field.stored)
    (old : List FieldUse) :
    (mergeFields old new).map FieldUse.entry =
      StoredUsage.mergeFields (old.map FieldUse.entry) (new.map FieldUse.entry) := by
  induction new generalizing old with
  | nil => rw [mergeFields, List.map_nil, StoredUsage.mergeFields]
  | cons field rest ih =>
    obtain ⟨hfield, hrest⟩ := List.forall_mem_cons.1 h
    have hchange : ∀ known : FieldUse, (known.merge field).entry =
        (known.entry.1, known.entry.2.merge field.stored) := by
      intro known
      rw [FieldUse.entry, hfield, FieldUse.name_merge]; rfl
    rw [mergeFields, ih hrest, List.map_cons, FieldUse.entry, StoredUsage.mergeFields,
      FieldUse.name_stored]
    congr 1
    refine Keyed.map_upsert_of_keys ?_ hchange field old
    exact fun _ => rfl

/-- So it is with parts. -/
theorem map_storedPart_mergeParts {new : List (String × Usage)}
    (h : ∀ part ∈ new, ∀ known : Usage, (known.merge part.2).stored = known.stored.merge part.2.stored)
    (old : List (String × Usage)) :
    (mergeParts old new).map storedPart =
      StoredUsage.mergeParts (old.map storedPart) (new.map storedPart) := by
  induction new generalizing old with
  | nil => rw [mergeParts, List.map_nil, StoredUsage.mergeParts]
  | cons part rest ih =>
    obtain ⟨hpart, hrest⟩ := List.forall_mem_cons.1 h
    have hchange : ∀ known : String × Usage, storedPart (known.1, known.2.merge part.2) =
        ((storedPart known).1, (storedPart known).2.merge part.2.stored) := by
      intro known
      rw [storedPart, hpart]; rfl
    rw [mergeParts, ih hrest, List.map_cons, storedPart, StoredUsage.mergeParts]
    congr 1
    refine Keyed.map_upsert_of_keys ?_ hchange part old
    exact fun _ => rfl

/-- **Unions are kept in maps** as the unions of the maps. -/
theorem stored_merge (old new : Usage) :
    (old.merge new).stored = old.stored.merge new.stored := by
  induction new using Usage.induction generalizing old with
  | step new ihFields ihParts =>
    obtain ⟨fields, parts⟩ := new
    -- fields are added under their names in both forms, whatever the keys of the second map are
    rw [merge, stored, stored, StoredUsage.merge, fields_stored, parts_stored]
    simp only [storedFields_eq_map, storedParts_eq_map]
    rw [map_entry_mergeFields, map_storedPart_mergeParts]
    · exact fun part hpart known => ihParts part hpart known
    · exact fun field hfield known =>
        FieldUse.stored_merge_of (fun nested hnested => ihFields field hfield nested hnested) known

end Usage

/-- So are united fields. -/
theorem FieldUse.stored_merge (old new : FieldUse) :
    (old.merge new).stored = old.stored.merge new.stored :=
  stored_merge_of (fun nested _ before => before.stored_merge nested) old

namespace Usage

theorem stored_empty : Usage.empty.stored = .empty := by
  rw [empty, stored, storedFields, storedParts]; rfl

theorem stored_unconditional (usage : Usage) :
    usage.unconditional.stored = usage.stored.unconditional := by
  rw [unconditional, stored, StoredUsage.unconditional, fields_stored, storedFields_eq_map, storedParts]

theorem stored_ofField (field : FieldUse) :
    (ofField field).stored = StoredUsage.empty.addField field.stored := by
  rw [ofField, stored, storedFields, storedFields, storedParts, StoredUsage.addField,
    FieldUse.name_stored]
  rfl

theorem stored_ofPart (typeName : String) (part : Usage) :
    (ofPart typeName part).stored = StoredUsage.empty.addPart typeName part.stored := by
  rw [ofPart, stored, storedFields, storedParts, storedParts]; rfl

theorem stored_addField (usage : Usage) (field : FieldUse) :
    (usage.addField field).stored = usage.stored.addField field.stored := by
  rw [addField, stored_merge, ofField, stored, storedFields, storedFields, storedParts]
  rw [StoredUsage.merge, StoredUsage.mergeFields, StoredUsage.mergeFields, StoredUsage.mergeParts]
  rfl

theorem stored_addPart (usage : Usage) (typeName : String) (part : Usage) :
    (usage.addPart typeName part).stored = usage.stored.addPart typeName part.stored := by
  rw [addPart, stored_merge, ofPart, stored, storedFields, storedParts, storedParts]
  rw [StoredUsage.merge, StoredUsage.mergeFields, StoredUsage.mergeParts, StoredUsage.mergeParts]
  rfl

/-- What is found under a key. -/
theorem field?_stored (usage : Usage) (name : String) :
    usage.stored.field? name = (usage.field? name).map FieldUse.stored := by
  unfold StoredUsage.field? field?
  rw [fields_stored, Keyed.lookup_eq_map_find?, List.find?_map, Option.map_map]
  rfl

theorem part?_stored (usage : Usage) (typeName : String) :
    usage.stored.part? typeName = (usage.part? typeName).map Usage.stored := by
  unfold StoredUsage.part? part?
  rw [parts_stored, Keyed.lookup_eq_map_find?, Keyed.lookup_eq_map_find?, List.find?_map,
    Option.map_map, Option.map_map]
  rfl

end Usage

/-- The selection that a field stands for. -/
def StoredField.selection (field : StoredField) : Selection :=
  .field none field.name field.arguments [] ((field.nested?.map StoredUsage.toSelections).getD [])

namespace StoredUsage

theorem toSelections_eq (usage : StoredUsage) :
    usage.toSelections =
      (usage.fields.map fun entry => entry.2.selection) ++
        usage.parts.map fun part => .inline (some part.1) [] part.2.toSelections := by
  have hfields : ∀ fields : List (String × StoredField),
      fieldSelections fields = fields.map fun entry => entry.2.selection := by
    intro fields
    induction fields with
    | nil => rw [fieldSelections]; rfl
    | cons entry rest ih =>
      obtain ⟨key, name, arguments, nested?⟩ := entry
      cases nested? <;> rw [fieldSelections, ih] <;> rfl
  have hparts : ∀ parts : List (String × StoredUsage), partSelections parts = parts.map fun part =>
      .inline (some part.1) [] part.2.toSelections := by
    intro parts
    induction parts with
    | nil => rw [partSelections]; rfl
    | cons part rest ih => rw [partSelections, ih]; rfl
  cases usage with
  | mk fields parts => rw [toSelections, hfields, hparts]; rfl

end StoredUsage

/-- **What is written** is the same in both forms. -/
theorem Usage.toSelections_stored (usage : Usage) : usage.stored.toSelections = usage.toSelections := by
  induction usage using Usage.induction with
  | step usage ihFields ihParts =>
    rw [StoredUsage.toSelections_eq, toSelections_eq, fields_stored, parts_stored, List.map_map,
      List.map_map]
    congr 1
    · refine List.map_congr_left fun field hfield => ?_
      have hnested : (field.stored.nested?.map StoredUsage.toSelections).getD [] =
          (field.nested?.map toSelections).getD [] := by
        rw [FieldUse.nested?_stored]
        cases hbeneath : field.nested? with
        | none => rfl
        | some nested => exact ihFields field hfield nested hbeneath
      show field.stored.selection = _
      rw [StoredField.selection, hnested, FieldUse.name_stored, FieldUse.arguments_stored]
    · refine List.map_congr_left fun part hpart => ?_
      show Selection.inline (some part.1) [] part.2.stored.toSelections = _
      rw [ihParts part hpart]

/-! ## What is built in maps -/

/-- Reading builds usages with the operations alone. -/
theorem Schema.keptByReading_stored (schema : Schema) :
    schema.KeptByReading fun _ observed => observed.usage.stored.Built ∧
      ∀ entry ∈ observed.seen, entry.2.stored.Built := by
  have hfield : ∀ {field : StoredField} (arguments : Arguments), field.Built →
      (StoredUsage.empty.addField (field.withArguments arguments)).Built :=
    fun arguments h => .addField .empty (.withArguments arguments h)
  have hseen : ∀ {observed : Observed} (typeName : String),
      (observed.usage.stored.Built ∧ ∀ entry ∈ observed.seen, entry.2.stored.Built) →
        ∀ entry ∈ observed.seen ++ [(typeName, observed.usage)], entry.2.stored.Built :=
    fun _ hinner => List.forall_mem_append.2 ⟨hinner.2, List.forall_mem_singleton.2 hinner.1⟩
  have hempty : Usage.empty.stored.Built := Usage.stored_empty ▸ .empty
  refine .of_steps ?_ ?_ ?_ ?_ ?_ ?_ ?_
  · exact fun _ => ⟨hempty, by simp [Observed.nothing]⟩
  · intro _ name _ arguments _
    refine ⟨?_, by simp⟩
    rw [Usage.stored_ofField, FieldUse.stored_withArguments, FieldUse.stored_leaf]
    exact hfield arguments (.leaf name)
  · exact fun _ hinner => ⟨hempty, hinner.2⟩
  · intro _ name _ _ arguments _ hinner
    refine ⟨?_, hseen _ hinner⟩
    rw [Usage.stored_ofField, FieldUse.stored_withArguments, FieldUse.stored_nested]
    exact hfield arguments (.nested name hinner.1)
  · exact fun _ hinner => ⟨hinner.1, hseen _ hinner⟩
  · intro condition _ _ _ hinner
    refine ⟨?_, hseen _ hinner⟩
    rw [Usage.stored_ofPart]
    exact .addPart condition .empty hinner.1
  · intro _ first second hfirst hsecond
    refine ⟨?_, List.forall_mem_append.2 ⟨hfirst.2, hsecond.2⟩⟩
    show (first.usage.merge second.usage).stored.Built
    rw [Usage.stored_merge]
    exact .merge hfirst.1 hsecond.1

mutual

/-- What the operations build is built in maps by the same operations. -/
theorem FieldUse.Built.stored : ∀ {field : FieldUse}, field.Built → field.stored.Built
  | _, .leaf name => by rw [FieldUse.stored_leaf]; exact .leaf name
  | _, .nested name husage => by rw [FieldUse.stored_nested]; exact .nested name husage.stored
  | _, .withArguments arguments hfield => by
    rw [FieldUse.stored_withArguments]; exact .withArguments arguments hfield.stored
  | _, .merge hold hnew => by rw [FieldUse.stored_merge]; exact .merge hold.stored hnew.stored
  | _, @FieldUse.Built.known usage field husage hmem => by
    have hentry : field.entry ∈ usage.stored.fields := by
      rw [Usage.fields_stored]; exact List.mem_map_of_mem hmem
    exact .known husage.stored hentry

/-- So it is with usages. -/
theorem Usage.Built.stored : ∀ {usage : Usage}, usage.Built → usage.stored.Built
  | _, .empty => by rw [Usage.stored_empty]; exact .empty
  | _, .addField husage hfield => by
    rw [Usage.stored_addField]; exact .addField husage.stored hfield.stored
  | _, .addPart typeName husage hpart => by
    rw [Usage.stored_addPart]; exact .addPart typeName husage.stored hpart.stored
  | _, .merge hold hnew => by rw [Usage.stored_merge]; exact .merge hold.stored hnew.stored
  | _, .unconditional husage => by
    rw [Usage.stored_unconditional]; exact .unconditional husage.stored
  | _, @Usage.Built.beneath field nested hfield hnested => by
    have hstored : field.stored.nested? = some nested.stored := by
      rw [FieldUse.nested?_stored, hnested]; rfl
    exact .beneath hfield.stored hstored
  | _, @Usage.Built.part usage part husage hmem => by
    have hpart : Usage.storedPart part ∈ usage.stored.parts := by
      rw [Usage.parts_stored]; exact List.mem_map_of_mem hmem
    exact .part husage.stored hpart
  | _, .entry htable hmem => htable.stored _ hmem

/-- And with those in tables. -/
theorem UsageTable.Built.stored :
    ∀ {table : UsageTable}, table.Built → ∀ entry ∈ table.entries, entry.2.stored.Built
  | _, .empty => by simp [UsageTable.empty]
  | _, @UsageTable.Built.merge table usage typeName htable husage =>
    @UsageTable.forall_mem_mergeEntries (fun _ usage => usage.stored.Built)
      (fun hold hnew => by rw [Usage.stored_merge]; exact .merge hold hnew) table htable.stored
      [(typeName, usage)] (List.forall_mem_singleton.2 husage.stored)
  | _, .mergeAll htable hother =>
    @UsageTable.forall_mem_mergeEntries (fun _ usage => usage.stored.Built)
      (fun hold hnew => by rw [Usage.stored_merge]; exact .merge hold hnew) _ htable.stored _
      hother.stored
  | _, .shown document schema =>
    @UsageTable.forall_mem_usages (fun _ usage => usage.stored.Built)
      (fun hold hnew => by rw [Usage.stored_merge]; exact .merge hold hnew) document schema
      fun typeName selections =>
        ((Schema.keptByReading_stored schema).observe document typeName selections).2

end

mutual

/-- What is built in maps is what is built without keys, as it is kept. -/
theorem StoredField.Built.exists_stored :
    ∀ {kept : StoredField}, kept.Built → ∃ field : FieldUse, field.Built ∧ field.stored = kept
  | _, .leaf name => ⟨.leaf name, .leaf name, FieldUse.stored_leaf name⟩
  | _, .nested name hkept => by
    obtain ⟨usage, husage, rfl⟩ := hkept.exists_stored
    exact ⟨.nested name usage, .nested name husage, FieldUse.stored_nested name usage⟩
  | _, .withArguments arguments hkept => by
    obtain ⟨field, hfield, rfl⟩ := hkept.exists_stored
    exact ⟨_, .withArguments arguments hfield, field.stored_withArguments arguments⟩
  | _, .merge hkept hadded => by
    obtain ⟨old, hold, rfl⟩ := hkept.exists_stored
    obtain ⟨new, hnew, rfl⟩ := hadded.exists_stored
    exact ⟨old.merge new, .merge hold hnew, old.stored_merge new⟩
  | _, .known hkept hmem => by
    obtain ⟨usage, husage, rfl⟩ := hkept.exists_stored
    rw [Usage.fields_stored] at hmem
    obtain ⟨field, hfield, rfl⟩ := List.mem_map.1 hmem
    exact ⟨field, .known husage hfield, rfl⟩

/-- So it is with usages. -/
theorem StoredUsage.Built.exists_stored :
    ∀ {kept : StoredUsage}, kept.Built → ∃ usage : Usage, usage.Built ∧ usage.stored = kept
  | _, .empty => ⟨.empty, .empty, Usage.stored_empty⟩
  | _, .addField hkept hadded => by
    obtain ⟨usage, husage, rfl⟩ := hkept.exists_stored
    obtain ⟨field, hfield, rfl⟩ := hadded.exists_stored
    exact ⟨usage.addField field, .addField husage hfield, usage.stored_addField field⟩
  | _, .addPart typeName hkept hadded => by
    obtain ⟨usage, husage, rfl⟩ := hkept.exists_stored
    obtain ⟨part, hpart, rfl⟩ := hadded.exists_stored
    exact ⟨usage.addPart typeName part, .addPart typeName husage hpart,
      usage.stored_addPart typeName part⟩
  | _, .merge hkept hadded => by
    obtain ⟨old, hold, rfl⟩ := hkept.exists_stored
    obtain ⟨new, hnew, rfl⟩ := hadded.exists_stored
    exact ⟨old.merge new, .merge hold hnew, old.stored_merge new⟩
  | _, .unconditional hkept => by
    obtain ⟨usage, husage, rfl⟩ := hkept.exists_stored
    exact ⟨usage.unconditional, .unconditional husage, usage.stored_unconditional⟩
  | _, .beneath hkept hnested => by
    obtain ⟨field, hfield, rfl⟩ := hkept.exists_stored
    rw [FieldUse.nested?_stored] at hnested
    obtain ⟨nested, hbeneath, rfl⟩ := Option.map_eq_some_iff.1 hnested
    exact ⟨nested, .beneath hfield hbeneath, rfl⟩
  | _, .part hkept hmem => by
    obtain ⟨usage, husage, rfl⟩ := hkept.exists_stored
    rw [Usage.parts_stored] at hmem
    obtain ⟨part, hpart, rfl⟩ := List.mem_map.1 hmem
    exact ⟨part.2, .part husage hpart, rfl⟩

end

/-- **Nothing else is built in maps** than what the operations build without keys. -/
theorem StoredUsage.built_iff {kept : StoredUsage} :
    kept.Built ↔ ∃ usage : Usage, usage.Built ∧ usage.stored = kept := by
  constructor
  · exact fun h => h.exists_stored
  · rintro ⟨usage, husage, rfl⟩
    exact husage.stored

/-! ## What holds at every depth -/

/-- The name of the field that the selection selects, if it is one. -/
def Selection.fieldName? : Selection → Option String
  | .field _ name _ _ _ => some name
  | .inline _ _ _ | .spread _ _ => none

namespace StoredUsage

/-- Each field stands under its own name, no key stands twice, and no argument has a variable in it,
however deep. So a key leads to the field or part that stands beside it, the fields that are written have
the names that stand in the map, in their order, and each of them is the one that its name leads to. -/
structure Orderly (usage : StoredUsage) : Prop where
  own : ∀ entry ∈ usage.fields, entry.2.name = entry.1
  fieldKeys : (usage.fields.map Prod.fst).Nodup
  partKeys : (usage.parts.map Prod.fst).Nodup
  literal : ∀ entry ∈ usage.fields, ∀ argument ∈ entry.2.arguments, argument.2.variableNames = []
  found : ∀ key field, usage.field? key = some field ↔ (key, field) ∈ usage.fields
  foundPart : ∀ typeName part, usage.part? typeName = some part ↔ (typeName, part) ∈ usage.parts
  names : usage.toSelections.filterMap Selection.fieldName? = usage.fields.map Prod.fst
  written : ∀ selection ∈ usage.toSelections, ∀ name, selection.fieldName? = some name →
    (usage.field? name).map StoredField.selection = some selection

/-- The usage has the property, and so have all usages beneath its fields and in its parts. -/
inductive Everywhere (Local : StoredUsage → Prop) : StoredUsage → Prop
  | intro {usage} :
    Local usage →
    (∀ entry ∈ usage.fields, ∀ nested, entry.2.nested? = some nested → Everywhere Local nested) →
    (∀ part ∈ usage.parts, Everywhere Local part.2) → Everywhere Local usage

/-- What follows once each field stands under its own name. -/
theorem orderly_of_own {usage : StoredUsage} (own : ∀ entry ∈ usage.fields, entry.2.name = entry.1)
    (fieldKeys : (usage.fields.map Prod.fst).Nodup) (partKeys : (usage.parts.map Prod.fst).Nodup)
    (literal : ∀ entry ∈ usage.fields, ∀ argument ∈ entry.2.arguments, argument.2.variableNames = []) :
    usage.Orderly := by
  have found : ∀ key field, usage.field? key = some field ↔ (key, field) ∈ usage.fields :=
    fun _ _ => Keyed.lookup_eq_some_iff fieldKeys
  refine ⟨own, fieldKeys, partKeys, literal, found, fun _ _ => Keyed.lookup_eq_some_iff partKeys,
    ?_, ?_⟩
  · have hparts : (usage.parts.map fun part => Selection.inline (some part.1) []
        part.2.toSelections).filterMap Selection.fieldName? = [] := by
      simp [Selection.fieldName?]
    have hfields : (usage.fields.map fun entry => entry.2.selection).filterMap
        Selection.fieldName? = usage.fields.map Prod.fst := by
      rw [List.filterMap_map, ← List.filterMap_eq_map]
      refine List.filterMap_congr fun entry hentry => ?_
      exact congrArg some (own entry hentry)
    rw [toSelections_eq, List.filterMap_append, hfields, hparts, List.append_nil]
  · intro selection hselection name hname
    rw [toSelections_eq] at hselection
    rcases List.mem_append.1 hselection with hfield | hpart
    · obtain ⟨entry, hentry, rfl⟩ := List.mem_map.1 hfield
      have hkey : name = entry.1 := (Option.some.inj hname).symm.trans (own entry hentry)
      rw [hkey, (found entry.1 entry.2).2 hentry]; rfl
    · obtain ⟨part, -, rfl⟩ := List.mem_map.1 hpart
      cases hname

end StoredUsage

/-- **Usages with distinct names and without variables** are orderly at every depth, as they are kept in
maps. -/
theorem Usage.orderly_stored {usage : Usage} (hdistinct : usage.Distinct)
    (hfree : usage.VariableFree) : usage.stored.Everywhere StoredUsage.Orderly := by
  induction usage using Usage.induction with
  | step usage ihFields ihParts =>
    -- keys are the names and types that stand in the usage, so they are as distinct as these
    obtain ⟨⟨hfieldNames, hpartNames⟩, hfields, hparts⟩ := everywhere_iff.1 hdistinct
    obtain ⟨hliteral, hfreeFields, hfreeParts⟩ := everywhere_iff.1 hfree
    refine .intro (StoredUsage.orderly_of_own ?_ ?_ ?_ ?_) ?_ ?_
    · rw [fields_stored]
      refine List.forall_mem_map.2 fun field _ => ?_
      exact field.name_stored
    · rw [fields_stored, List.map_map]; exact hfieldNames
    · rw [parts_stored, List.map_map]; exact hpartNames
    · rw [fields_stored]
      refine List.forall_mem_map.2 fun field hfield => ?_
      have hnone := Arguments.variableNames_eq_nil (hliteral field hfield)
      show ∀ argument ∈ field.stored.arguments, _
      rw [FieldUse.arguments_stored]
      exact List.flatMap_eq_nil_iff.1 hnone
    · rw [fields_stored]
      refine List.forall_mem_map.2 fun field hfield nested hnested => ?_
      have hstored : field.stored.nested? = some nested := hnested
      rw [FieldUse.nested?_stored] at hstored
      obtain ⟨beneath, hbeneath, rfl⟩ := Option.map_eq_some_iff.1 hstored
      exact ihFields field hfield beneath hbeneath (hfields field hfield beneath hbeneath)
        (hfreeFields field hfield beneath hbeneath)
    · rw [parts_stored]
      refine List.forall_mem_map.2 fun part hpart => ?_
      exact ihParts part hpart (hparts part hpart) (hfreeParts part hpart)

end SelectionRecall
