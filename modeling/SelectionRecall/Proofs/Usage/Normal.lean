import SelectionRecall.Proofs.Document.Nodes
import SelectionRecall.Proofs.Usage.Built
import SelectionRecall.Proofs.Usage.Nesting

/-!
# Reading back what is written

A usage can be written as selections, and selections are read as a usage. Reading skips what is unknown
or empty, and takes a fragment on the type itself, or on an interface that it implements, into the usage
around it. A usage is normal for a type if there is nothing of this kind in it. What is written for a
normal usage is read as just that usage: each selection is read as the one field or part that it was
written for, and these are united in their order.

* `Keyed.unite_nil_left`: a list with distinct keys is what its entries are united to.
* `Usage.NormalAt`, `Usage.Normal`: normal usages.
* `Usage.usage_observeSelections_toSelections`: selections that are read one by one as what they were
  written for.
* `Usage.Normal.usage_observe`, `Usage.usage_observe_of_normal`: reading undoes writing.
* `Usage.usage_observe_of_normal_album`: a usage that is read back.
-/

namespace SelectionRecall

namespace Keyed

variable {α : Type} {keyOf : α → String} {join : α → α → α}

/-- An entry with a new key comes last. -/
theorem add_of_not_mem {known : List α} {entry : α} (h : keyOf entry ∉ known.map keyOf) :
    add keyOf join known entry = known ++ [entry] := by
  induction known with
  | nil => rfl
  | cons head rest ih =>
    obtain ⟨hhead, hrest⟩ := not_or.1 (mt List.mem_cons.2 h)
    rw [add_cons, if_neg (Ne.symm hhead), ih hrest, List.cons_append]

/-- Lists without a common or repeated key are united by putting one behind the other. -/
theorem unite_of_nodup {old new : List α} (h : ((old ++ new).map keyOf).Nodup) :
    unite keyOf join old new = old ++ new := by
  induction new generalizing old with
  | nil => rw [List.append_nil]; rfl
  | cons head rest ih =>
    have hfresh : keyOf head ∉ old.map keyOf := by
      intro hmem
      rw [List.map_append, List.nodup_append] at h
      exact h.2.2 _ hmem _ List.mem_cons_self rfl
    rw [List.append_cons] at h ⊢
    rw [unite_cons, add_of_not_mem hfresh, ih h]

/-- A list with distinct keys is what its entries are united to. -/
theorem unite_nil_left {new : List α} (h : (new.map keyOf).Nodup) : unite keyOf join [] new = new :=
  unite_of_nodup h

end Keyed

namespace Usage

/-- Nothing is added to a usage by uniting nothing with it. -/
theorem empty_merge {usage : Usage} (h : usage.Distinct) : Usage.empty.merge usage = usage := by
  obtain ⟨⟨hfields, hparts⟩, -⟩ := distinct_iff.1 h
  refine eq_of_parts ?_ ?_
  · rw [fields_merge, mergeFields_eq_unite]; exact Keyed.unite_nil_left hfields
  · rw [parts_merge, mergeParts_eq_unite]; exact Keyed.unite_nil_left hparts

/-- The selection that is written for a part. -/
def partSelection (part : String × Usage) : Selection :=
  .inline (some part.1) [] part.2.toSelections

end Usage

/-- The selection that is written for a field. -/
def FieldUse.toSelection (field : FieldUse) : Selection :=
  .field none field.name field.arguments [] ((field.nested?.map Usage.toSelections).getD [])

namespace Usage

/-- The selections of fields come before those of parts. -/
theorem toSelections_eq_append (usage : Usage) :
    usage.toSelections = usage.fields.map FieldUse.toSelection ++ usage.parts.map partSelection :=
  toSelections_eq usage

theorem isEmpty_toSelections (usage : Usage) : usage.toSelections.isEmpty = usage.isEmpty := by
  rw [toSelections_eq]
  unfold isEmpty
  cases usage.fields <;> cases usage.parts <;> rfl

/-- Fields that are added one after the other. -/
theorem foldl_merge_ofField (fields : List FieldUse) (before : Usage) :
    (fields.map ofField).foldl merge before = .mk (mergeFields before.fields fields) before.parts := by
  induction fields generalizing before with
  | nil => rw [mergeFields]; cases before; rfl
  | cons field rest ih =>
    have hadded := fields_addField before field
    have hkept := parts_addField before field
    unfold addField at hadded hkept
    rw [List.map_cons, List.foldl_cons, ih, hadded, hkept, mergeFields]

/-- Parts that are added one after the other. -/
theorem foldl_merge_ofPart (parts : List (String × Usage)) (before : Usage) :
    (parts.map fun part => ofPart part.1 part.2).foldl merge before =
      .mk before.fields (mergeParts before.parts parts) := by
  induction parts generalizing before with
  | nil => rw [mergeParts]; cases before; rfl
  | cons part rest ih =>
    have hadded := parts_addPart before part.1 part.2
    have hkept := fields_addPart before part.1 part.2
    unfold addPart at hadded hkept
    rw [List.map_cons, List.foldl_cons, ih, hadded, hkept, mergeParts]

/-! ## Normal usages -/

/-- **A usage holds what reading would put there**: fields that the type has, nothing empty, and only
parts on types of the schema that do not belong to the type itself. -/
structure NormalAt (schema : Schema) (typeName : String) (usage : Usage) : Prop where
  known : ∀ field ∈ usage.fields, (schema.fieldType? typeName field.name).isSome = true
  nested : ∀ field ∈ usage.fields, ∀ nested, field.nested? = some nested → nested.isEmpty = false
  typed : ∀ part ∈ usage.parts, schema.hasType part.1 = true
  other : ∀ part ∈ usage.parts, ¬ schema.MayBe part.1 typeName
  parts : ∀ part ∈ usage.parts, part.2.isEmpty = false

/-- The usage is normal for the type at every depth. -/
def Normal (schema : Schema) (typeName : String) (usage : Usage) : Prop :=
  usage.Throughout schema (NormalAt schema) typeName

end Usage

variable {schema : Schema} {typeName : String}

/-- A use of a field is built from its parts, if its arguments mention no variable. -/
theorem FieldUse.withArguments_arguments {field : FieldUse}
    (h : field.arguments.mentionVariable = false) :
    (FieldUse.mk field.name [] field.nested?).withArguments field.arguments = field := by
  unfold withArguments
  rw [h]
  cases field; rfl

namespace Usage

variable {usage : Usage}

theorem normal_iff :
    usage.Normal schema typeName ↔
      usage.NormalAt schema typeName ∧
        (∀ field ∈ usage.fields, ∀ returned nested,
          schema.fieldType? typeName field.name = some returned → field.nested? = some nested →
          nested.Normal schema returned) ∧
        ∀ part ∈ usage.parts, part.2.Normal schema part.1 :=
  throughout_iff

/-- Selections each of which is read as what it was written for are united with what was read before. -/
theorem usage_observeSelections_toSelections (spread : SpreadReader) (before : Usage)
    (hfields : ∀ field ∈ usage.fields,
      (schema.observeSelection spread typeName field.toSelection).usage = .ofField field)
    (hparts : ∀ part ∈ usage.parts,
      (schema.observeSelection spread typeName (partSelection part)).usage = .ofPart part.1 part.2) :
    (schema.observeSelections spread typeName before usage.toSelections).usage = before.merge usage := by
  have hread := List.map_congr_left hfields
  have hreadParts := List.map_congr_left hparts
  rw [Schema.usage_observeSelections, toSelections_eq_append, List.map_append, List.map_map,
    List.map_map, List.foldl_append]
  refine (congrArg₂ (List.foldl merge) (congrArg _ hread) hreadParts).trans ?_
  rw [foldl_merge_ofField, foldl_merge_ofPart]
  exact eq_of_parts (fields_merge before usage).symm (parts_merge before usage).symm

/-- **What is written for a normal usage** is united with what was read before, however spreads are
read. -/
theorem Normal.usage_observeSelections (h : usage.Normal schema typeName) (hdistinct : usage.Distinct)
    (hfree : usage.VariableFree) (spread : SpreadReader) (before : Usage) :
    (schema.observeSelections spread typeName before usage.toSelections).usage = before.merge usage := by
  induction usage using Usage.induction generalizing typeName before with
  | step usage ihFields ihParts =>
    obtain ⟨hlocal, hnormalFields, hnormalParts⟩ := normal_iff.1 h
    obtain ⟨-, hdistinctFields, hdistinctParts⟩ := distinct_iff.1 hdistinct
    obtain ⟨harguments, hfreeFields, hfreeParts⟩ := everywhere_iff.1 hfree
    refine usage_observeSelections_toSelections spread before ?_ ?_
    · intro field hfield
      have hown := FieldUse.withArguments_arguments (harguments field hfield)
      obtain ⟨returned, hreturned⟩ := Option.isSome_iff_exists.1 (hlocal.known field hfield)
      rw [FieldUse.toSelection, Schema.observeSelection, hreturned]
      dsimp only
      cases hnested : field.nested? with
      | none =>
        rw [hnested] at hown
        exact congrArg ofField hown
      | some nested =>
        -- what is beneath the field is read as it is, and it is not empty
        have hinner := ihFields field hfield nested hnested
          (hnormalFields field hfield returned nested hreturned hnested)
          (hdistinctFields field hfield nested hnested) (hfreeFields field hfield nested hnested) .empty
        rw [empty_merge (hdistinctFields field hfield nested hnested)] at hinner
        have hleft := hlocal.nested field hfield nested hnested
        rw [Option.map_some, Option.getD_some, isEmpty_toSelections, hleft, if_neg Bool.false_ne_true]
        unfold Observed.field
        rw [hinner, hleft, if_neg Bool.false_ne_true]
        rw [hnested] at hown
        exact congrArg ofField hown
    · intro part hpart
      have hinner := ihParts part hpart (hnormalParts part hpart) (hdistinctParts part hpart)
        (hfreeParts part hpart) .empty
      rw [empty_merge (hdistinctParts part hpart)] at hinner
      obtain ⟨hother, hnotListed⟩ := not_or.1 (hlocal.other part hpart)
      rw [partSelection, Schema.observeSelection, Option.getD_some, if_pos (hlocal.typed part hpart)]
      unfold Observed.fragment
      rw [hinner, hlocal.parts part hpart, if_neg Bool.false_ne_true, if_neg (Ne.symm hother),
        if_neg hnotListed]

/-- **Reading undoes writing**: what is written for a normal usage is read as this usage, whatever
fragments the document has. -/
theorem Normal.usage_observe (h : usage.Normal schema typeName) (hdistinct : usage.Distinct)
    (hfree : usage.VariableFree) (document : Document) :
    (schema.observe document typeName usage.toSelections).usage = usage :=
  (h.usage_observeSelections hdistinct hfree _ .empty).trans (empty_merge hdistinct)

/-- **So it is with all that the operations build**: names are distinct in it, and no argument mentions
a variable. -/
theorem usage_observe_of_normal (husage : usage.Built) (h : usage.Normal schema typeName)
    (document : Document) : (schema.observe document typeName usage.toSelections).usage = usage :=
  h.usage_observe husage.distinct husage.variableFree document

/-- Items are pages or photos. -/
def albumSchema : Schema :=
  ⟨"Query", none, none,
    [⟨"Query", .object, [("item", "Node")], []⟩, ⟨"Node", .interface, [("id", "ID")], ["Page", "Photo"]⟩,
      ⟨"Page", .object, [("id", "ID")], []⟩, ⟨"Photo", .object, [("id", "ID"), ("url", "String")], []⟩,
      ⟨"ID", .scalar, [], []⟩, ⟨"String", .scalar, [], []⟩]⟩

/-- The third item, with its address if it is a photo. -/
def albumUsage : Usage :=
  .ofField (.mk "item" [("index", .int 3)]
    (some ((ofField (.leaf "id")).addPart "Photo" (.ofField (.leaf "url")))))

/-- A single known field is normal if what is beneath it is, and is not empty. -/
theorem normal_ofField {field : FieldUse} {returned : String}
    (hreturned : schema.fieldType? typeName field.name = some returned)
    (hnested : ∀ nested, field.nested? = some nested →
      nested.isEmpty = false ∧ nested.Normal schema returned) :
    (ofField field).Normal schema typeName := by
  refine throughout_ofField_iff.2 ⟨⟨?_, ?_, by simp, by simp, by simp⟩, ?_⟩
  · intro only hmem
    rw [List.mem_singleton.1 hmem, hreturned]; rfl
  · intro only hmem nested hsome
    rw [List.mem_singleton.1 hmem] at hsome
    exact (hnested nested hsome).1
  · intro other nested hother hsome
    rw [hreturned, Option.some.injEq] at hother
    exact hother ▸ (hnested nested hsome).2

/-- The part on photos inside the interface is normal. -/
theorem normal_photoNode :
    ((ofField (.leaf "id")).addPart "Photo" (.ofField (.leaf "url"))).Normal albumSchema "Node" := by
  have hparts : ((ofField (.leaf "id")).addPart "Photo" (.ofField (.leaf "url"))).parts =
      [("Photo", .ofField (.leaf "url"))] := parts_addPart _ _ _
  have hurl : albumSchema.fieldType? "Photo" "url" = some "String" := by decide
  have hid : albumSchema.fieldType? "Node" "id" = some "ID" := by decide
  have hknown : albumSchema.hasType "Photo" = true := by decide
  have hnarrower : ¬ albumSchema.MayBe "Photo" "Node" := by decide
  have hphoto : (Usage.ofField (.leaf "url")).Normal albumSchema "Photo" :=
    normal_ofField hurl (by simp [FieldUse.leaf, FieldUse.nested?])
  refine normal_iff.2 ⟨⟨?_, ?_, ?_, ?_, ?_⟩, ?_, ?_⟩
  · simp [FieldUse.leaf, FieldUse.name, hid]
  · simp [FieldUse.leaf, FieldUse.nested?]
  · simpa [hparts] using hknown
  · simpa [hparts] using hnarrower
  · simp [hparts]
  · simp [FieldUse.leaf, FieldUse.nested?]
  · simpa [hparts] using hphoto

/-- **A usage that is read back**: with an argument, and with a part inside an interface. -/
theorem usage_observe_of_normal_album :
    albumUsage.Built ∧ albumUsage.Normal albumSchema "Query" ∧
      ∀ document, (albumSchema.observe document "Query" albumUsage.toSelections).usage = albumUsage := by
  have hnode : ((Usage.ofField (.leaf "id")).addPart "Photo" (.ofField (.leaf "url"))).Built :=
    .addPart "Photo" (.ofField (.leaf "id")) (.ofField (.leaf "url"))
  have hbuilt : albumUsage.Built :=
    .ofField (.withArguments [("index", .int 3)] (.nested "item" hnode))
  have hitem : albumSchema.fieldType? "Query" "item" = some "Node" := by decide
  have hnormal : albumUsage.Normal albumSchema "Query" := by
    refine normal_ofField hitem ?_
    intro nested hnested
    rw [← Option.some.inj hnested]
    exact ⟨by simp [isEmpty, parts_addPart], normal_photoNode⟩
  exact ⟨hbuilt, hnormal, usage_observe_of_normal hbuilt hnormal⟩

end Usage

end SelectionRecall
