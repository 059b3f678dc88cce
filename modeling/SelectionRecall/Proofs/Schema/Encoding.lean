import Mathlib.Data.List.Basic
import SelectionRecall.Schema.Decoding

/-!
# Introspection results are read as they are written

Each kind of record is written as an object that has all of its keys. What is missing is written as
null, which nothing else is written as. So each slot is read back on its own, and from its slots the
record. A reference is written with the references inside it, to any depth.

* `Introspection.ReadsBack`: a value that is read as it is written.
* `Introspection.mapM_some_of_readsBack`, `Introspection.ofSlot_optionToJson`: slots that may not be
  missing, and slots that may.
* `Reference.ofJson_eq`: a reference is read like any other record.
* `Introspection.ofJson_toJson`: introspection results are read as they are written.
-/

namespace SelectionRecall

namespace Introspection

/-- **What is written for a value is read as this value**, and is not null. -/
structure ReadsBack {α : Type} (decode : Json → Except ShapeError α) (encode : α → Json) (value : α) :
    Prop where
  decode_encode : decode (encode value) = .ok value
  ne_null : encode value ≠ .null

/-! ## Slots -/

section

variable {α : Type} {decode : Json → Except ShapeError α} {encode : α → Json}

/-- A slot that may not be missing is read as it is written. -/
theorem mapM_some_of_readsBack {value : α} (h : ReadsBack decode encode value) :
    (some (encode value)).mapM decode = .ok (some value) := by
  rw [Option.mapM_some, h.decode_encode]
  rfl

/-- A slot that may be missing is read as it is written. -/
theorem ofSlot_optionToJson (value? : Option α) (h : ∀ value ∈ value?, ReadsBack decode encode value) :
    Json.ofSlot decode (some (optionToJson encode value?)) = .ok value? := by
  cases value? with
  | none => rfl
  | some value =>
    obtain ⟨hdecode, hne⟩ := h value rfl
    rw [optionToJson, Json.ofSlot, Json.asOption, hdecode]
    · rfl
    · exact hne

theorem readsBack_list (h : ∀ value, ReadsBack decode encode value) (values : List α) :
    ReadsBack (listOfJson decode) (listToJson encode) values := by
  refine ⟨?_, nofun⟩
  change (values.map encode).mapM decode = .ok values
  induction values with
  | nil => rfl
  | cons value rest ih =>
    rw [List.map_cons, List.mapM_cons, (h value).decode_encode, ih]
    rfl

end

theorem readsBack_string (text : String) : ReadsBack Json.asString .string text := ⟨rfl, nofun⟩

/-- Each kind has a label of its own. -/
theorem readsBack_label (kind : TypeKind) :
    ReadsBack TypeKind.ofJson (fun kind => .string kind.label) kind := by
  cases kind <;> exact ⟨rfl, nofun⟩

/-! ## Records -/

theorem readsBack_root (name : String) : ReadsBack rootOfJson rootToJson name := ⟨rfl, nofun⟩

namespace Reference

/-- **A reference is read like any other record**: what it wraps is a slot that may be missing. -/
theorem ofJson_eq (json : Json) : Reference.ofJson json = (do
    referenceRecord.check json
    let kind? ← (referenceRecord.slot? json "kind").mapM TypeKind.ofJson
    let name? ← Json.ofSlot Json.asString (referenceRecord.slot? json "name")
    let ofType? ← Json.ofSlot Reference.ofJson (referenceRecord.slot? json "ofType")
    let kind ← referenceRecord.require json "kind" kind?
    referenceRecord.checkLength json
    return .mk kind name? ofType?) := by
  rw [Reference.ofJson]
  refine bind_congr fun _ => bind_congr fun kind? => bind_congr fun name? => ?_
  split <;> rename_i hslot
  · rw [hslot]; rfl
  · rw [hslot]; rfl
  · rw [hslot, Json.ofSlot, Json.asOption]
    assumption

theorem toJson_mk (kind : TypeKind) (name? : Option String) (ofType? : Option Reference) :
    (Reference.mk kind name? ofType?).toJson =
      .object [("kind", .string kind.label), ("name", optionToJson .string name?),
        ("ofType", optionToJson toJson ofType?)] := by
  cases ofType? <;> rfl

theorem readsBack_mk (kind : TypeKind) (name? : Option String) {ofType? : Option Reference}
    (h : ∀ inner ∈ ofType?, ReadsBack Reference.ofJson toJson inner) :
    ReadsBack Reference.ofJson toJson (.mk kind name? ofType?) := by
  refine ⟨?_, by rw [toJson_mk]; nofun⟩
  have hkind := mapM_some_of_readsBack (readsBack_label kind)
  have hname := ofSlot_optionToJson name? fun name _ => readsBack_string name
  have hofType := ofSlot_optionToJson ofType? h
  rw [toJson_mk, ofJson_eq]
  change ((some (Json.string kind.label)).mapM TypeKind.ofJson >>= fun kind? =>
    Json.ofSlot Json.asString (some (optionToJson .string name?)) >>= fun name? =>
      Json.ofSlot Reference.ofJson (some (optionToJson toJson ofType?)) >>= _) = _
  rw [hkind, hname, hofType]
  rfl

/-- References are read as they are written, however many wrappers they have. -/
theorem readsBack : (reference : Reference) → ReadsBack Reference.ofJson toJson reference
  | .mk kind name? none => readsBack_mk kind name? nofun
  | .mk kind name? (some inner) =>
    readsBack_mk kind name? fun _ h => Option.mem_some.1 h ▸ readsBack inner

end Reference

theorem Field.readsBack (field : Field) : ReadsBack Field.ofJson toJson field := by
  refine ⟨?_, nofun⟩
  have hname : (fieldRecord.slot? field.toJson "name").mapM Json.asString = .ok (some field.name) :=
    mapM_some_of_readsBack (readsBack_string field.name)
  have htype : (fieldRecord.slot? field.toJson "type").mapM Reference.ofJson =
      .ok (some field.type) := mapM_some_of_readsBack field.type.readsBack
  rw [Field.ofJson, hname, htype]
  rfl

theorem TypeEntry.readsBack (entry : TypeEntry) : ReadsBack TypeEntry.ofJson toJson entry := by
  refine ⟨?_, nofun⟩
  have hkind : (typeRecord.slot? entry.toJson "kind").mapM TypeKind.ofJson = .ok (some entry.kind) :=
    mapM_some_of_readsBack (readsBack_label entry.kind)
  have hname : (typeRecord.slot? entry.toJson "name").mapM Json.asString = .ok (some entry.name) :=
    mapM_some_of_readsBack (readsBack_string entry.name)
  have hfields : Json.ofSlot (listOfJson Field.ofJson) (typeRecord.slot? entry.toJson "fields") =
      .ok entry.fields? := ofSlot_optionToJson _ fun fields _ => readsBack_list Field.readsBack fields
  have hreferences : ∀ references? : Option (List Reference),
      Json.ofSlot (listOfJson Reference.ofJson)
        (some (optionToJson (listToJson Reference.toJson) references?)) = .ok references? :=
    fun _ => ofSlot_optionToJson _ fun references _ => readsBack_list Reference.readsBack references
  have hinterfaces : Json.ofSlot (listOfJson Reference.ofJson)
      (typeRecord.slot? entry.toJson "interfaces") = .ok entry.interfaces? := hreferences _
  have hpossible : Json.ofSlot (listOfJson Reference.ofJson)
      (typeRecord.slot? entry.toJson "possibleTypes") = .ok entry.possibleTypes? := hreferences _
  rw [TypeEntry.ofJson, hkind, hname, hfields, hinterfaces, hpossible]
  rfl

/-- **Introspection results are read as they are written.** -/
theorem ofJson_toJson (introspection : Introspection) :
    ofJson introspection.toJson = .ok introspection := by
  have hroots : ∀ root? : Option String,
      Json.ofSlot rootOfJson (some (optionToJson rootToJson root?)) = .ok root? :=
    fun root? => ofSlot_optionToJson root? fun name _ => readsBack_root name
  have hquery : Json.ofSlot rootOfJson (record.slot? introspection.toJson "queryType") =
      .ok introspection.queryType? := hroots _
  have hmutation : Json.ofSlot rootOfJson (record.slot? introspection.toJson "mutationType") =
      .ok introspection.mutationType? := hroots _
  have hsubscription : Json.ofSlot rootOfJson
      (record.slot? introspection.toJson "subscriptionType") = .ok introspection.subscriptionType? :=
    hroots _
  have htypes : (record.slot? introspection.toJson "types").mapM (listOfJson TypeEntry.ofJson) =
      .ok (some introspection.types) :=
    mapM_some_of_readsBack (readsBack_list TypeEntry.readsBack introspection.types)
  rw [ofJson, hquery, hmutation, hsubscription, htypes]
  rfl

end Introspection

end SelectionRecall
