import Mathlib.Data.Option.Basic
import SelectionRecall.Proofs.Schema.Stored

/-!
# Introspection results in other words

What servers tell has more keys than are read here, and some servers leave a key out where others write
null. Neither makes a difference: two values that have the same under all keys that are read, where null
is as good as nothing if the key may be missing, are read alike at every depth. Both give the same result
or the same error, and the same schema from wherever they are stored.

* `Introspection.SameForm`, `Introspection.SameOptional`, `Introspection.RestatedRecord`,
  `Introspection.RestatedList`: records and lists in other words, told from their slots and items.
* `Introspection.Restated`: an introspection result in other words.
* `Introspection.ofJson_eq_of_restated`: it is read alike.
* `Introspection.ReadAlike`: two values that make no difference for what is read and built.
* `Introspection.readAlike_toJson_and_restated`: results are read as they are written, and alike in other
  words.
* `Introspection.readAlike_toJson_and_restated_library`: an answer with other keys.
-/

namespace SelectionRecall

namespace Introspection

/-! ## Records and lists in other words -/

/-- Two objects, or two arrays of one length. -/
inductive SameForm : Json → Json → Prop
  | objects {members others : List (String × Json)} : SameForm (.object members) (.object others)
  | arrays {items others : List Json} :
    items.length = others.length → SameForm (.array items) (.array others)

/-- Two slots that may be missing: both are missing or null, or both hold the same. -/
inductive SameOptional (Same : Json → Json → Prop) : Option Json → Option Json → Prop
  | missing {first second : Option Json} : (first = none ∨ first = some .null) →
    (second = none ∨ second = some .null) → SameOptional Same first second
  | present {first second : Json} : Same first second → SameOptional Same (some first) (some second)

/-- The same value, or two records of one form whose slots agree. -/
inductive RestatedRecord (Agree : Json → Json → Prop) : Json → Json → Prop
  | same (json : Json) : RestatedRecord Agree json json
  | record {json other : Json} : SameForm json other → Agree json other →
    RestatedRecord Agree json other

/-- The same value, or two arrays whose items are the same in other words. -/
inductive RestatedList (Same : Json → Json → Prop) : Json → Json → Prop
  | same (json : Json) : RestatedList Same json json
  | items {items others : List Json} : List.Forall₂ Same items others →
    RestatedList Same (.array items) (.array others)

/-- A reference in other words. -/
inductive Reference.Restated : Json → Json → Prop
  | same (json : Json) : Restated json json
  | record {json other : Json} : SameForm json other →
    referenceRecord.slot? json "kind" = referenceRecord.slot? other "kind" →
    SameOptional Eq (referenceRecord.slot? json "name") (referenceRecord.slot? other "name") →
    SameOptional Restated (referenceRecord.slot? json "ofType")
      (referenceRecord.slot? other "ofType") → Restated json other

/-- A field in other words. -/
def Field.Restated : Json → Json → Prop :=
  RestatedRecord fun json other =>
    fieldRecord.slot? json "name" = fieldRecord.slot? other "name" ∧
    Option.Rel Reference.Restated (fieldRecord.slot? json "type") (fieldRecord.slot? other "type")

/-- A type in other words. -/
def TypeEntry.Restated : Json → Json → Prop :=
  RestatedRecord fun json other =>
    typeRecord.slot? json "kind" = typeRecord.slot? other "kind" ∧
    typeRecord.slot? json "name" = typeRecord.slot? other "name" ∧
    SameOptional (RestatedList Field.Restated) (typeRecord.slot? json "fields")
      (typeRecord.slot? other "fields") ∧
    SameOptional (RestatedList Reference.Restated) (typeRecord.slot? json "interfaces")
      (typeRecord.slot? other "interfaces") ∧
    SameOptional (RestatedList Reference.Restated) (typeRecord.slot? json "possibleTypes")
      (typeRecord.slot? other "possibleTypes")

/-- The name of a root type in other words. -/
def RestatedRoot : Json → Json → Prop :=
  RestatedRecord fun json other => rootRecord.slot? json "name" = rootRecord.slot? other "name"

/-- **An introspection result in other words**: other keys that are not read, and keys left out where the
other one has null, in the result itself and in each of its records. -/
def Restated : Json → Json → Prop :=
  RestatedRecord fun json other =>
    (∀ key ∈ ["queryType", "mutationType", "subscriptionType"],
      SameOptional RestatedRoot (record.slot? json key) (record.slot? other key)) ∧
    Option.Rel (RestatedList TypeEntry.Restated) (record.slot? json "types")
      (record.slot? other "types")

/-! ## What is read of them -/

namespace SameForm

variable {json other : Json}

theorem check_eq (h : SameForm json other) (record : RecordShape) :
    record.check json = record.check other := by
  cases h <;> rfl

theorem checkLength_eq (h : SameForm json other) (record : RecordShape) :
    record.checkLength json = record.checkLength other := by
  cases h with
  | objects => rfl
  | arrays hlength => rw [RecordShape.checkLength, RecordShape.checkLength, hlength]

theorem require_eq {α : Type} (h : SameForm json other) (record : RecordShape) (key : String)
    (value? : Option α) : record.require json key value? = record.require other key value? := by
  cases value? with
  | some value => rfl
  | none => cases h <;> rfl

theorem isArray_eq (h : SameForm json other) : isArray json = isArray other := by
  cases h <;> rfl

theorem ne_null (h : SameForm json other) : json ≠ .null ∧ other ≠ .null := by
  cases h <;> exact ⟨nofun, nofun⟩

/-- Arrays of one length have the same slots. -/
theorem isSome_slot?_eq (h : SameForm json other) (harray : isArray json = true)
    (record : RecordShape) (key : String) :
    (record.slot? json key).isSome = (record.slot? other key).isSome := by
  cases h with
  | objects => cases harray
  | arrays hlength => rw [Bool.eq_iff_iff]; simp [RecordShape.slot?, hlength]

end SameForm

/-- Where only the presence of a value is asked for, the value does not matter. -/
theorem require_bind_eq {α β : Type} {record : RecordShape} {json : Json} {key : String}
    {first second : Option α} (h : first.isSome = second.isSome) (next : Except ShapeError β) :
    (record.require json key first >>= fun _ => next) =
      record.require json key second >>= fun _ => next := by
  cases first with
  | none => cases second with
    | none => rfl
    | some => cases h
  | some => cases second with
    | none => cases h
    | some => rfl

section

variable {α : Type} {Same Agree : Json → Json → Prop} {decode : Json → Except ShapeError α}

/-- Null is null in other words, and nothing else is. -/
def KeepsNull (Same : Json → Json → Prop) : Prop :=
  ∀ {first second : Json}, Same first second → (first = .null ↔ second = .null)

/-- So it is if nothing but objects and arrays differs, which are not null. -/
theorem keepsNull_of_sameForm
    (h : ∀ {first second}, Same first second → first = second ∨ SameForm first second) :
    KeepsNull Same := by
  intro first second hsame
  rcases h hsame with rfl | hform
  · rfl
  · simp [hform.ne_null]

theorem keepsNull_eq : KeepsNull Eq := keepsNull_of_sameForm .inl

theorem RestatedRecord.keepsNull : KeepsNull (RestatedRecord Agree) :=
  keepsNull_of_sameForm fun
    | .same _ => .inl rfl
    | .record hform _ => .inr hform

theorem RestatedList.keepsNull : KeepsNull (RestatedList Same) :=
  keepsNull_of_sameForm fun
    | .same _ => .inl rfl
    | .items hitems => .inr (.arrays hitems.length_eq)

theorem Reference.Restated.keepsNull : KeepsNull Reference.Restated :=
  keepsNull_of_sameForm fun
    | .same _ => .inl rfl
    | .record hform _ _ _ => .inr hform

/-- Slots that may not be missing are read alike. -/
theorem mapM_eq_of_rel {first second : Option Json} (h : Option.Rel Same first second)
    (hsame : ∀ a b, Same a b → decode a = decode b) : first.mapM decode = second.mapM decode := by
  cases h with
  | some hvalues => rw [Option.mapM_some, Option.mapM_some, hsame _ _ hvalues]
  | none => rfl

/-- Slots that may be missing are read alike. -/
theorem ofSlot_eq_of_sameOptional {first second : Option Json} (h : SameOptional Same first second)
    (hnull : KeepsNull Same) (hsame : ∀ a b, first = some a → Same a b → decode a = decode b) :
    Json.ofSlot decode first = Json.ofSlot decode second := by
  cases h with
  | missing hfirst hsecond => rcases hfirst with rfl | rfl <;> rcases hsecond with rfl | rfl <;> rfl
  | @present first second hvalues =>
    have heq := hsame _ _ rfl hvalues
    by_cases hfirst : first = .null
    · rw [hfirst, (hnull hvalues).1 hfirst]
    · rw [Json.ofSlot, Json.ofSlot, Json.asOption, Json.asOption, heq]
      · exact mt (hnull hvalues).2 hfirst
      · exact hfirst

theorem listOfJson_eq_of_restatedList {json other : Json} (h : RestatedList Same json other)
    (hsame : ∀ a b, Same a b → decode a = decode b) :
    listOfJson decode json = listOfJson decode other := by
  cases h with
  | same => rfl
  | @items items others hitems =>
    change items.mapM decode = others.mapM decode
    induction hitems with
    | nil => rfl
    | cons hfirst _ ih => rw [List.mapM_cons, List.mapM_cons, hsame _ _ hfirst, ih]

end

variable {json other : Json}

/-- References are read alike at every depth. -/
theorem Reference.ofJson_eq_of_restated : (json other : Json) → Reference.Restated json other →
    Reference.ofJson json = Reference.ofJson other
  | _, _, .same _ => rfl
  | json, other, .record hform hkind hname hofType => by
    -- what is wrapped stands in a slot, so that it is smaller
    have hnames := ofSlot_eq_of_sameOptional hname keepsNull_eq fun _ _ _ h => congrArg Json.asString h
    have hinner := ofSlot_eq_of_sameOptional hofType Restated.keepsNull
      fun inner other hslot h => Reference.ofJson_eq_of_restated inner other h
    rw [Reference.ofJson_eq, Reference.ofJson_eq other, hform.check_eq, hkind, hnames, hinner]
    simp only [hform.require_eq, hform.checkLength_eq]
  termination_by json => sizeOf json
  decreasing_by exact Json.sizeOf_slot? hslot

theorem rootOfJson_eq_of_restated (h : RestatedRoot json other) :
    rootOfJson json = rootOfJson other := by
  cases h with
  | same => rfl
  | record hform hname =>
    unfold rootOfJson
    rw [hform.check_eq, hname]
    simp only [hform.require_eq, hform.checkLength_eq]

theorem Field.ofJson_eq_of_restated (json other : Json) (h : Field.Restated json other) :
    Field.ofJson json = Field.ofJson other := by
  cases h with
  | same => rfl
  | record hform hslots =>
    obtain ⟨hname, htype⟩ := hslots
    have htypes := mapM_eq_of_rel htype Reference.ofJson_eq_of_restated
    unfold Field.ofJson
    rw [hform.check_eq, hname, htypes]
    simp only [hform.require_eq, hform.checkLength_eq]

theorem TypeEntry.ofJson_eq_of_restated (json other : Json) (h : TypeEntry.Restated json other) :
    TypeEntry.ofJson json = TypeEntry.ofJson other := by
  cases h with
  | same => rfl
  | record hform hslots =>
    obtain ⟨hkind, hname, hfields, hinterfaces, hpossible⟩ := hslots
    have hfieldLists := ofSlot_eq_of_sameOptional hfields RestatedList.keepsNull
      fun _ _ _ h => listOfJson_eq_of_restatedList h Field.ofJson_eq_of_restated
    have hreferences : ∀ {first second : Option Json},
        SameOptional (RestatedList Reference.Restated) first second →
        Json.ofSlot (listOfJson Reference.ofJson) first =
          Json.ofSlot (listOfJson Reference.ofJson) second :=
      fun h => ofSlot_eq_of_sameOptional h RestatedList.keepsNull
        fun _ _ _ h => listOfJson_eq_of_restatedList h Reference.ofJson_eq_of_restated
    unfold TypeEntry.ofJson
    rw [hform.check_eq, hform.isArray_eq, hkind, hname, hfieldLists, hreferences hinterfaces,
      hreferences hpossible]
    simp only [hform.require_eq, hform.checkLength_eq]

/-- **Introspection results are read alike in other words.** -/
theorem ofJson_eq_of_restated (h : Restated json other) :
    Introspection.ofJson json = Introspection.ofJson other := by
  cases h with
  | same => rfl
  | record hform hslots =>
    obtain ⟨hroots, htypes⟩ := hslots
    have hroot : ∀ key ∈ ["queryType", "mutationType", "subscriptionType"],
        Json.ofSlot rootOfJson (record.slot? json key) =
          Json.ofSlot rootOfJson (record.slot? other key) :=
      fun key hkey => ofSlot_eq_of_sameOptional (hroots key hkey) RestatedRecord.keepsNull
        fun _ _ _ h => rootOfJson_eq_of_restated h
    have htypeLists := mapM_eq_of_rel htypes
      fun _ _ h => listOfJson_eq_of_restatedList h TypeEntry.ofJson_eq_of_restated
    unfold Introspection.ofJson
    rw [hform.check_eq, hform.isArray_eq, hroot "queryType" (by simp),
      hroot "mutationType" (by simp), hroot "subscriptionType" (by simp), htypeLists]
    simp only [hform.require_eq, hform.checkLength_eq]
    -- that a query type is required in an array is the same for arrays of one length
    cases harray : isArray other with
    | false => rfl
    | true =>
      have hquery := hform.isSome_slot?_eq (hform.isArray_eq.trans harray) record "queryType"
      simp only [require_bind_eq hquery]

/-! ## What makes no difference -/

/-- **The two values make no difference**: the same is read of them, and the same schema is built from
wherever they are stored. -/
structure ReadAlike (root other : Json) : Prop where
  read : Introspection.ofJson root = Introspection.ofJson other
  built : ∀ json again, Stores json root → Stores again other →
    Schema.ofJson json = Schema.ofJson again

/-- What is read decides what is built. -/
theorem readAlike_of_eq (h : Introspection.ofJson json = Introspection.ofJson other) :
    ReadAlike json other where
  read := h
  built := by
    intro stored again hstored hagain
    rw [Schema.ofJson_eq_ofRoot hstored, Schema.ofJson_eq_ofRoot hagain, Schema.ofRoot, Schema.ofRoot, h]

/-- **Introspection results are read as they are written**, and how they are written makes no difference:
whatever a result is read from, it may as well be read from what is written for it. Keys that are not
read, and null in the place of a key that may be missing, make no difference either.

What is read and written here are JSON values. A text for one is read back only if it is nested no deeper
than `Schema.maxDepth`, which a reference with enough wrappers exceeds. -/
theorem readAlike_toJson_and_restated :
    (∀ introspection : Introspection, Introspection.ofJson introspection.toJson = .ok introspection) ∧
    (∀ json introspection, Introspection.ofJson json = .ok introspection →
      ReadAlike json introspection.toJson) ∧
    (∀ json other, Restated json other → ReadAlike json other) := by
  refine ⟨ofJson_toJson, fun json introspection hread => ?_, fun json other hrestated => ?_⟩
  · exact readAlike_of_eq (hread.trans introspection.ofJson_toJson.symm)
  · exact readAlike_of_eq (ofJson_eq_of_restated hrestated)

/-- A library that tells the title of its book. -/
def library : Introspection where
  queryType? := some "Query"
  mutationType? := none
  subscriptionType? := none
  types :=
    [⟨.object, "Query", some [⟨"title", .mk .nonNull none (some (.mk .scalar (some "String") none))⟩],
        some [], none⟩,
      ⟨.scalar, "String", none, none, none⟩]

/-- The same with keys that are not read, and without those that are null. The interfaces stand in it,
since an empty list is not null. -/
def libraryAnswer : Json :=
  .object [("directives", .array []),
    ("queryType", .object [("__typename", .string "__Type"), ("name", .string "Query")]),
    ("types", .array
      [.object [("description", .null),
        ("fields", .array [.object [("args", .array []), ("name", .string "title"),
          ("type", .object [("kind", .string "NON_NULL"),
            ("ofType", .object [("kind", .string "SCALAR"), ("name", .string "String")])])]]),
        ("interfaces", .array []), ("kind", .string "OBJECT"), ("name", .string "Query")],
      .object [("kind", .string "SCALAR"), ("name", .string "String")]])]

/-- **An answer with other keys** is read as the library, and the schema is the same. -/
theorem readAlike_toJson_and_restated_library :
    Restated libraryAnswer library.toJson ∧ Introspection.ofJson libraryAnswer = .ok library ∧
      Schema.ofJson libraryAnswer = Schema.ofJson library.toJson := by
  have hrestated : Restated libraryAnswer library.toJson := by
    refine .record .objects ⟨?_, .some (.items (.cons ?_ (.cons ?_ .nil)))⟩
    · intro key hkey
      simp only [List.mem_cons, List.not_mem_nil, or_false] at hkey
      rcases hkey with rfl | rfl | rfl
      · exact .present (.record .objects rfl)
      · exact .missing (.inl rfl) (.inr rfl)
      · exact .missing (.inl rfl) (.inr rfl)
    · refine .record .objects ⟨rfl, rfl, .present (.items (.cons ?_ .nil)), .present (.same _),
        .missing (.inl rfl) (.inr rfl)⟩
      refine .record .objects ⟨rfl, .some (.record .objects rfl ?_ (.present ?_))⟩
      · exact .missing (.inl rfl) (.inr rfl)
      · exact .record .objects rfl (.present rfl) (.missing (.inl rfl) (.inr rfl))
    · exact .record .objects ⟨rfl, rfl, .missing (.inl rfl) (.inr rfl),
        .missing (.inl rfl) (.inr rfl), .missing (.inl rfl) (.inr rfl)⟩
  have hbare : IsBare libraryAnswer := ⟨rfl, rfl, rfl⟩
  have hwritten : IsBare library.toJson := ⟨rfl, rfl, rfl⟩
  obtain ⟨hread, -, halike⟩ := readAlike_toJson_and_restated
  obtain ⟨hsame, hbuilt⟩ := halike _ _ hrestated
  exact ⟨hrestated, hsame.trans (hread library), hbuilt _ _ hbare.stores hwritten.stores⟩

end Introspection

end SelectionRecall
