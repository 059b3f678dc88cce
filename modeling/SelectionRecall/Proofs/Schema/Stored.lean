import SelectionRecall.Proofs.Schema.Encoding
import SelectionRecall.Proofs.Schema.Implementers

/-!
# Where an introspection result is stored

The answer of a server holds the result of an introspection behind `data` and `__schema`. Stored results
may lack the one or the other, or have more of the first, and what else stands beside these keys is never
looked at: a `data` key wins over a `__schema` key, and both win over a `types` key. Every value either
stores a result in this way or it does not, and a result is read alike wherever it is stored.

* `Json.DataEndsAt`: the value behind all `data` keys.
* `Introspection.IsBare`, `Introspection.Stores`: results on their own, and stored ones.
* `Introspection.Rootless`: values that store no result.
* `Introspection.locate?_eq_some_iff`, `Introspection.locate?_eq_none_iff`: stored results are found.
* `Schema.ofJson_of_stores`: a result is read alike wherever it is stored.
* `Schema.ofJson_of_stores_shelter`: a stored result among other keys.
-/

namespace SelectionRecall

/-- Going from `data` key to `data` key ends at this value, which has none: it is another object, or no
object at all. -/
inductive Json.DataEndsAt (last : Json) : Json → Prop
  | here : last.member? "data" = none → DataEndsAt last last
  | behind {json inner : Json} :
    json.member? "data" = some inner → DataEndsAt last inner → DataEndsAt last json

namespace Json

variable {json inner last : Json}

theorem DataEndsAt.data_eq_none (h : DataEndsAt last json) : last.member? "data" = none := by
  induction h with
  | here hnone => exact hnone
  | behind _ _ ih => exact ih

/-- There is one end. -/
theorem DataEndsAt.unique {other : Json} (h : DataEndsAt last json) (hother : DataEndsAt other json) :
    last = other := by
  induction h with
  | here hnone =>
    cases hother with
    | here => rfl
    | behind hsome => rw [hnone] at hsome; cases hsome
  | behind hsome _ ih =>
    cases hother with
    | here hnone => rw [hnone] at hsome; cases hsome
    | behind hsome' hbehind =>
      rw [hsome, Option.some.injEq] at hsome'
      exact ih (hsome' ▸ hbehind)

/-- The keys end, since values behind them are smaller. -/
theorem exists_dataEndsAt (json : Json) : ∃ last, DataEndsAt last json := by
  cases hdata : json.member? "data" with
  | none => exact ⟨json, .here hdata⟩
  | some inner =>
    obtain ⟨last, hlast⟩ := exists_dataEndsAt inner
    exact ⟨last, .behind hdata hlast⟩
  termination_by sizeOf json
  decreasing_by exact sizeOf_member? hdata

end Json

namespace Introspection

/-- An introspection result on its own, which neither `data` nor `__schema` leads away from. -/
structure IsBare (root : Json) : Prop where
  types : (root.member? "types").isSome
  data : root.member? "data" = none
  schema : root.member? "__schema" = none

/-- **The value stores this result**, behind any number of `data` keys: under `__schema`, or on its
own. -/
def Stores (json root : Json) : Prop :=
  ∃ last, Json.DataEndsAt last json ∧
    (last.member? "__schema" = some root ∨ last = root ∧ IsBare root)

/-- **The value stores no result**: its `data` keys end at no object, or at one that has neither of the
other keys. -/
def Rootless (json : Json) : Prop :=
  ∃ last, Json.DataEndsAt last json ∧ last.member? "__schema" = none ∧ last.member? "types" = none

variable {json root last : Json}

/-- What is behind a `data` key is looked at alone. -/
theorem locate?_of_data {inner : Json} (h : json.member? "data" = some inner) :
    locate? json = locate? inner := by
  rw [locate?]
  split
  · rename_i other hother
    rw [h, Option.some.injEq] at hother
    rw [hother]
  · rename_i hnone
    rw [h] at hnone
    cases hnone

/-- Where there is none, a `__schema` key is looked for, and then a `types` key. -/
theorem locate?_of_data_eq_none (h : json.member? "data" = none) :
    locate? json = (json.member? "__schema").or ((json.member? "types").map fun _ => json) := by
  rw [locate?]
  split
  · rename_i inner hsome
    rw [h] at hsome
    cases hsome
  · cases json.member? "__schema" <;> rfl

theorem locate?_of_dataEndsAt (h : Json.DataEndsAt last json) :
    locate? json = (last.member? "__schema").or ((last.member? "types").map fun _ => last) := by
  induction h with
  | here hnone => exact locate?_of_data_eq_none hnone
  | behind hsome _ ih => rw [locate?_of_data hsome, ih]

/-- **What is found is what is stored.** -/
theorem locate?_eq_some_iff : locate? json = some root ↔ Stores json root := by
  obtain ⟨last, hlast⟩ := json.exists_dataEndsAt
  rw [locate?_of_dataEndsAt hlast]
  constructor
  · intro hfound
    refine ⟨last, hlast, ?_⟩
    -- a result on its own is found only where no `__schema` key stands beside it
    cases hschema : last.member? "__schema" with
    | some inner =>
      rw [hschema] at hfound
      exact .inl hfound
    | none =>
      rw [hschema, Option.none_or, Option.map_eq_some_iff] at hfound
      obtain ⟨types, htypes, rfl⟩ := hfound
      exact .inr ⟨rfl, by rw [htypes]; rfl, hlast.data_eq_none, hschema⟩
  · rintro ⟨other, hother, hroot⟩
    obtain rfl := hlast.unique hother
    rcases hroot with hschema | ⟨rfl, hbare⟩
    · rw [hschema]; rfl
    · obtain ⟨types, htypes⟩ := Option.isSome_iff_exists.1 hbare.types
      rw [hbare.schema, htypes]; rfl

/-- Nothing is found where nothing is stored. -/
theorem locate?_eq_none_iff : locate? json = none ↔ Rootless json := by
  obtain ⟨last, hlast⟩ := json.exists_dataEndsAt
  rw [locate?_of_dataEndsAt hlast, Option.or_eq_none_iff, Option.map_eq_none_iff]
  constructor
  · intro hnone
    exact ⟨last, hlast, hnone⟩
  · rintro ⟨other, hother, hnone⟩
    obtain rfl := hlast.unique hother
    exact hnone

/-- A result on its own stores itself. -/
theorem IsBare.stores (h : IsBare root) : Stores root root := ⟨root, .here h.data, .inr ⟨rfl, h⟩⟩

end Introspection

namespace Schema

open Introspection

/-- The schema that a result gives. -/
def ofRoot (root : Json) : Except SchemaError Schema :=
  match Introspection.ofJson root with
  | .error cause => .error (.wrongShape cause)
  | .ok introspection => ofIntrospection introspection

theorem ofJson_eq_ofRoot {json root : Json} (h : Stores json root) : ofJson json = ofRoot root := by
  rw [ofJson, locate?_eq_some_iff.2 h]
  rfl

theorem ofIntrospection_ne_noSchema (introspection : Introspection) :
    ofIntrospection introspection ≠ .error .noSchema := by
  unfold ofIntrospection
  split <;> simp

/-- That nothing is stored is only told where this is so. -/
theorem ofJson_eq_noSchema_iff (json : Json) : ofJson json = .error .noSchema ↔ Rootless json := by
  rw [← locate?_eq_none_iff]
  cases hfound : locate? json with
  | none => simp [ofJson, hfound]
  | some root =>
    rw [ofJson_eq_ofRoot (locate?_eq_some_iff.1 hfound), ofRoot]
    cases Introspection.ofJson root with
    | error cause => simp
    | ok introspection => simp [ofIntrospection_ne_noSchema]

/-- **A result is read alike wherever it is stored.** Let a value store a result. Then the answer is that
of the result, and if the result has neither a `data` nor a `__schema` key, then it is the same that the
result has on its own. A value that stores none has its `data` keys end where there is none, and such
values are those that are told to have no schema. -/
theorem ofJson_of_stores (json : Json) :
    (∀ root, Stores json root →
      ofJson json = ofRoot root ∧ (IsBare root → ofJson json = ofJson root)) ∧
    ((∀ root, ¬ Stores json root) ↔ Rootless json) ∧
    (ofJson json = .error .noSchema ↔ Rootless json) := by
  refine ⟨fun root hstores => ?_, ?_, ofJson_eq_noSchema_iff json⟩
  · refine ⟨ofJson_eq_ofRoot hstores, fun hbare => ?_⟩
    rw [ofJson_eq_ofRoot hstores, ofJson_eq_ofRoot hbare.stores]
  · simp only [← locate?_eq_some_iff, ← locate?_eq_none_iff, Option.eq_none_iff_forall_ne_some, ne_eq]

/-- The answer of a server that was stored once more, with keys that could mislead. -/
def shelterAnswer : Json :=
  .object [("__schema", .null),
    ("data", .object [("data", .object [("__schema", shelter.toJson), ("types", .null)]),
      ("errors", .array [])]),
    ("types", .array [])]

/-- **The result is read from behind its keys**, as if it stood on its own. -/
theorem ofJson_of_stores_shelter :
    Stores shelterAnswer shelter.toJson ∧ IsBare shelter.toJson ∧
      ofJson shelterAnswer = ofJson shelter.toJson ∧
      ofJson shelterAnswer =
        .ok ⟨"Query", none, none, shelter.types.map shelter.schemaType⟩ := by
  have hstores : Stores shelterAnswer shelter.toJson :=
    ⟨_, .behind rfl (.behind rfl (.here rfl)), .inl rfl⟩
  have hbare : IsBare shelter.toJson := ⟨rfl, rfl, rfl⟩
  obtain ⟨hroot, hsame⟩ := (ofJson_of_stores shelterAnswer).1 _ hstores
  refine ⟨hstores, hbare, hsame hbare, ?_⟩
  rw [hroot, ofRoot, ofJson_toJson]
  exact ofIntrospection_shelter

end Schema

end SelectionRecall
