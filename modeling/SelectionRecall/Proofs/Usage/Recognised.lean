import SelectionRecall.Proofs.Usage.Normal
import SelectionRecall.Proofs.Usage.Ways

/-!
# Usages that are recognised

A usage is recognised if what is written for it is read as a usage that covers it. Normal usages are, as
they are read back as they were. No other usage is: a field that the type does not have, an empty usage
beneath a field and an empty or unknown part are not read at all. And a part that belongs to the type
itself is taken into the usage around it, so that ways through the part come from ways inside another
such part, which are longer by a step. Ways into what is read are never longer than those that they come
from, so there would have to be parts with ever longer ways.

* `Usage.reread`: what is read in the selections that are written for a usage.
* `Usage.has_reread`: where its ways come from.
* `Usage.has_reread_nil`, `Usage.has_reread_field`, `Usage.has_reread_part`: so by their first step.
* `Usage.Deep`, `Usage.Deep.of_reread`: ways that are at least so long.
* `Usage.not_mayBe_of_covers`: a usage that is recognised has no part that belongs to its own type.
* `Usage.covers_observe_iff`: just the normal usages are recognised.
-/

namespace SelectionRecall

namespace Usage

/-- What is read in the selections that are written for a usage. -/
def reread (schema : Schema) (spread : SpreadReader) (typeName : String) (usage : Usage) : Usage :=
  (schema.observeSelections spread typeName .empty usage.toSelections).usage

variable {schema : Schema} {spread : SpreadReader}
  (hspread : ∀ typeName name, (spread typeName name).usage.Distinct)
  {typeName : String} {usage : Usage}

/-! ## Where ways come from -/

theorem reread_of_isEmpty (h : usage.isEmpty = true) : usage.reread schema spread typeName = .empty := by
  rw [eq_empty_of_isEmpty h]
  rfl

/-- A field is read if the type has it, and something is left beneath it unless it is a leaf. -/
theorem has_observe_field {field : FieldUse} {path : List Step} {field? : Option String}
    (h : (schema.observeSelection spread typeName field.toSelection).usage.Has path field?) :
    (path = [] ∧ field? = none) ∨ ∃ returned, schema.fieldType? typeName field.name = some returned ∧
      ((path = [] ∧ field? = some field.name) ∨
        ∃ nested rest, field.nested? = some nested ∧ path = .field field.name :: rest ∧
          nested.isEmpty = false ∧ (nested.reread schema spread returned).Has rest field?) := by
  rw [FieldUse.toSelection, Schema.observeSelection] at h
  cases hreturned : schema.fieldType? typeName field.name with
  | none => rw [hreturned] at h; exact .inl (has_empty_iff.1 h)
  | some returned =>
    rw [hreturned] at h
    dsimp only at h
    split at h
    · rw [has_ofField_iff, FieldUse.name_withArguments, FieldUse.nested?_withArguments] at h
      rcases h with ⟨hpath, hname⟩ | ⟨nested, rest, hnested, -⟩
      · cases field? with
        | none => exact .inl ⟨hpath, rfl⟩
        | some name => exact .inr ⟨returned, rfl, .inl ⟨hpath, congrArg some (hname name rfl)⟩⟩
      · cases hnested
    · rename_i hselections
      cases hnested : field.nested? with
      | none => rw [hnested] at hselections; exact absurd rfl hselections
      | some nested =>
        rw [hnested, Option.map_some, Option.getD_some] at h hselections
        rw [isEmpty_toSelections, Bool.not_eq_true] at hselections
        rcases Observed.has_field.1 h with hroot | ⟨-, ⟨hpath, hname⟩ | ⟨rest, hpath, hrest⟩⟩
        · exact .inl hroot
        · exact .inr ⟨returned, rfl, .inl ⟨hpath, hname⟩⟩
        · exact .inr ⟨returned, rfl, .inr ⟨nested, rest, rfl, hpath, hselections, hrest⟩⟩

/-- A part is read if its type is known and it is not empty. Ways into it lead through the part, unless
it belongs to the type around it. -/
theorem has_observe_part {part : String × Usage} {path : List Step} {field? : Option String}
    (h : (schema.observeSelection spread typeName (partSelection part)).usage.Has path field?) :
    (path = [] ∧ field? = none) ∨ schema.hasType part.1 = true ∧ part.2.isEmpty = false ∧
      ((schema.MayBe part.1 typeName ∧ (part.2.reread schema spread part.1).Has path field?) ∨
        ¬ schema.MayBe part.1 typeName ∧ ∃ rest, path = .part part.1 :: rest ∧
          (part.2.reread schema spread part.1).Has rest field?) := by
  rw [partSelection, Schema.observeSelection, Option.getD_some] at h
  split at h
  · rename_i hknown
    rw [Observed.usage_fragment] at h
    change (if (part.2.reread schema spread part.1).isEmpty = true ∨ schema.MayBe part.1 typeName then
      part.2.reread schema spread part.1
      else ofPart part.1 (part.2.reread schema spread part.1)).Has path field? at h
    cases hempty : (part.2.reread schema spread part.1).isEmpty with
    | true =>
      rw [if_pos (.inl hempty), eq_empty_of_isEmpty hempty] at h
      exact .inl (has_empty_iff.1 h)
    | false =>
      have hleft : part.2.isEmpty = false := by
        by_contra hnothing
        rw [Bool.not_eq_false] at hnothing
        rw [reread_of_isEmpty hnothing, isEmpty_empty] at hempty
        cases hempty
      by_cases hmayBe : schema.MayBe part.1 typeName
      · rw [if_pos (.inr hmayBe)] at h
        exact .inr ⟨hknown, hleft, .inl ⟨hmayBe, h⟩⟩
      · rw [if_neg (by simp [hempty, hmayBe])] at h
        rcases has_ofPart_iff.1 h with hroot | hthrough
        · exact .inl hroot
        · exact .inr ⟨hknown, hleft, .inr ⟨hmayBe, hthrough⟩⟩
  · exact .inl (has_empty_iff.1 h)

section

include hspread

/-- **A way into what is read** leads into what was read in a field or in a part. -/
theorem has_reread {path : List Step} {field? : Option String}
    (h : (usage.reread schema spread typeName).Has path field?) :
    (path = [] ∧ field? = none) ∨
      (∃ field ∈ usage.fields, ∃ returned, schema.fieldType? typeName field.name = some returned ∧
        ((path = [] ∧ field? = some field.name) ∨
          ∃ nested rest, field.nested? = some nested ∧ path = .field field.name :: rest ∧
            nested.isEmpty = false ∧ (nested.reread schema spread returned).Has rest field?)) ∨
      ∃ part ∈ usage.parts, schema.hasType part.1 = true ∧ part.2.isEmpty = false ∧
        ((schema.MayBe part.1 typeName ∧ (part.2.reread schema spread part.1).Has path field?) ∨
          ¬ schema.MayBe part.1 typeName ∧ ∃ rest, path = .part part.1 :: rest ∧
            (part.2.reread schema spread part.1).Has rest field?) := by
  unfold reread at h
  rw [Schema.has_observeSelections_iff hspread, toSelections_eq_append] at h
  rcases h with hroot | ⟨selection, hselection, hread⟩
  · exact .inl (has_empty_iff.1 hroot)
  · rcases List.mem_append.1 hselection with hmem | hmem
    · obtain ⟨field, hfield, rfl⟩ := List.mem_map.1 hmem
      exact (has_observe_field hread).imp_right fun hfound => .inl ⟨field, hfield, hfound⟩
    · obtain ⟨part, hpart, rfl⟩ := List.mem_map.1 hmem
      exact (has_observe_part hread).imp_right fun hfound => .inr ⟨part, hpart, hfound⟩

/-- A field that is read without a step is one of the usage, or is taken in from a part. -/
theorem has_reread_nil {name : String}
    (h : (usage.reread schema spread typeName).Has [] (some name)) :
    (schema.fieldType? typeName name).isSome = true ∨
      ∃ part ∈ usage.parts, schema.MayBe part.1 typeName := by
  rcases has_reread hspread h with
    ⟨-, hnone⟩ | ⟨field, -, returned, hreturned, ⟨-, hname⟩ | ⟨nested, rest, -, hcons, -⟩⟩ |
      ⟨part, hpart, -, -, ⟨htaken, -⟩ | ⟨-, rest, hcons, -⟩⟩
  · cases hnone
  · rw [Option.some.inj hname, hreturned]; exact .inl rfl
  · cases hcons
  · exact .inr ⟨part, hpart, htaken⟩
  · cases hcons

/-- A way through a field goes on in what was read beneath this field, or is taken in from a part. -/
theorem has_reread_field {name : String} {rest : List Step} {field? : Option String}
    (h : (usage.reread schema spread typeName).Has (.field name :: rest) field?) :
    (∃ field ∈ usage.fields, field.name = name ∧
        ∃ returned, schema.fieldType? typeName name = some returned ∧
          ∃ nested, field.nested? = some nested ∧ nested.isEmpty = false ∧
            (nested.reread schema spread returned).Has rest field?) ∨
      ∃ part ∈ usage.parts, schema.MayBe part.1 typeName := by
  rcases has_reread hspread h with
    ⟨hnil, -⟩ | ⟨field, hfield, returned, hreturned,
      ⟨hnil, -⟩ | ⟨nested, last, hnested, hcons, hinner⟩⟩ |
      ⟨part, hpart, -, -, ⟨htaken, -⟩ | ⟨-, last, hcons, -⟩⟩
  · cases hnil
  · cases hnil
  · cases hcons
    exact .inl ⟨field, hfield, rfl, returned, hreturned, nested, hnested, hinner⟩
  · exact .inr ⟨part, hpart, htaken⟩
  · cases hcons

/-- A way through a part goes on in what was read in this part, or is taken in whole from another one. -/
theorem has_reread_part {condition : String} {rest : List Step} {field? : Option String}
    (h : (usage.reread schema spread typeName).Has (.part condition :: rest) field?) :
    (¬ schema.MayBe condition typeName ∧ ∃ part ∈ usage.parts, part.1 = condition ∧
        schema.hasType condition = true ∧ part.2.isEmpty = false ∧
          (part.2.reread schema spread condition).Has rest field?) ∨
      ∃ part ∈ usage.parts, schema.MayBe part.1 typeName ∧
        (part.2.reread schema spread part.1).Has (.part condition :: rest) field? := by
  rcases has_reread hspread h with
    ⟨hnil, -⟩ | ⟨field, -, returned, -, ⟨hnil, -⟩ | ⟨nested, last, -, hcons, -⟩⟩ |
      ⟨part, hpart, hknown, hleft, ⟨htaken, hinside⟩ | ⟨hother, last, hcons, hinner⟩⟩
  · cases hnil
  · cases hnil
  · cases hcons
  · exact .inr ⟨part, hpart, htaken, hinside⟩
  · cases hcons
    exact .inl ⟨hother, part, hpart, rfl, hknown, hleft, hinner⟩

end

/-! ## Ways of some length -/

/-- A way into the usage is at least so long. -/
def Deep (usage : Usage) (length : ℕ) : Prop := ∃ path, length ≤ path.length ∧ usage.Has path none

theorem deep_zero (usage : Usage) : usage.Deep 0 := ⟨[], Nat.le_refl 0, has_nil_none⟩

theorem Deep.of_le {length longer : ℕ} (h : usage.Deep longer) (hle : length ≤ longer) :
    usage.Deep length := by
  obtain ⟨path, hlength, hhas⟩ := h
  exact ⟨path, Nat.le_trans hle hlength, hhas⟩

/-- A way through a step is longer by one. -/
theorem Deep.of_step {step : Step} {inner : Usage} {length : ℕ} (h : inner.Deep length)
    (hinner : usage.step? step = some inner) : usage.Deep (length + 1) := by
  obtain ⟨path, hlength, hhas⟩ := h
  exact ⟨step :: path, Nat.succ_le_succ hlength, has_cons.2 ⟨inner, hinner, hhas⟩⟩

/-- Ways into a usage do not become ever longer. -/
theorem not_deep_sizeOf (usage : Usage) : ¬ usage.Deep (sizeOf usage) := by
  rintro ⟨path, hlength, hhas⟩
  exact absurd hhas.length_lt (Nat.not_lt.2 hlength)

section

include hspread

/-- Ways into what is read are not longer than those into what was written. -/
theorem Deep.of_reread (hdistinct : usage.Distinct) {length : ℕ}
    (h : (usage.reread schema spread typeName).Deep length) : usage.Deep length := by
  induction usage using Usage.induction generalizing typeName length with
  | step usage ihFields ihParts =>
    obtain ⟨-, hfields, hparts⟩ := distinct_iff.1 hdistinct
    obtain ⟨path, hlength, hhas⟩ := h
    rcases has_reread hspread hhas with
      ⟨rfl, -⟩ | ⟨field, hfield, returned, -, ⟨rfl, -⟩ | ⟨nested, rest, hnested, rfl, -, hrest⟩⟩ |
        ⟨part, hpart, -, -, ⟨-, hinside⟩ | ⟨-, rest, rfl, hrest⟩⟩
    · exact (deep_zero usage).of_le hlength
    · exact (deep_zero usage).of_le hlength
    · have hinner := ihFields field hfield nested hnested (hfields field hfield nested hnested)
        ⟨rest, Nat.le_refl _, hrest⟩
      exact (hinner.of_step (hdistinct.step?_field hfield hnested)).of_le hlength
    · -- the way through the part would be longer still
      have hinner := ihParts part hpart (hparts part hpart) ⟨path, Nat.le_refl _, hinside⟩
      exact (hinner.of_step (hdistinct.step?_part hpart)).of_le (Nat.le_succ_of_le hlength)
    · have hinner := ihParts part hpart (hparts part hpart) ⟨rest, Nat.le_refl _, hrest⟩
      exact (hinner.of_step (hdistinct.step?_part hpart)).of_le hlength

/-! ## Just the normal usages are recognised -/

/-- **A usage that is recognised has no part that belongs to its own type.** Ways through such a part
come from ways inside one, which are longer by this step. -/
theorem not_mayBe_of_covers (hdistinct : usage.Distinct)
    (h : (usage.reread schema spread typeName).covers usage = true) :
    ∀ part ∈ usage.parts, ¬ schema.MayBe part.1 typeName := by
  have hways := (covers_iff_has hdistinct).1 h
  obtain ⟨-, -, hparts⟩ := distinct_iff.1 hdistinct
  intro first hfirst hmayBe
  have hlonger : ∀ length, ∃ part ∈ usage.parts, schema.MayBe part.1 typeName ∧ part.2.Deep length := by
    intro length
    induction length with
    | zero => exact ⟨first, hfirst, hmayBe, deep_zero _⟩
    | succ length ih =>
      obtain ⟨part, hpart, hbelongs, path, hlength, hhas⟩ := ih
      have hthrough : usage.Has (.part part.1 :: path) none :=
        has_cons.2 ⟨part.2, hdistinct.step?_part hpart, hhas⟩
      rcases has_reread_part hspread (hways _ _ hthrough) with
        ⟨hother, -⟩ | ⟨source, hsource, htaken, hinside⟩
      · exact absurd hbelongs hother
      · have hinner := Deep.of_reread hspread (hparts source hsource)
          ⟨_, Nat.succ_le_succ hlength, hinside⟩
        exact ⟨source, hsource, htaken, hinner⟩
  obtain ⟨part, hpart, -, hdeep⟩ := hlonger (sizeOf usage)
  have hthrough := hdeep.of_step (hdistinct.step?_part hpart)
  exact not_deep_sizeOf usage (hthrough.of_le (Nat.le_succ _))

/-- What a usage that is recognised holds beneath a field is recognised too, at the type that the field
returns, and is not empty. -/
theorem covers_reread_of_field (hdistinct : usage.Distinct)
    (h : (usage.reread schema spread typeName).covers usage = true) {field : FieldUse} {nested : Usage}
    (hfield : field ∈ usage.fields) (hnested : field.nested? = some nested) :
    nested.isEmpty = false ∧ ∀ returned, schema.fieldType? typeName field.name = some returned →
      (nested.reread schema spread returned).covers nested = true := by
  have hways := (covers_iff_has hdistinct).1 h
  have hother := not_mayBe_of_covers hspread hdistinct h
  obtain ⟨⟨hnames, -⟩, hfields, -⟩ := distinct_iff.1 hdistinct
  -- a way through the field can only have been read in this field
  have hread : ∀ rest field?, nested.Has rest field? → nested.isEmpty = false ∧
      ∃ returned, schema.fieldType? typeName field.name = some returned ∧
        (nested.reread schema spread returned).Has rest field? := by
    intro rest field? hhas
    have hthrough : usage.Has (.field field.name :: rest) field? :=
      has_cons.2 ⟨nested, hdistinct.step?_field hfield hnested, hhas⟩
    rcases has_reread_field hspread (hways _ _ hthrough) with
      ⟨same, hsame, hname, returned, hreturned, inner, hinner, hleft, hrest⟩ | ⟨part, hpart, htaken⟩
    · obtain rfl : same = field := List.inj_on_of_nodup_map hnames hsame hfield hname
      rw [hnested, Option.some.injEq] at hinner
      exact hinner ▸ ⟨hleft, returned, hreturned, hrest⟩
    · exact absurd htaken (hother part hpart)
  refine ⟨(hread [] none has_nil_none).1, ?_⟩
  intro returned hreturned
  refine (covers_iff_has (hfields field hfield nested hnested)).2 ?_
  intro rest field? hhas
  obtain ⟨-, same, hsame, hlast⟩ := hread rest field? hhas
  rw [hreturned, Option.some.injEq] at hsame
  exact hsame ▸ hlast

/-- So are its parts, at their own types, which are known. -/
theorem covers_reread_of_part (hdistinct : usage.Distinct)
    (h : (usage.reread schema spread typeName).covers usage = true) {part : String × Usage}
    (hpart : part ∈ usage.parts) :
    schema.hasType part.1 = true ∧ part.2.isEmpty = false ∧
      (part.2.reread schema spread part.1).covers part.2 = true := by
  have hways := (covers_iff_has hdistinct).1 h
  have hother := not_mayBe_of_covers hspread hdistinct h
  obtain ⟨⟨-, hnames⟩, -, hparts⟩ := distinct_iff.1 hdistinct
  -- a way through the part can only have been read in this part
  have hread : ∀ rest field?, part.2.Has rest field? → schema.hasType part.1 = true ∧
      part.2.isEmpty = false ∧ (part.2.reread schema spread part.1).Has rest field? := by
    intro rest field? hhas
    have hthrough : usage.Has (.part part.1 :: rest) field? :=
      has_cons.2 ⟨part.2, hdistinct.step?_part hpart, hhas⟩
    rcases has_reread_part hspread (hways _ _ hthrough) with
      ⟨-, same, hsame, hname, hread⟩ | ⟨source, hsource, htaken, -⟩
    · obtain rfl : same = part := List.inj_on_of_nodup_map hnames hsame hpart hname
      exact hread
    · exact absurd htaken (hother source hsource)
  obtain ⟨hknown, hleft, -⟩ := hread [] none has_nil_none
  exact ⟨hknown, hleft, (covers_iff_has (hparts part hpart)).2 fun rest field? hhas =>
    (hread rest field? hhas).2.2⟩

/-- The type has the fields of a usage that is recognised. -/
theorem isSome_fieldType?_of_covers (hdistinct : usage.Distinct)
    (h : (usage.reread schema spread typeName).covers usage = true) {field : FieldUse}
    (hfield : field ∈ usage.fields) : (schema.fieldType? typeName field.name).isSome = true := by
  have hown : usage.Has [] (some field.name) := by
    rw [has_nil_some, hdistinct.field?_eq hfield]; rfl
  rcases has_reread_nil hspread ((covers_iff_has hdistinct).1 h _ _ hown) with
    hsome | ⟨part, hpart, htaken⟩
  · exact hsome
  · exact absurd htaken (not_mayBe_of_covers hspread hdistinct h part hpart)

/-- **A usage that is recognised is normal.** -/
theorem normal_of_covers (hdistinct : usage.Distinct)
    (h : (usage.reread schema spread typeName).covers usage = true) :
    usage.Normal schema typeName := by
  induction usage using Usage.induction generalizing typeName with
  | step usage ihFields ihParts =>
    have hother := not_mayBe_of_covers hspread hdistinct h
    obtain ⟨-, hfields, hparts⟩ := distinct_iff.1 hdistinct
    refine normal_iff.2 ⟨⟨?_, ?_, ?_, hother, ?_⟩, ?_, ?_⟩
    · exact fun field hfield => isSome_fieldType?_of_covers hspread hdistinct h hfield
    · exact fun field hfield nested hnested =>
        (covers_reread_of_field hspread hdistinct h hfield hnested).1
    · exact fun part hpart => (covers_reread_of_part hspread hdistinct h hpart).1
    · exact fun part hpart => (covers_reread_of_part hspread hdistinct h hpart).2.1
    · intro field hfield returned nested hreturned hnested
      exact ihFields field hfield nested hnested (hfields field hfield nested hnested)
        ((covers_reread_of_field hspread hdistinct h hfield hnested).2 returned hreturned)
    · intro part hpart
      exact ihParts part hpart (hparts part hpart)
        (covers_reread_of_part hspread hdistinct h hpart).2.2

end

/-- **Just the normal usages are recognised**, whatever fragments the document has. -/
theorem covers_observe_iff (hdistinct : usage.Distinct) (hfree : usage.VariableFree)
    (document : Document) :
    (schema.observe document typeName usage.toSelections).usage.covers usage = true ↔
      usage.Normal schema typeName := by
  constructor
  · have hspread : ∀ typeName name, (schema.spreadReader document.fragment? document.fragments.length
        [] typeName name).usage.Distinct :=
      (Schema.keptByReading_distinct schema).spreadReader document.fragment? _ []
    exact normal_of_covers hspread hdistinct
  · intro hnormal
    rw [hnormal.usage_observe hdistinct hfree]
    exact covers_self hdistinct

end Usage

end SelectionRecall
