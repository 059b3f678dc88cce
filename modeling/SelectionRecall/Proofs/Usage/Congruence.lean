import Mathlib.Data.List.Nodup
import SelectionRecall.Proofs.Document.Nodes
import SelectionRecall.Proofs.Usage.Alike

/-!
# Equality is a congruence

Nothing that is asked of usages or done to them tells equal ones apart: unions of equal usages are equal,
equal usages lead to equal ones, and they cover the same and are covered by the same. So it is with
tables. Written as selections, equal usages differ in the order of selections and in the form of equal
arguments, and in nothing else. Equal usages hold no float that is not a number, and a usage without such
floats is equal to itself.

* `Keyed.exists_aligned`: related entries side by side.
* `Usage.Same`, `UsageTable.Same`: equal, and with distinct names as in a map.
* `Usage.Same.step?`, `Usage.Same.field?`, `Usage.Same.at?`: equal usages lead to equal ones.
* `Usage.Same.isEmpty_eq`, `Usage.Same.unconditional`, `Usage.Same.covers_eq`: questions.
* `Usage.Same.merge`, `UsageTable.Same.mergeAll`: unions.
* `UsageTable.Same.get?`, `UsageTable.Same.getNonEmpty?`: what tables lead to.
* `Selection.Rearranged`, `Usage.Same.rearranged`: selections in another order.
-/

namespace SelectionRecall

/-- **Lists with distinct keys that lead to related entries** can be aligned: the second one has another
order in which its entries have the keys of the first one, and are related to them one by one. -/
theorem Keyed.exists_aligned {α : Type} {keyOf : α → String} {Related : α → α → Prop}
    {first second : List α} (hfirst : (first.map keyOf).Nodup) (hsecond : (second.map keyOf).Nodup)
    (h : ∀ key, Option.Rel Related (first.find? fun a => keyOf a = key)
      (second.find? fun a => keyOf a = key)) :
    ∃ aligned, List.Forall₂ (fun a b => a ∈ first ∧ keyOf a = keyOf b ∧ Related a b) first aligned ∧
      aligned.Perm second := by
  obtain ⟨hlength, hfound⟩ := (rel_find?_iff hfirst hsecond).1 h
  -- the entries of the second list under the keys of the first one, which leave none of it out
  have hentries : ∀ entries ⊆ first, ∃ aligned ⊆ second,
      List.Forall₂ (fun a b => a ∈ first ∧ keyOf a = keyOf b ∧ Related a b) entries aligned ∧
        aligned.map keyOf = entries.map keyOf := by
    intro entries
    induction entries with
    | nil => exact fun _ => ⟨[], by simp, .nil, rfl⟩
    | cons a rest ih =>
      intro hsubset
      obtain ⟨ha, hrest⟩ := List.cons_subset.1 hsubset
      obtain ⟨aligned, haligned, hrelated, hkeys⟩ := ih hrest
      obtain ⟨b, hb, hab⟩ := hfound a ha
      obtain ⟨hmem, hkey⟩ := Keyed.mem_of_find? hb
      refine ⟨b :: aligned, List.cons_subset.2 ⟨hmem, haligned⟩,
        .cons ⟨ha, hkey.symm, hab⟩ hrelated, ?_⟩
      rw [List.map_cons, List.map_cons, hkey, hkeys]
  obtain ⟨aligned, hsubset, hrelated, hkeys⟩ := hentries first (List.Subset.refl first)
  have hdistinctKeys : (aligned.map keyOf).Nodup := by rwa [hkeys]
  have hsame : second.length = aligned.length := hlength.symm.trans hrelated.length_eq
  exact ⟨aligned, hrelated, (hdistinctKeys.of_map.subperm hsubset).perm_of_length_le (Nat.le_of_eq hsame)⟩

namespace Usage

/-- **Usages are the same** if they are equal and no names repeat in them, as in a map. -/
structure Same (usage other : Usage) : Prop where
  left : usage.Distinct
  right : other.Distinct
  equal : (usage == other) = true

/-- Uses of a field are the same: equal arguments, and the same usages beneath them. -/
structure SameUse (field other : FieldUse) : Prop where
  name : field.name = other.name
  arguments : (field.arguments == other.arguments) = true
  nested : Option.Rel Same field.nested? other.nested?

variable {usage other : Usage}

/-- This can be told from ways. -/
theorem same_iff_alike :
    usage.Same other ↔ usage.Distinct ∧ other.Distinct ∧
      usage.Alike Arguments.canonical other ∧ usage.NanFree := by
  constructor
  · rintro ⟨husage, hother, hequal⟩
    exact ⟨husage, hother, (equals_iff husage hother).1 hequal⟩
  · rintro ⟨husage, hother, halike⟩
    exact ⟨husage, hother, (equals_iff husage hother).2 halike⟩

theorem Same.alike (h : usage.Same other) : usage.Alike Arguments.canonical other :=
  (same_iff_alike.1 h).2.2.1

theorem Same.nanFree (h : usage.Same other) : usage.NanFree := (same_iff_alike.1 h).2.2.2

theorem Same.refl (h : usage.Distinct) (hnumbers : usage.NanFree) : usage.Same usage :=
  same_iff_alike.2 ⟨h, h, .refl usage, hnumbers⟩

theorem Same.symm (h : usage.Same other) : other.Same usage :=
  same_iff_alike.2
    ⟨h.right, h.left, h.alike.symm, (h.alike.nanFree_iff h.left h.right).1 h.nanFree⟩

theorem Same.trans {third : Usage} (h : usage.Same other) (h' : other.Same third) :
    usage.Same third :=
  same_iff_alike.2 ⟨h.left, h'.right, h.alike.trans h'.alike, h.nanFree⟩

/-! ## Where equal usages lead -/

/-- **A step leads to the same usages**, or nowhere in both. -/
theorem Same.step? (h : usage.Same other) (step : Step) :
    Option.Rel Same (usage.step? step) (other.step? step) := by
  rcases Keyed.rel_cases ((alike_iff_step.1 h.alike).2 step) with
    ⟨hinner, hdeep⟩ | ⟨inner, deep, hinner, hdeep, halike⟩
  · rw [hinner, hdeep]; exact Option.rel_none_none
  · rw [hinner, hdeep]
    exact Option.rel_some_some.2 (same_iff_alike.2 ⟨h.left.step? hinner, h.right.step? hdeep, halike,
      ((nanFree_iff_step h.left).1 h.nanFree).2 step inner hinner⟩)

/-- Names lead to the same parts. -/
theorem Same.part? (h : usage.Same other) (typeName : String) :
    Option.Rel Same (usage.part? typeName) (other.part? typeName) :=
  h.step? (.part typeName)

/-- And to the same fields. -/
theorem Same.field? (h : usage.Same other) (name : String) :
    Option.Rel SameUse (usage.field? name) (other.field? name) := by
  have harguments := (alike_iff_step.1 h.alike).1 name
  have hnested := h.step? (.field name)
  unfold Usage.step? at hnested
  dsimp only at hnested
  cases hfind : usage.field? name with
  | none =>
    cases hfind' : other.field? name with
    | none => exact Option.rel_none_none
    | some known => rw [hfind, hfind'] at harguments; cases harguments
  | some field =>
    cases hfind' : other.field? name with
    | none => rw [hfind, hfind'] at harguments; cases harguments
    | some known =>
      have hname : field.name = name := (Keyed.mem_of_find? hfind).2
      have hname' : known.name = name := (Keyed.mem_of_find? hfind').2
      rw [hfind, hfind', Option.map_some, Option.map_some, Option.some.injEq] at harguments
      rw [hfind, hfind', Option.bind_some, Option.bind_some] at hnested
      have hnumbers := ((nanFree_iff_step h.left).1 h.nanFree).1 name field hfind
      exact Option.rel_some_some.2
        ⟨hname.trans hname'.symm, (Arguments.beq_iff _ _).2 ⟨harguments, hnumbers⟩, hnested⟩

/-- Whole ways lead to the same usages. -/
theorem Same.at? (h : usage.Same other) (path : List Step) :
    Option.Rel Same (usage.at? path) (other.at? path) := by
  induction path generalizing usage other with
  | nil => exact Option.rel_some_some.2 h
  | cons step rest ih =>
    simp only [Usage.at?]
    rcases Keyed.rel_cases (h.step? step) with ⟨hinner, hdeep⟩ | ⟨inner, deep, hinner, hdeep, hsame⟩
    · rw [hinner, hdeep]; exact Option.rel_none_none
    · rw [hinner, hdeep]; exact ih hsame

/-! ## Questions -/

/-- Equal usages are as long. -/
theorem Same.length_eq (h : usage.Same other) :
    usage.fields.length = other.fields.length ∧ usage.parts.length = other.parts.length := by
  have hequal := h.equal
  cases usage
  change equals _ _ = true at hequal
  simp only [equals, Bool.and_eq_true, beq_iff_eq] at hequal
  exact ⟨hequal.1.1.1, hequal.1.1.2⟩

/-- **Equal usages are empty together.** -/
theorem Same.isEmpty_eq (h : usage.Same other) : usage.isEmpty = other.isEmpty := by
  obtain ⟨hfields, hparts⟩ := h.length_eq
  have hempty : ∀ {α : Type} {first second : List α}, first.length = second.length →
      first.isEmpty = second.isEmpty := by
    intro α first second hlength
    rw [Bool.eq_iff_iff, List.isEmpty_iff_length_eq_zero, List.isEmpty_iff_length_eq_zero, hlength]
  unfold isEmpty
  rw [hempty hfields, hempty hparts]

theorem Distinct.unconditional (h : usage.Distinct) : usage.unconditional.Distinct := by
  obtain ⟨⟨hfieldNames, -⟩, hfields, -⟩ := distinct_iff.1 h
  exact distinct_iff.2 ⟨⟨hfieldNames, List.nodup_nil⟩, hfields, by simp [Usage.unconditional, parts]⟩

/-- **Without their parts** equal usages are equal. -/
theorem Same.unconditional (h : usage.Same other) : usage.unconditional.Same other.unconditional := by
  obtain ⟨hown, hstep⟩ := alike_iff_step.1 h.alike
  refine same_iff_alike.2 ⟨h.left.unconditional, h.right.unconditional,
    alike_iff_step.2 ⟨hown, ?_⟩, h.nanFree.unconditional⟩
  intro step
  cases step with
  | field name => exact hstep (.field name)
  | part typeName => exact Option.rel_none_none

/-- What is covered has no field that the usage does not have, and each step into it leads to something
that is covered too. -/
theorem step_of_covers (h : usage.covers other = true) :
    (∀ name, (other.field? name).isSome = true → (usage.field? name).isSome = true) ∧
      ∀ step inner, other.step? step = some inner →
        ∃ known, usage.step? step = some known ∧ known.covers inner = true := by
  obtain ⟨hfields, hparts⟩ := covers_iff.1 h
  have hfield : ∀ name field, other.field? name = some field →
      ∃ known, usage.field? name = some known ∧ known.Covers field := by
    intro name field hfind
    obtain ⟨hmem, hname⟩ := Keyed.mem_of_find? hfind
    exact hname ▸ hfields field hmem
  refine ⟨?_, ?_⟩
  · intro name hsome
    obtain ⟨field, hfind⟩ := Option.isSome_iff_exists.1 hsome
    obtain ⟨known, hknown, -⟩ := hfield name field hfind
    rw [hknown]; rfl
  · intro step inner hinner
    cases step with
    | field name =>
      obtain ⟨field, hfind, hnested⟩ := Option.bind_eq_some_iff.1 hinner
      obtain ⟨known, hknown, hcovers⟩ := hfield name field hfind
      obtain ⟨beneath, hbeneath, hcovered⟩ := hcovers inner hnested
      exact ⟨beneath, Option.bind_eq_some_iff.2 ⟨known, hknown, hbeneath⟩, hcovered⟩
    | part typeName => exact hparts (typeName, inner) (Keyed.mem_of_lookup hinner)

/-- Covering step by step, where names in what is covered are distinct. -/
theorem covers_iff_step (hother : other.Distinct) :
    usage.covers other = true ↔
      (∀ name, (other.field? name).isSome = true → (usage.field? name).isSome = true) ∧
        ∀ step inner, other.step? step = some inner →
          ∃ known, usage.step? step = some known ∧ known.covers inner = true := by
  refine ⟨step_of_covers, ?_⟩
  rintro ⟨hsome, hstep⟩
  rw [covers_iff]
  refine ⟨?_, ?_⟩
  · intro field hfield
    obtain ⟨known, hknown⟩ := Option.isSome_iff_exists.1
      (hsome field.name (by rw [hother.field?_eq hfield]; rfl))
    refine ⟨known, hknown, ?_⟩
    intro nested hnested
    obtain ⟨beneath, hbeneath, hcovered⟩ := hstep _ nested (hother.step?_field hfield hnested)
    unfold Usage.step? at hbeneath
    dsimp only at hbeneath
    rw [hknown, Option.bind_some] at hbeneath
    exact ⟨beneath, hbeneath, hcovered⟩
  · exact fun part hpart => hstep _ _ (hother.step?_part hpart)

theorem Same.isSome_field?_eq (h : usage.Same other) (name : String) :
    (usage.field? name).isSome = (other.field? name).isSome := by
  rcases Keyed.rel_cases (h.field? name) with ⟨hfield, hknown⟩ | ⟨field, known, hfield, hknown, -⟩
  · rw [hfield, hknown]
  · rw [hfield, hknown]; rfl

/-- **Equal usages cover the same.** -/
theorem Same.covers_left (h : usage.Same other) {inner : Usage} (hinner : inner.Distinct) :
    usage.covers inner = other.covers inner := by
  -- over what is covered: each step into it goes along with a step into both usages
  induction inner using step_induction generalizing usage other with
  | step inner ih =>
    rw [Bool.eq_iff_iff, covers_iff_step hinner, covers_iff_step hinner]
    simp only [h.isSome_field?_eq]
    refine and_congr_right fun _ => forall_congr' fun step => forall_congr' fun deep =>
      imp_congr_right fun hdeep => ?_
    rcases Keyed.rel_cases (h.step? step) with ⟨hknown, hgrown⟩ | ⟨known, grown, hknown, hgrown, hsame⟩
    · rw [hknown, hgrown]
    · rw [hknown, hgrown]
      simp [ih step deep hdeep hsame (hinner.step? hdeep)]

/-- **Equal usages are covered by the same.** -/
theorem Same.covers_right (h : usage.Same other) (known : Usage) :
    known.covers usage = known.covers other := by
  induction usage using step_induction generalizing other known with
  | step usage ih =>
    rw [Bool.eq_iff_iff, covers_iff_step h.left, covers_iff_step h.right]
    simp only [h.isSome_field?_eq]
    refine and_congr_right fun _ => forall_congr' fun step => ?_
    rcases Keyed.rel_cases (h.step? step) with ⟨hinner, hdeep⟩ | ⟨inner, deep, hinner, hdeep, hsame⟩
    · rw [hinner, hdeep]
    · rw [hinner, hdeep]
      simp [ih step inner hinner hsame]

theorem Same.covers_eq (h : usage.Same other) {inner deep : Usage} (hinner : inner.Same deep) :
    usage.covers inner = other.covers deep :=
  (h.covers_left hinner.left).trans (hinner.covers_right other)

/-! ## Unions -/

/-- Unions of usages that are alike are alike. -/
theorem Alike.merge {new added : Usage} (h : usage.Alike Arguments.canonical other)
    (hnew : new.Alike Arguments.canonical added) (hdistinct : new.Distinct) (hdistinct' : added.Distinct) :
    (usage.merge new).Alike Arguments.canonical (other.merge added) := by
  refine ⟨fun path => ?_, fun path name => ?_⟩
  · rw [at?_merge hdistinct, at?_merge hdistinct', Option.isSome_merge, Option.isSome_merge,
      h.ways path, hnew.ways path]
  · rw [arguments?_merge hdistinct, arguments?_merge hdistinct',
      Arguments.map_merge_newer Arguments.canonical_newer,
      Arguments.map_merge_newer Arguments.canonical_newer,
      h.arguments path name, hnew.arguments path name]

/-- **Unions of equal usages are equal.** -/
theorem Same.merge {new added : Usage} (h : usage.Same other) (hnew : new.Same added) :
    (usage.merge new).Same (other.merge added) :=
  same_iff_alike.2 ⟨h.left.merge hnew.left, h.right.merge hnew.right,
    h.alike.merge hnew.alike hnew.left hnew.right, h.nanFree.merge hnew.nanFree⟩

/-- **Parts of equal usages** are equal. -/
theorem Same.ofPart (h : usage.Same other) (typeName : String) :
    (Usage.ofPart typeName usage).Same (Usage.ofPart typeName other) := by
  refine same_iff_alike.2 ⟨distinct_stable.everywhere_ofPart typeName h.left,
    distinct_stable.everywhere_ofPart typeName h.right, alike_iff_step.2 ⟨fun _ => rfl, ?_⟩,
    h.nanFree.ofPart typeName⟩
  intro step
  cases step with
  | field name => exact Option.rel_none_none
  | part narrower =>
    unfold Usage.step? Usage.part?
    simp only [parts_ofPart, List.lookup_cons]
    cases narrower == typeName with
    | true => exact Option.rel_some_some.2 h.alike
    | false => exact Option.rel_none_none

end Usage

/-! ## Tables -/

namespace UsageTable

/-- **Tables are the same** if they are equal and no names repeat in them, as in a map. -/
structure Same (table other : UsageTable) : Prop where
  left : table.Distinct
  right : other.Distinct
  equal : (table == other) = true

variable {table other : UsageTable}

/-- Unions of tables that are alike are alike. -/
theorem Alike.mergeAll (h : table.Alike other) {observed added : UsageTable}
    (hadded : observed.Alike added) (hdistinct : observed.Distinct) (hdistinct' : added.Distinct) :
    (table.mergeAll observed).Alike (other.mergeAll added) := by
  unfold Alike
  rw [toUsage_mergeAll, toUsage_mergeAll]
  exact Usage.Alike.merge h hadded hdistinct.toUsage hdistinct'.toUsage

theorem Same.toUsage (h : table.Same other) : table.toUsage.Same other.toUsage :=
  ⟨h.left.toUsage, h.right.toUsage, by rw [← h.equal]; exact (equals_eq_toUsage table other).symm⟩

/-- A table is told from the usages that it leads to. -/
theorem same_of_toUsage (htable : table.Distinct) (hother : other.Distinct)
    (h : table.toUsage.Same other.toUsage) : table.Same other :=
  ⟨htable, hother, by rw [← h.equal]; exact equals_eq_toUsage table other⟩

theorem Same.refl (h : table.Distinct) (hnumbers : table.NanFree) : table.Same table :=
  same_of_toUsage h h (.refl h.toUsage (nanFree_toUsage.2 hnumbers))

theorem Same.trans {third : UsageTable} (h : table.Same other) (h' : other.Same third) :
    table.Same third :=
  same_of_toUsage h.left h'.right (h.toUsage.trans h'.toUsage)

/-- **Equal tables lead to equal usages**, for each type. -/
theorem Same.get? (h : table.Same other) (typeName : String) :
    Option.Rel Usage.Same (table.get? typeName) (other.get? typeName) :=
  h.toUsage.part? typeName

theorem Same.getNonEmpty? (h : table.Same other) (typeName : String) :
    Option.Rel Usage.Same (table.getNonEmpty? typeName) (other.getNonEmpty? typeName) := by
  unfold UsageTable.getNonEmpty?
  rcases Keyed.rel_cases (h.get? typeName) with ⟨husage, hknown⟩ | ⟨usage, known, husage, hknown, hsame⟩
  · rw [husage, hknown]; exact Option.rel_none_none
  · rw [husage, hknown, Option.filter_some, Option.filter_some, hsame.isEmpty_eq]
    split
    · exact Option.rel_some_some.2 hsame
    · exact Option.rel_none_none

theorem Same.isEmpty_eq (h : table.Same other) : table.isEmpty = other.isEmpty :=
  h.toUsage.isEmpty_eq

/-- **Equal usages may be added to equal tables.** -/
theorem Same.merge (h : table.Same other) {usage added : Usage} (hadded : usage.Same added)
    (typeName : String) : (table.merge typeName usage).Same (other.merge typeName added) := by
  have hmerge : ∀ (table : UsageTable) (usage : Usage),
      (table.merge typeName usage).toUsage = table.toUsage.merge (.ofPart typeName usage) := by
    intro table usage
    refine Usage.eq_of_parts ?_ ?_
    · exact (Usage.fields_addPart table.toUsage typeName usage).symm
    · exact (Usage.parts_addPart table.toUsage typeName usage).symm
  refine same_of_toUsage (h.left.merge hadded.left typeName) (h.right.merge hadded.right typeName) ?_
  rw [hmerge, hmerge]
  exact h.toUsage.merge (hadded.ofPart typeName)

/-- **And so may equal tables.** -/
theorem Same.mergeAll (h : table.Same other) {observed added : UsageTable}
    (hadded : observed.Same added) : (table.mergeAll observed).Same (other.mergeAll added) := by
  refine same_of_toUsage (h.left.mergeAll hadded.left) (h.right.mergeAll hadded.right) ?_
  rw [toUsage_mergeAll, toUsage_mergeAll]
  exact h.toUsage.merge hadded.toUsage

end UsageTable

/-! ## Equal usages as selections -/

mutual

/-- Selections of one shape, with equal arguments, and with rearranged selections beneath them. -/
inductive Selection.Rearranged : Selection → Selection → Prop
  | field {alias? name arguments others directives selections rearranged} :
    (arguments == others) = true → Selection.RearrangedAll selections rearranged →
      Selection.Rearranged (.field alias? name arguments directives selections)
        (.field alias? name others directives rearranged)
  | inline {condition? directives selections rearranged} :
    Selection.RearrangedAll selections rearranged →
      Selection.Rearranged (.inline condition? directives selections)
        (.inline condition? directives rearranged)
  | spread {fragment directives} :
    Selection.Rearranged (.spread fragment directives) (.spread fragment directives)

/-- **The same selections in another order**, and so it is beneath each of them. -/
inductive Selection.RearrangedAll : List Selection → List Selection → Prop
  | nil : Selection.RearrangedAll [] []
  | cons {selection other selections others} :
    Selection.Rearranged selection other → Selection.RearrangedAll selections others →
      Selection.RearrangedAll (selection :: selections) (other :: others)
  | perm {selections others rearranged} :
    Selection.RearrangedAll selections others → others.Perm rearranged →
      Selection.RearrangedAll selections rearranged

end

namespace Selection

/-- Rearranged selections may follow each other. -/
theorem RearrangedAll.append {first second others others' : List Selection} :
    RearrangedAll first second → RearrangedAll others others' →
      RearrangedAll (first ++ others) (second ++ others')
  | .nil, hothers => hothers
  | .cons hhead hrest, hothers => .cons hhead (hrest.append hothers)
  | .perm h hperm, hothers => .perm (h.append hothers) (hperm.append_right _)

/-- Lists of related entries stand for rearranged selections, if the second one comes in another order. -/
theorem RearrangedAll.map {α : Type} {Related : α → α → Prop} {toSelection : α → Selection}
    (hrearranged : ∀ a b, Related a b → Rearranged (toSelection a) (toSelection b))
    {first aligned second : List α} (h : List.Forall₂ Related first aligned)
    (hperm : aligned.Perm second) :
    RearrangedAll (first.map toSelection) (second.map toSelection) := by
  have haligned : RearrangedAll (first.map toSelection) (aligned.map toSelection) := by
    clear hperm
    induction h with
    | nil => exact .nil
    | cons hhead _ ih => exact .cons (hrearranged _ _ hhead) ih
  exact .perm haligned (hperm.map toSelection)

end Selection

/-- **Equal usages stand for the same selections**, in another order. -/
theorem Usage.Same.rearranged {usage other : Usage} (h : usage.Same other) :
    Selection.RearrangedAll usage.toSelections other.toSelections := by
  induction usage using Usage.induction generalizing other with
  | step usage ihFields ihParts =>
    obtain ⟨⟨hfieldNames, hpartNames⟩, -⟩ := Usage.distinct_iff.1 h.left
    obtain ⟨⟨hotherFieldNames, hotherPartNames⟩, -⟩ := Usage.distinct_iff.1 h.right
    rw [Usage.toSelections_eq, Usage.toSelections_eq]
    refine .append ?_ ?_
    · obtain ⟨aligned, haligned, hperm⟩ :=
        Keyed.exists_aligned hfieldNames hotherFieldNames h.field?
      refine .map ?_ haligned hperm
      rintro field known ⟨hfield, hname, hsame⟩
      rw [hname]
      refine .field hsame.arguments ?_
      rcases Keyed.rel_cases hsame.nested with
        ⟨hinner, hdeep⟩ | ⟨inner, deep, hinner, hdeep, hnested⟩
      · rw [hinner, hdeep]; exact .nil
      · rw [hinner, hdeep]
        exact ihFields field hfield inner hinner hnested
    · obtain ⟨aligned, haligned, hperm⟩ := Keyed.exists_aligned hpartNames hotherPartNames
        fun typeName => (Keyed.rel_lookup_iff_find? typeName).1 (h.part? typeName)
      refine .map ?_ haligned hperm
      rintro part known ⟨hpart, hname, hsame⟩
      rw [hname]
      exact .inline (ihParts part hpart hsame)

end SelectionRecall
