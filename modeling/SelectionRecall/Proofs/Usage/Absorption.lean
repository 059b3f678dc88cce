import Mathlib.Data.List.Dedup
import SelectionRecall.Proofs.Usage.Covering
import SelectionRecall.Proofs.Usage.Monoid

/-!
# What is absorbed

A usage absorbs another one if a union with it changes nothing but arguments. The union grows from the
usage, so that names keep their places and new ones come behind them. Where the other usage has no way
that the usage does not have, nothing comes behind. So a usage absorbs just what it covers.

An observation that is made again later makes the earlier one superfluous, whatever was observed in
between: it has the same ways, and its arguments count instead. Only the order of names may differ. So of
observations that are repeated the last ones alone give a table that is like that of all of them, and equal
to it where all floats are numbers.

* `Keyed.map_eq_map_of_keys`: lists with the same keys and with entries that look alike.
* `Usage.withoutArguments_eq_of_step`: usages with the same names, step by step.
* `Usage.Grows.withoutArguments_eq`: growth without new ways is none but in arguments.
* `Usage.has_withoutArguments`: arguments do not matter for ways.
* `Usage.covers_iff_withoutArguments_merge`: covering as absorption.
* `Usage.covers_iff_withoutArguments_merge_author`: an author who is covered, and one who is not.
* `Usage.Alike.absorbed`, `UsageTable.Alike.absorbed`: an observation that is made again.
* `UsageTable.alike_foldl_pwFilter`: several observations, some of them again and again.
* `UsageTable.beq_foldl_mergeAll_dedup`: the last occurrence of each of them is enough.
* `UsageTable.beq_foldl_mergeAll_dedup_author`: an observation that is made again after another one.
-/

namespace SelectionRecall

/-- Lists with the same keys look alike, if entries of one key do. -/
theorem Keyed.map_eq_map_of_keys {α β : Type} {keyOf : α → String} {view : α → β}
    {first second : List α} (hkeys : first.map keyOf = second.map keyOf)
    (hview : ∀ a ∈ first, ∀ b ∈ second, keyOf a = keyOf b → view a = view b) :
    first.map view = second.map view := by
  induction first generalizing second with
  | nil => rw [List.map_eq_nil_iff.1 hkeys.symm]
  | cons a rest ih =>
    obtain ⟨b, others, rfl, hkey, hothers⟩ := List.map_eq_cons_iff.1 hkeys.symm
    have hhead : view a = view b := hview a List.mem_cons_self b List.mem_cons_self hkey.symm
    have hrest : rest.map view = others.map view := ih hothers.symm fun a ha b hb =>
      hview a (List.mem_cons_of_mem _ ha) b (List.mem_cons_of_mem _ hb)
    rw [List.map_cons, List.map_cons, hhead, hrest]

namespace Usage

variable {usage other older newer : Usage} {path : List Step} {field? : Option String}

/-- **Usages are the same but for arguments** if they have the same names in the same order, and each step
leads to usages that are the same but for arguments. -/
theorem withoutArguments_eq_of_step (husage : usage.Distinct) (hother : other.Distinct)
    (hfields : usage.fieldNames = other.fieldNames) (hparts : usage.partNames = other.partNames)
    (hstep : ∀ step,
      (usage.step? step).map withoutArguments = (other.step? step).map withoutArguments) :
    usage.withoutArguments = other.withoutArguments := by
  refine eq_of_parts ?_ ?_
  · rw [fields_withoutArguments, fields_withoutArguments]
    refine Keyed.map_eq_map_of_keys hfields fun field hfield known hknown hname => ?_
    have hnested := hstep (.field field.name)
    rw [husage.step?_field_eq hfield, hname, hother.step?_field_eq hknown] at hnested
    rw [hname, hnested]
  · rw [parts_withoutArguments, parts_withoutArguments]
    refine Keyed.map_eq_map_of_keys hparts fun part hpart known hknown hname => ?_
    have hinner := hstep (.part part.1)
    rw [husage.step?_part hpart, hname, hother.step?_part hknown] at hinner
    exact Prod.ext hname (Option.some.inj hinner)

/-- Names that stand first are all names, if no others are there. -/
theorem names_eq_of_isPrefix {first second : List String} (hfirst : first <+: second)
    (hsecond : second.Nodup) (hsubset : second ⊆ first) : second = first :=
  (hfirst.eq_of_length_le (hsecond.subperm hsubset).length_le).symm

/-- **Growth without new ways** is none but in arguments. -/
theorem Grows.withoutArguments_eq (h : older.Grows newer) (holder : older.Distinct)
    (hnewer : newer.Distinct)
    (hways : ∀ path field?, newer.Has path field? → older.Has path field?) :
    newer.withoutArguments = older.withoutArguments := by
  induction older using step_induction generalizing newer with
  | step older ih =>
    obtain ⟨⟨hfieldNames, hpartNames⟩, -⟩ := distinct_iff.1 hnewer
    obtain ⟨_, hself, hfirst⟩ := h [] older rfl
    cases hself
    refine withoutArguments_eq_of_step hnewer holder ?_ ?_ fun step => ?_
    · refine names_eq_of_isPrefix hfirst.fields hfieldNames fun name hname => ?_
      have hway := hways [] (some name) (has_nil_some.2 (Keyed.mem_map_iff.1 hname))
      exact Keyed.mem_map_iff.2 (has_nil_some.1 hway)
    · refine names_eq_of_isPrefix hfirst.parts hpartNames fun typeName hname => ?_
      obtain ⟨part, hpart, rfl⟩ := List.mem_map.1 hname
      have hway := hways [.part part.1] none
        (has_cons.2 ⟨part.2, hnewer.step?_part hpart, has_nil_none⟩)
      obtain ⟨inner, hinner, -⟩ := has_cons.1 hway
      exact List.mem_map.2 ⟨(part.1, inner), Keyed.mem_of_lookup hinner, rfl⟩
    · cases hinner : older.step? step with
      | none =>
        -- a step that leads on only afterwards would be a new way
        cases hgrown : newer.step? step with
        | none => rfl
        | some grown =>
          obtain ⟨inner, hsome, -⟩ := has_cons.1
            (hways [step] none (has_cons.2 ⟨grown, hgrown, has_nil_none⟩))
          rw [hinner] at hsome
          cases hsome
      | some inner =>
        obtain ⟨grown, hgrown, hgrows⟩ := h.step hinner
        rw [hgrown, Option.map_some, Option.map_some]
        refine congrArg some (ih step inner hinner hgrows (holder.step? hinner)
          (hnewer.step? hgrown) fun path field? hhas => ?_)
        obtain ⟨same, hsame, hfound⟩ := has_cons.1
          (hways (step :: path) field? (has_cons.2 ⟨grown, hgrown, hhas⟩))
        rw [hinner, Option.some.injEq] at hsame
        exact hsame ▸ hfound

/-- Arguments do not matter for ways. -/
theorem has_withoutArguments : usage.withoutArguments.Has path field? ↔ usage.Has path field? := by
  unfold Has
  rw [at?_withoutArguments]
  cases usage.at? path with
  | none => simp
  | some inner => simp [field?_withoutArguments]

/-- **A usage covers just what it absorbs**: what it covers changes nothing in it but arguments when it is
united with it, and what changes nothing else is covered. Names and parts stay at every depth, in their
order. -/
theorem covers_iff_withoutArguments_merge (husage : usage.Built) (hother : other.Built) :
    usage.covers other = true ↔
      (usage.merge other).withoutArguments = usage.withoutArguments := by
  have hunion : (usage.merge other).Distinct := husage.distinct.merge hother.distinct
  calc usage.covers other = true
    _ ↔ ∀ path field?, other.Has path field? → usage.Has path field? :=
        covers_iff_has hother.distinct
    _ ↔ ∀ path field?, (usage.merge other).Has path field? → usage.Has path field? := by
        simp only [has_merge hother.distinct, or_imp, imp_self, true_and]
    _ ↔ (usage.merge other).withoutArguments = usage.withoutArguments := by
        refine ⟨(grows_merge usage other).withoutArguments_eq husage.distinct hunion, ?_⟩
        intro hsame path field? hhas
        rwa [← has_withoutArguments, ← hsame, has_withoutArguments]

/-- **An author who is covered but for an argument**, and one with nothing beneath. The first union changes
the argument alone. The second one is not of the same shape as the leaf that it starts from. -/
theorem covers_iff_withoutArguments_merge_author :
    let sized := fun (size : Int) (usage : Usage) =>
      Usage.ofField ((FieldUse.nested "author" usage).withArguments [("size", .int size)])
    let known := sized 1 ((Usage.ofField (.leaf "id")).addField (.leaf "name"))
    let observed := sized 2 (.ofField (.leaf "name"))
    let leaf := Usage.ofField (.leaf "author")
    let nothing := Usage.ofField (.nested "author" .empty)
    known.Built ∧ observed.Built ∧ known.covers observed = true ∧
      (known.merge observed).withoutArguments = known.withoutArguments ∧
      (known.merge observed == known) = false ∧
      leaf.Built ∧ nothing.Built ∧ leaf.covers nothing = false ∧
      (leaf.merge nothing).withoutArguments ≠ leaf.withoutArguments := by
  intro sized known observed leaf nothing
  have hsized : ∀ size {usage : Usage}, usage.Built → (sized size usage).Built :=
    fun size _ h => .ofField (.withArguments [("size", .int size)] (.nested "author" h))
  have hknown : known.Built := hsized 1 (.addField (.ofField (.leaf "id")) (.leaf "name"))
  have hobserved : observed.Built := hsized 2 (.ofField (.leaf "name"))
  have hleaf : leaf.Built := .ofField (.leaf "author")
  have hnothing : nothing.Built := .ofField (.nested "author" .empty)
  have hcovers : known.covers observed = true := by decide +kernel
  have hmisses : leaf.covers nothing = false := by decide +kernel
  refine ⟨hknown, hobserved, hcovers, (covers_iff_withoutArguments_merge hknown hobserved).1 hcovers,
    by decide +kernel, hleaf, hnothing, hmisses, fun hsame => ?_⟩
  rw [(covers_iff_withoutArguments_merge hleaf hnothing).2 hsame] at hmisses
  cases hmisses

end Usage

/-! ## Observations that are made again -/

/-- Arguments that come again later need not come before. -/
theorem Arguments.merge_newer_absorbed (known? between? : Option Arguments) :
    Option.merge newer (Option.merge newer known? between?) known? =
      Option.merge newer between? known? := by
  cases known? with
  | none => cases between? <;> rfl
  | some known => cases between? with
    | none => cases known <;> rfl
    | some between => cases known <;> cases between <;> rfl

/-- **A usage that comes again later** need not come before, whatever comes in between. -/
theorem Usage.Alike.absorbed {usage later between : Usage} (h : usage.Alike Arguments.canonical later)
    (hlater : later.Distinct) (hbetween : between.Distinct) :
    ((usage.merge between).merge later).Alike Arguments.canonical (between.merge later) := by
  refine ⟨fun path => ?_, fun path name => ?_⟩
  · rw [at?_merge hlater, at?_merge hbetween, at?_merge hlater, Option.isSome_merge,
      Option.isSome_merge, Option.isSome_merge, h.ways path]
    cases (later.at? path).isSome <;> simp
  · simp only [arguments?_merge hlater, arguments?_merge hbetween,
      Arguments.map_merge_newer Arguments.canonical_newer, h.arguments path name,
      Arguments.merge_newer_absorbed]

namespace UsageTable

variable {store table other later between : UsageTable} {tables : List UsageTable}

/-- So it is with tables. -/
theorem Alike.absorbed (h : table.Alike later) (hlater : later.Distinct) (hbetween : between.Distinct) :
    ((table.mergeAll between).mergeAll later).Alike (between.mergeAll later) := by
  unfold Alike
  simp only [toUsage_mergeAll]
  exact Usage.Alike.absorbed h hlater.toUsage hbetween.toUsage

/-- Tables that are alike stay so when the same is observed. -/
theorem Alike.foldl_mergeAll (h : table.Alike other) (htables : ∀ table ∈ tables, table.Distinct) :
    (tables.foldl UsageTable.mergeAll table).Alike (tables.foldl UsageTable.mergeAll other) := by
  induction tables generalizing table other with
  | nil => exact h
  | cons head rest ih =>
    obtain ⟨hhead, hrest⟩ := List.forall_mem_cons.1 htables
    exact ih (h.mergeAll (.refl head) hhead hhead) hrest

/-- **What is observed again later** need not be observed now. -/
theorem alike_foldl_mergeAll_of_mem (hstore : store.Distinct)
    (htables : ∀ table ∈ tables, table.Distinct) (htable : table.Distinct) (halike : table.Alike later)
    (hlater : later ∈ tables) :
    (tables.foldl mergeAll (store.mergeAll table)).Alike (tables.foldl mergeAll store) := by
  have hagain : later.Distinct := htables later hlater
  obtain ⟨before, after, rfl⟩ := List.append_of_mem hlater
  obtain ⟨hbefore, hafter⟩ := List.forall_mem_append.1 htables
  obtain ⟨-, hafter⟩ := List.forall_mem_cons.1 hafter
  have monoid := monoidOn_distinct
  have hjoined := hstore.mergeAll htable
  let between := before.foldl mergeAll .empty
  have hbetween : between.Distinct := monoid.fits_foldl distinct_empty hbefore
  -- what comes in between is united first, so that the table stands next to it
  have hfirst : (before.foldl mergeAll (store.mergeAll table)).mergeAll later =
      store.mergeAll ((table.mergeAll between).mergeAll later) := by
    rw [monoid.foldl_eq hjoined hbefore, monoid.assoc hstore htable hbetween,
      monoid.assoc hstore (htable.mergeAll hbetween) hagain]
  have hsecond : (before.foldl mergeAll store).mergeAll later =
      store.mergeAll (between.mergeAll later) := by
    rw [monoid.foldl_eq hstore hbefore, monoid.assoc hstore hbetween hagain]
  rw [List.foldl_append, List.foldl_append, List.foldl_cons, List.foldl_cons, hfirst, hsecond]
  exact ((Alike.refl store).mergeAll (halike.absorbed hagain hbetween) ((htable.mergeAll hbetween).mergeAll hagain)
    (hbetween.mergeAll hagain)).foldl_mergeAll hafter

/-- **Observations of which some are made again**: those that are like a later one may be left out. -/
theorem alike_foldl_pwFilter (hstore : store.Distinct) (htables : ∀ table ∈ tables, table.Distinct)
    {Differs : UsageTable → UsageTable → Prop} [DecidableRel Differs]
    (hdiffers : ∀ table ∈ tables, ∀ later ∈ tables, ¬ Differs table later → table.Alike later) :
    (tables.foldl mergeAll store).Alike ((tables.pwFilter Differs).foldl mergeAll store) := by
  induction tables generalizing store with
  | nil => exact .refl store
  | cons head rest ih =>
    obtain ⟨hhead, hrest⟩ := List.forall_mem_cons.1 htables
    have hothers : ∀ table ∈ rest, ∀ later ∈ rest, ¬ Differs table later → table.Alike later :=
      fun table htable later hlater =>
        hdiffers table (List.mem_cons_of_mem _ htable) later (List.mem_cons_of_mem _ hlater)
    by_cases hnew : ∀ later ∈ rest.pwFilter Differs, Differs head later
    · rw [List.pwFilter_cons_of_pos hnew]
      exact ih (hstore.mergeAll hhead) hrest hothers
    · rw [List.pwFilter_cons_of_neg hnew]
      push Not at hnew
      obtain ⟨later, hkept, hrepeated⟩ := hnew
      have hlater : later ∈ rest := List.pwFilter_subset rest hkept
      have halike := hdiffers head List.mem_cons_self later (List.mem_cons_of_mem _ hlater) hrepeated
      exact Usage.Alike.trans (alike_foldl_mergeAll_of_mem hstore hrest hhead halike hlater)
        (ih hstore hrest hothers)

/-- **Only the last occurrence of each observation matters.** Leave out all but the last occurrence of each
of them, be it of observations that are the same or of those that are equal.

* If all floats in the store and in the observations are numbers, the table that is left is equal to that of
  all observations.
* So it makes no difference then to observe something twice in a row.
* With whatever floats the tables are alike, and they are equal just if all floats in the table of all
  observations are numbers. A table with another float is not even equal to itself. -/
theorem beq_foldl_mergeAll_dedup [DecidableEq UsageTable] (hstore : store.Built)
    (htables : ∀ table ∈ tables, table.Built) :
    let all := tables.foldl mergeAll store
    let others := tables.dedup.foldl mergeAll store
    let unequal := (tables.pwFilter fun table later => ¬ (table == later) = true).foldl mergeAll store
    (store.NanFree → (∀ table ∈ tables, table.NanFree) →
        (all == others) = true ∧ (all == unequal) = true) ∧
      (∀ table, table.Built → store.NanFree → table.NanFree →
        ((store.mergeAll table).mergeAll table == store.mergeAll table) = true) ∧
      (all.Alike others ∧ ((all == others) = true ↔ all.NanFree)) ∧
      (all.Alike unequal ∧ ((all == unequal) = true ↔ all.NanFree)) ∧
      ∀ table, table.Built → ((store.mergeAll table).mergeAll table).Alike (store.mergeAll table) := by
  intro all others unequal
  have hdistinct : ∀ table ∈ tables, table.Distinct := fun table htable => (htables table htable).distinct
  have hfolded : ∀ {tables : List UsageTable}, (∀ table ∈ tables, table.Distinct) →
      (tables.foldl mergeAll store).Distinct := monoidOn_distinct.fits_foldl hstore.distinct
  have hothers : all.Alike others := by
    refine alike_foldl_pwFilter hstore.distinct hdistinct fun table _ later _ hsame => ?_
    rw [not_not.1 hsame]
    exact .refl later
  have hunequal : all.Alike unequal := by
    refine alike_foldl_pwFilter hstore.distinct hdistinct fun table htable later hlater hsame => ?_
    exact ((beq_iff (hdistinct table htable) (hdistinct later hlater)).1 (not_not.1 hsame)).1
  have hequal : ∀ {kept : List UsageTable}, kept ⊆ tables → all.Alike (kept.foldl mergeAll store) →
      ((all == kept.foldl mergeAll store) = true ↔ all.NanFree) := by
    intro kept hkept halike
    rw [beq_iff (hfolded hdistinct) (hfolded fun table htable => hdistinct table (hkept htable)),
      and_iff_right halike]
  have hequalOthers := hequal (List.dedup_subset tables) hothers
  have hequalUnequal := hequal (List.pwFilter_subset tables) hunequal
  have htwice : ∀ table, table.Built →
      ((store.mergeAll table).mergeAll table).Alike (store.mergeAll table) := by
    intro table htable
    have hown : ∀ later ∈ [table], later.Distinct := by simpa using htable.distinct
    exact alike_foldl_mergeAll_of_mem hstore.distinct hown htable.distinct
      (.refl table) (List.mem_singleton_self table)
  refine ⟨?_, ?_, ⟨hothers, hequalOthers⟩, ⟨hunequal, hequalUnequal⟩, htwice⟩
  · intro hnumbers hobserved
    have hall : all.NanFree := hnumbers.foldl_mergeAll hobserved
    exact ⟨hequalOthers.2 hall, hequalUnequal.2 hall⟩
  · intro table htable hnumbers hobserved
    have hjoined := hstore.distinct.mergeAll htable.distinct
    exact (beq_iff (hjoined.mergeAll htable.distinct) hjoined).2
      ⟨htwice table htable, (hnumbers.mergeAll hobserved).mergeAll hobserved⟩

/-- **An observation that is made again** after one with another argument. It is enough to make it the
second time, and not enough to make it the first time. If its argument is not a number, the table of one
observation is not equal to that of two, but it is like it. -/
theorem beq_foldl_mergeAll_dedup_author :
    let observed := fun size : Value => UsageTable.empty.merge "Note"
      (.ofField ((FieldUse.leaf "author").withArguments [("size", size)]))
    let small := observed (.int 1)
    let large := observed (.int 2)
    let odd := observed (.float .nan)
    empty.Built ∧ empty.NanFree ∧ (∀ table ∈ [small, large, small], table.Built ∧ table.NanFree) ∧
      ([small, large, small].foldl mergeAll .empty == [large, small].foldl mergeAll .empty) = true ∧
      ([small, large, small].foldl mergeAll .empty == [small, large].foldl mergeAll .empty) = false ∧
      odd.Built ∧ ((empty.mergeAll odd).mergeAll odd == empty.mergeAll odd) = false ∧
      ((empty.mergeAll odd).mergeAll odd).Alike (empty.mergeAll odd) := by
  classical
  intro observed small large odd
  have hobserved : ∀ size, (observed size).Built := fun size =>
    .merge "Note" .empty (.ofField (.withArguments [("size", size)] (.leaf "author")))
  have hsmall : small.Built := hobserved (.int 1)
  have hlarge : large.Built := hobserved (.int 2)
  have hodd : odd.Built := hobserved (.float .nan)
  have htables : ∀ table ∈ [small, large, small], table.Built := by simp [hsmall, hlarge]
  have hnumbers : ∀ table ∈ [small, large, small], table.NanFree := by
    have hself : (small == small) = true ∧ (large == large) = true := by decide +kernel
    simp [nanFree_iff_beq_self hsmall.distinct, nanFree_iff_beq_self hlarge.distinct, hself]
  have hempty : empty.NanFree := by simp [NanFree, empty]
  obtain ⟨hequal, -⟩ := beq_foldl_mergeAll_dedup .empty htables
  have hlast : ([small, large, small].pwFilter fun table later => ¬ (table == later) = true) =
      [large, small] := by
    have hdiffer : [large, small].Pairwise fun table later => ¬ (table == later) = true := by
      decide +kernel
    have hkept := List.pwFilter_eq_self.2 hdiffer
    rw [List.pwFilter_cons_of_neg (by rw [hkept]; decide +kernel), hkept]
  rw [hlast] at hequal
  obtain ⟨-, -, -, -, htwice⟩ := beq_foldl_mergeAll_dedup .empty htables
  exact ⟨.empty, hempty, fun table htable => ⟨htables table htable, hnumbers table htable⟩,
    (hequal hempty hnumbers).2, by decide +kernel, hodd, by decide +kernel, htwice odd hodd⟩

end UsageTable

end SelectionRecall
