import SelectionRecall.Proofs.Usage.Built
import SelectionRecall.Proofs.Usage.Congruence
import SelectionRecall.Proofs.Usage.Nesting

/-!
# Covering is an order, and unions are joins

What a usage covers can be told from ways: a usage covers another one if each way into the other one,
and each field found there, is found in it too. A union has the ways of both usages and no others. So
covering is reflexive and transitive, and a usage covers a union just if it covers both usages: the
union is the least one that covers them. Tables are usages with a part for each type, so the same
holds of each of their entries.

All of this asks for distinct names, which whatever is built by the operations on usages and tables has.

* `Usage.Has`: a usage, or a field in it, that a path leads to.
* `Usage.Has.of_covers`, `Usage.covers_iff_has`, `Usage.has_merge`: covering and unions, told from ways.
* `Usage.covers_trans`, `Usage.covers_merge_iff`, `Usage.Same.covers`: covering as an order.
* `UsageTable.get?_mergeAll`, `UsageTable.CoversAt`: tables, entry by entry.
* `Joined`, `joined_built`: an order in which unions are joins, and that covering is one.
* `joined_built_todo`: two usages, of which neither covers their union.
-/

namespace SelectionRecall

namespace Usage

/-! ## Ways -/

/-- The path leads to a usage in this one, which has the field if one is asked for. -/
def Has (usage : Usage) (path : List Step) (field? : Option String) : Prop :=
  ∃ inner, usage.at? path = some inner ∧
    ∀ name, field? = some name → (inner.field? name).isSome = true

variable {usage other : Usage}

theorem has_nil_none : usage.Has [] none := ⟨usage, rfl, by simp⟩

theorem has_nil_some {name : String} :
    usage.Has [] (some name) ↔ (usage.field? name).isSome = true := by
  simp [Has, Usage.at?]

/-- A longer path goes on from where its first step leads. -/
theorem has_cons {step : Step} {rest : List Step} {field? : Option String} :
    usage.Has (step :: rest) field? ↔
      ∃ inner, usage.step? step = some inner ∧ inner.Has rest field? := by
  unfold Has
  rw [Usage.at?]
  cases usage.step? step <;> simp

/-- A usage has the ways of all that it covers. -/
theorem Has.of_covers {path : List Step} {field? : Option String} (h : other.Has path field?)
    (hcovers : usage.covers other = true) : usage.Has path field? := by
  induction path generalizing usage other with
  | nil =>
    cases field? with
    | none => exact has_nil_none
    | some name => exact has_nil_some.2 ((step_of_covers hcovers).1 name (has_nil_some.1 h))
  | cons step rest ih =>
    obtain ⟨inner, hinner, hrest⟩ := has_cons.1 h
    obtain ⟨known, hknown, hinnerCovers⟩ := (step_of_covers hcovers).2 step inner hinner
    exact has_cons.2 ⟨known, hknown, ih hrest hinnerCovers⟩

/-- **A usage covers another one** just if it has every way of it. -/
theorem covers_iff_has (hother : other.Distinct) :
    usage.covers other = true ↔ ∀ path field?, other.Has path field? → usage.Has path field? := by
  refine ⟨fun hcovers path field? h => h.of_covers hcovers, ?_⟩
  induction other using step_induction generalizing usage with
  | step other ih =>
    intro hways
    rw [covers_iff_step hother]
    refine ⟨fun name hname => has_nil_some.1 (hways [] (some name) (has_nil_some.2 hname)), ?_⟩
    intro step inner hinner
    have hway := hways [step] none (has_cons.2 ⟨inner, hinner, has_nil_none⟩)
    obtain ⟨known, hknown, -⟩ := has_cons.1 hway
    refine ⟨known, hknown, ih step inner hinner (hother.step? hinner) ?_⟩
    intro path field? hhas
    have hlonger := hways (step :: path) field? (has_cons.2 ⟨inner, hinner, hhas⟩)
    obtain ⟨same, hsame, hfound⟩ := has_cons.1 hlonger
    rw [hknown, Option.some.injEq] at hsame
    exact hsame ▸ hfound

/-- **A union has the ways of both usages**, and no others. -/
theorem has_merge {old new : Usage} (hnew : new.Distinct) {path : List Step} {field? : Option String} :
    (old.merge new).Has path field? ↔ old.Has path field? ∨ new.Has path field? := by
  unfold Has
  rw [at?_merge hnew]
  cases hadded : new.at? path with
  | none => cases old.at? path <;> simp
  | some added =>
    cases old.at? path with
    | none => simp
    | some known =>
      cases field? with
      | none => simp
      | some name => simp [field?_merge (hnew.at? hadded) known]

/-! ## Covering as an order -/

/-- Covering is transitive. -/
theorem covers_trans {first second third : Usage} (hsecond : second.Distinct) (hthird : third.Distinct)
    (h : first.covers second = true) (h' : second.covers third = true) :
    first.covers third = true := by
  rw [covers_iff_has hsecond] at h
  rw [covers_iff_has hthird] at h' ⊢
  exact fun path field? hhas => h path field? (h' path field? hhas)

/-- **A usage covers a union** just if it covers both usages. -/
theorem covers_merge_iff {old new : Usage} (hold : old.Distinct) (hnew : new.Distinct) :
    usage.covers (old.merge new) = true ↔ usage.covers old = true ∧ usage.covers new = true := by
  rw [covers_iff_has (hold.merge hnew), covers_iff_has hold, covers_iff_has hnew]
  simp only [has_merge hnew, or_imp, forall_and]

/-- Equal usages cover each other. -/
theorem Same.covers (h : usage.Same other) :
    usage.covers other = true ∧ other.covers usage = true := by
  constructor
  · rw [h.covers_left h.right]; exact covers_self h.right
  · rw [h.symm.covers_left h.left]; exact covers_self h.left

end Usage

/-! ## Tables -/

namespace UsageTable

/-- The table covers the entry that the other one has for this type, if it has one. -/
def CoversAt (table other : UsageTable) (typeName : String) : Prop :=
  ∀ usage, other.get? typeName = some usage → table.Covers typeName usage

/-- **The entry of a type in united tables** is that of one of them, or both entries united. -/
theorem get?_mergeAll {other : UsageTable} (hother : other.Distinct) (table : UsageTable)
    (typeName : String) :
    (table.mergeAll other).get? typeName =
      Option.merge Usage.merge (table.get? typeName) (other.get? typeName) := by
  have hpart := Usage.part?_merge hother.toUsage table.toUsage typeName
  rw [← toUsage_mergeAll] at hpart
  exact hpart

variable {table other third : UsageTable} {typeName : String}

theorem coversAt_self (h : table.Distinct) : table.CoversAt table typeName :=
  fun usage husage => ⟨usage, husage, Usage.covers_self (h.of_get? husage)⟩

theorem CoversAt.trans (hother : other.Distinct) (hthird : third.Distinct)
    (h : table.CoversAt other typeName) (h' : other.CoversAt third typeName) :
    table.CoversAt third typeName := by
  intro usage husage
  obtain ⟨between, hbetween, hcovers'⟩ := h' usage husage
  obtain ⟨known, hknown, hcovers⟩ := h between hbetween
  exact ⟨known, hknown,
    Usage.covers_trans (hother.of_get? hbetween) (hthird.of_get? husage) hcovers hcovers'⟩

/-- **A table covers an entry of united tables** just if it covers those of both. -/
theorem coversAt_mergeAll_iff (hother : other.Distinct) (hthird : third.Distinct) :
    table.CoversAt (other.mergeAll third) typeName ↔
      table.CoversAt other typeName ∧ table.CoversAt third typeName := by
  unfold CoversAt
  rw [get?_mergeAll hthird]
  cases hfirst : other.get? typeName with
  | none => simp
  | some first =>
    cases hsecond : third.get? typeName with
    | none => simp
    | some second =>
      simp only [Option.merge, Option.some.injEq, forall_eq']
      unfold Covers
      simp only [Usage.covers_merge_iff (hother.of_get? hfirst) (hthird.of_get? hsecond)]
      constructor
      · rintro ⟨known, hknown, hcovers⟩
        exact ⟨⟨known, hknown, hcovers.1⟩, known, hknown, hcovers.2⟩
      · rintro ⟨⟨known, hknown, hcovers⟩, same, hsame, hcovers'⟩
        rw [hknown, Option.some.injEq] at hsame
        exact ⟨known, hknown, hcovers, hsame ▸ hcovers'⟩

/-- Equal tables cover each other's entries. -/
theorem Same.coversAt (h : table.Same other) :
    table.CoversAt other typeName ∧ other.CoversAt table typeName := by
  unfold CoversAt Covers
  rcases Keyed.rel_cases (h.get? typeName) with ⟨husage, hknown⟩ | ⟨usage, known, husage, hknown, hsame⟩
  · rw [husage, hknown]; simp
  · rw [husage, hknown]; simp [hsame.covers]

end UsageTable

/-! ## Unions as joins -/

/-- Among values that fit covering is reflexive and transitive, what covers a union is what covers both
values in it, and equal values cover each other. -/
structure Joined {α : Type} [BEq α] (Fits : α → Prop) (union : α → α → α) (Covers : α → α → Prop) :
    Prop where
  refl : ∀ {a}, Fits a → Covers a a
  trans : ∀ {a b c}, Fits a → Fits b → Fits c → Covers a b → Covers b c → Covers a c
  union_iff : ∀ {a b c}, Fits a → Fits b → Fits c → (Covers c (union a b) ↔ Covers c a ∧ Covers c b)
  equal : ∀ {a b}, Fits a → Fits b → (a == b) = true → Covers a b ∧ Covers b a

/-- **Unions are joins for covering**: those of usages, and in each entry those of tables. -/
theorem joined_built :
    (Joined Usage.Built Usage.merge fun usage other => usage.covers other = true) ∧
      ∀ typeName, Joined UsageTable.Built UsageTable.mergeAll fun table other =>
        table.CoversAt other typeName := by
  refine ⟨⟨?_, ?_, ?_, ?_⟩, fun typeName => ⟨?_, ?_, ?_, ?_⟩⟩
  · exact fun ha => Usage.covers_self ha.distinct
  · exact fun _ hb hc => Usage.covers_trans hb.distinct hc.distinct
  · exact fun ha hb _ => Usage.covers_merge_iff ha.distinct hb.distinct
  · exact fun ha hb hequal => Usage.Same.covers ⟨ha.distinct, hb.distinct, hequal⟩
  · exact fun ha => UsageTable.coversAt_self ha.distinct
  · exact fun _ hb hc => UsageTable.CoversAt.trans hb.distinct hc.distinct
  · exact fun ha hb _ => UsageTable.coversAt_mergeAll_iff ha.distinct hb.distinct
  · exact fun ha hb hequal => UsageTable.Same.coversAt ⟨ha.distinct, hb.distinct, hequal⟩

/-- **A usage of two leaves covers the union of them** in the other order, and neither of them does. -/
theorem joined_built_todo :
    let id := Usage.empty.addField (.leaf "id")
    let title := Usage.empty.addField (.leaf "title")
    (id.addField (.leaf "title")).covers (title.merge id) = true ∧
      id.covers (title.merge id) = false ∧ title.covers (title.merge id) = false := by
  intro id title
  have hid : id.Built := .addField .empty (.leaf "id")
  have htitle : title.Built := .addField .empty (.leaf "title")
  have hboth : (id.addField (.leaf "title")).Built := .addField hid (.leaf "title")
  refine ⟨?_, ?_, ?_⟩
  · exact (joined_built.1.union_iff htitle hid hboth).2 ⟨by decide +kernel, by decide +kernel⟩
  · have hmissing : id.covers title = false := by decide +kernel
    refine Bool.eq_false_iff.2 fun hcovers => ?_
    rw [((joined_built.1.union_iff htitle hid hid).1 hcovers).1] at hmissing
    exact Bool.noConfusion hmissing
  · have hmissing : title.covers id = false := by decide +kernel
    refine Bool.eq_false_iff.2 fun hcovers => ?_
    rw [((joined_built.1.union_iff htitle hid htitle).1 hcovers).2] at hmissing
    exact Bool.noConfusion hmissing

end SelectionRecall
