import SelectionRecall.Proofs.Usage.Normal

/-!
# Unions as a monoid

Usages that are put together by the operations form a monoid under union, and so do tables: it does not
matter which of several are united first, and nothing is changed by uniting nothing. This is so on the
nose, down to the order of fields, parts and types and to the arguments of each field. So observations may
be collected in batches of any size before they are united with what is known already.

* `MonoidOn`: values that fit, and form a monoid under an operation.
* `MonoidOn.foldl_eq`: values may be united with each other before the first one comes to them.
* `Usage.monoidOn_distinct`, `UsageTable.monoidOn_distinct`: usages and tables with distinct names.
* `monoidOn_built`: all that the operations build.
* `monoidOn_built_author`: a field that is seen three times.
-/

namespace SelectionRecall

/-- **Values that fit form a monoid** under union. -/
structure MonoidOn {α : Type} (Fits : α → Prop) (union : α → α → α) (nothing : α) : Prop where
  fits_nothing : Fits nothing
  fits_union : ∀ {a b}, Fits a → Fits b → Fits (union a b)
  assoc : ∀ {a b c}, Fits a → Fits b → Fits c → union (union a b) c = union a (union b c)
  nothing_union : ∀ {a}, Fits a → union nothing a = a
  union_nothing : ∀ {a}, Fits a → union a nothing = a

namespace MonoidOn

variable {α : Type} {Fits : α → Prop} {union : α → α → α} {nothing first : α} {values : List α}

/-- Fewer values form a monoid too, if unions of them are among them. -/
theorem mono (h : MonoidOn Fits union nothing) {Fewer : α → Prop} (hfewer : ∀ a, Fewer a → Fits a)
    (hnothing : Fewer nothing) (hunion : ∀ {a b}, Fewer a → Fewer b → Fewer (union a b)) :
    MonoidOn Fewer union nothing where
  fits_nothing := hnothing
  fits_union := hunion
  assoc ha hb hc := h.assoc (hfewer _ ha) (hfewer _ hb) (hfewer _ hc)
  nothing_union ha := h.nothing_union (hfewer _ ha)
  union_nothing ha := h.union_nothing (hfewer _ ha)

/-- What is united one after the other fits. -/
theorem fits_foldl (h : MonoidOn Fits union nothing) (hfirst : Fits first)
    (hvalues : ∀ a ∈ values, Fits a) : Fits (values.foldl union first) := by
  induction values generalizing first with
  | nil => exact hfirst
  | cons head rest ih =>
    obtain ⟨hhead, hrest⟩ := List.forall_mem_cons.1 hvalues
    exact ih (h.fits_union hfirst hhead) hrest

/-- **Values may be united with each other** before they are united with the first one. -/
theorem foldl_eq (h : MonoidOn Fits union nothing) (hfirst : Fits first)
    (hvalues : ∀ a ∈ values, Fits a) :
    values.foldl union first = union first (values.foldl union nothing) := by
  induction values generalizing first with
  | nil => exact (h.union_nothing hfirst).symm
  | cons head rest ih =>
    obtain ⟨hhead, hrest⟩ := List.forall_mem_cons.1 hvalues
    have hothers : Fits (rest.foldl union nothing) := h.fits_foldl h.fits_nothing hrest
    calc (head :: rest).foldl union first
      _ = union (union first head) (rest.foldl union nothing) :=
          ih (h.fits_union hfirst hhead) hrest
      _ = union first (union head (rest.foldl union nothing)) := h.assoc hfirst hhead hothers
      _ = union first ((head :: rest).foldl union nothing) := by
          rw [List.foldl_cons, h.nothing_union hhead, ih hhead hrest]

end MonoidOn

/-- Usages with distinct names form a monoid. -/
theorem Usage.monoidOn_distinct : MonoidOn Usage.Distinct Usage.merge .empty where
  fits_nothing := distinct_stable.everywhere_empty
  fits_union := .merge
  assoc {a _ _} _ hb hc := merge_assoc hb hc a
  nothing_union := empty_merge
  union_nothing {a} _ := a.merge_empty

namespace UsageTable

/-- A table is what its entries are entered in an empty one to. -/
theorem empty_mergeAll {table : UsageTable} (h : table.Distinct) : empty.mergeAll table = table := by
  have hentries : (empty.mergeAll table).entries = table.entries := by
    refine (entries_mergeEntries empty table.entries).trans ?_
    rw [Usage.mergeParts_eq_unite]
    exact Keyed.unite_nil_left h.types
  exact congrArg UsageTable.mk hentries

/-- So do tables. -/
theorem monoidOn_distinct : MonoidOn UsageTable.Distinct UsageTable.mergeAll .empty where
  fits_nothing := distinct_empty
  fits_union := .mergeAll
  assoc {a _ _} _ hb hc := (mergeAll_mergeEntries hb hc.usages a).symm
  nothing_union := empty_mergeAll
  union_nothing _ := rfl

end UsageTable

/-- **Unions form a monoid**: those of all usages that the operations build, and those of all tables. -/
theorem monoidOn_built :
    MonoidOn Usage.Built Usage.merge .empty ∧ MonoidOn UsageTable.Built UsageTable.mergeAll .empty :=
  ⟨Usage.monoidOn_distinct.mono (fun _ h => h.distinct) .empty .merge,
    UsageTable.monoidOn_distinct.mono (fun _ h => h.distinct) .empty .mergeAll⟩

/-- **A field that is seen three times**: as a leaf, with something beneath it, and with an argument. The
last two may be united first. -/
theorem monoidOn_built_author :
    let leaf := Usage.ofField (.leaf "author")
    let named := Usage.ofField (.nested "author" (.ofField (.leaf "name")))
    let sized := Usage.ofField ((FieldUse.leaf "author").withArguments [("size", .int 2)])
    let all := Usage.ofField (.mk "author" [("size", .int 2)] (some (.ofField (.leaf "name"))))
    (leaf.merge named).merge sized = all ∧ leaf.merge (named.merge sized) = all := by
  intro leaf named sized all
  have hleaf : leaf.Built := .ofField (.leaf "author")
  have hnamed : named.Built := .ofField (.nested "author" (.ofField (.leaf "name")))
  have hsized : sized.Built := .ofField (.withArguments [("size", .int 2)] (.leaf "author"))
  have hargument : sized = .ofField (.mk "author" [("size", .int 2)] none) := rfl
  have hall : (leaf.merge named).merge sized = all := by
    rw [hargument]
    simp [leaf, named, all, Usage.ofField, Usage.merge, Usage.mergeFields, Usage.mergeParts,
      Usage.mergeNested, Usage.fields, Usage.parts, Keyed.upsert, FieldUse.merge, FieldUse.leaf,
      FieldUse.nested, FieldUse.name, FieldUse.arguments, FieldUse.nested?, Arguments.newer]
  exact ⟨hall, (monoidOn_built.1.assoc hleaf hnamed hsized).symm.trans hall⟩

end SelectionRecall
