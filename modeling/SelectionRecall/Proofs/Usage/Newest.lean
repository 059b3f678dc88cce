import Mathlib.Data.List.Induction
import SelectionRecall.Proofs.Usage.Built
import SelectionRecall.Proofs.Usage.Congruence

/-!
# Unions path by path

What several usages are united to can be said without recursion. A path leads to a field or to a part just
if it does in one of the usages. The field there is the union of the fields that they record at the path, in
their order: something is beneath it if something is beneath one of these, and its arguments are the last
ones among them that are not empty. Nothing else is there, as two usages of which all this holds are alike.

* `Arguments.lastGiven`: the last arguments that are not empty.
* `Usage.recordedAt`: the fields that usages record at a path.
* `FieldUse.unite?`, `Usage.fieldAt?_foldl_merge`: the field that united usages have there.
* `Usage.UnitedFrom`: a usage is, path by path, what others are united to.
* `Usage.UnitedFrom.alike`: this says all but the order of names.
* `Usage.unitedFrom_foldl_merge`: it holds of usages that are united one after the other.
* `Usage.unitedFrom_foldl_merge_author`: four observations of an author.
-/

namespace SelectionRecall

namespace Arguments

/-- The last of these arguments that are not empty, or empty ones if all of them are. -/
def lastGiven (recorded : List Arguments) : Arguments :=
  (recorded.filter fun arguments => !arguments.isEmpty).getLastD []

theorem lastGiven_append_singleton (recorded : List Arguments) (newest : Arguments) :
    lastGiven (recorded ++ [newest]) = (lastGiven recorded).newer newest := by
  unfold lastGiven
  rw [List.filter_append]
  cases newest <;> simp [newer]

/-- Of arguments that are united one after the other the last ones count that are not empty. -/
theorem foldl_newer (recorded : List Arguments) : recorded.foldl newer [] = lastGiven recorded := by
  induction recorded using List.reverseRecOn with
  | nil => rfl
  | append_singleton before newest ih =>
    rw [List.foldl_concat, ih, lastGiven_append_singleton]

end Arguments

namespace FieldUse

/-- Uses of a field, united one after the other. -/
def unite? : List FieldUse → Option FieldUse
  | [] => none
  | first :: rest => some (rest.foldl merge first)

theorem isSome_unite? (fields : List FieldUse) :
    (unite? fields).isSome = true ↔ ∃ field, field ∈ fields := by
  cases fields with
  | nil => simp [unite?]
  | cons first rest => simp [unite?]

variable {fields : List FieldUse} {field : FieldUse}

/-- Something is beneath united uses of a field if something is beneath one of them. -/
theorem isSome_nested?_of_unite? (h : unite? fields = some field) :
    field.nested?.isSome = true ↔ ∃ recorded ∈ fields, recorded.nested?.isSome = true := by
  cases fields with
  | nil => cases h
  | cons first rest =>
    rw [← Option.some.inj h]
    clear h
    induction rest generalizing first with
    | nil => simp
    | cons head rest ih =>
      rw [List.foldl_cons, ih]
      simp only [List.mem_cons, exists_eq_or_imp, nested?_merge, Option.isSome_merge, Bool.or_eq_true,
        or_assoc]

/-- Their arguments are the last ones that are not empty. -/
theorem arguments_of_unite? (h : unite? fields = some field) :
    field.arguments = Arguments.lastGiven (fields.map arguments) := by
  cases fields with
  | nil => cases h
  | cons first rest =>
    have hfold : (rest.foldl merge first).arguments =
        (rest.map arguments).foldl Arguments.newer first.arguments := by
      clear h
      induction rest generalizing first with
      | nil => rfl
      | cons head rest ih => rw [List.foldl_cons, ih, arguments_merge]; rfl
    have hfirst : Arguments.newer [] first.arguments = first.arguments := by
      cases first.arguments <;> rfl
    rw [← Option.some.inj h, hfold, ← Arguments.foldl_newer, List.map_cons, List.foldl_cons, hfirst]

end FieldUse

namespace Usage

/-! ## Fields at paths -/

/-- The fields of this name that usages record at the path, in the order of the usages. -/
def recordedAt (usages : List Usage) (path : List Step) (name : String) : List FieldUse :=
  usages.filterMap fun usage => usage.fieldAt? path name

variable {usages : List Usage} {usage other : Usage} {path : List Step} {name typeName : String}

theorem mem_recordedAt {field : FieldUse} :
    field ∈ recordedAt usages path name ↔ ∃ usage ∈ usages, usage.fieldAt? path name = some field :=
  List.mem_filterMap

/-- Nothing is recorded where nothing was seen. -/
theorem at?_empty {path : List Step} (h : path ≠ []) : Usage.empty.at? path = none := by
  cases path with
  | nil => exact absurd rfl h
  | cons step rest => cases step <;> rfl

theorem fieldAt?_empty : Usage.empty.fieldAt? path name = none := by
  unfold fieldAt?
  by_cases h : path = []
  · subst h; rfl
  · rw [at?_empty h]; rfl

/-- A longer path goes on from where its first part leads. -/
theorem at?_append (usage : Usage) (path rest : List Step) :
    usage.at? (path ++ rest) = (usage.at? path).bind fun inner => inner.at? rest := by
  induction path generalizing usage with
  | nil => simp [Usage.at?]
  | cons first others ih =>
    simp only [List.cons_append, Usage.at?]
    cases usage.step? first with
    | none => rfl
    | some inner => exact ih inner

/-- A path leads through a field if something is beneath it. -/
theorem at?_append_field :
    usage.at? (path ++ [.field name]) = (usage.fieldAt? path name).bind FieldUse.nested? := by
  have hstep : ∀ inner : Usage, inner.at? [.field name] = (inner.field? name).bind FieldUse.nested? :=
    fun _ => Option.bind_fun_some _
  rw [at?_append]
  simp only [hstep, fieldAt?, Option.bind_assoc]

/-- **The field at a path in united usages** is the union of those that they record there. -/
theorem fieldAt?_foldl_merge (h : ∀ usage ∈ usages, usage.Distinct) (first : Usage) :
    (usages.foldl merge first).fieldAt? path name =
      FieldUse.unite? ((first.fieldAt? path name).toList ++ recordedAt usages path name) := by
  induction usages generalizing first with
  | nil => cases hfirst : first.fieldAt? path name <;> simp [recordedAt, FieldUse.unite?, hfirst]
  | cons usage rest ih =>
    obtain ⟨husage, hrest⟩ := List.forall_mem_cons.1 h
    rw [List.foldl_cons, ih hrest, fieldAt?_merge husage]
    unfold recordedAt
    rw [List.filterMap_cons]
    cases usage.fieldAt? path name with
    | none => rw [Option.merge_none_right]
    | some added => cases first.fieldAt? path name <;> rfl

/-! ## United usages -/

/-- **A usage is what others are united to**, path by path: it has the fields and the parts that one of them
has, something is beneath a field if something is beneath it in one of them, and its arguments are the
last ones recorded at its path that are not empty. -/
structure UnitedFrom (union : Usage) (usages : List Usage) : Prop where
  fields : ∀ path name, (union.fieldAt? path name).isSome = true ↔
    ∃ usage ∈ usages, (usage.fieldAt? path name).isSome = true
  parts : ∀ path typeName, (union.at? (path ++ [.part typeName])).isSome = true ↔
    ∃ usage ∈ usages, (usage.at? (path ++ [.part typeName])).isSome = true
  nested : ∀ {path name field}, union.fieldAt? path name = some field →
    (field.nested?.isSome = true ↔
      ∃ recorded ∈ recordedAt usages path name, recorded.nested?.isSome = true)
  arguments : ∀ {path name field}, union.fieldAt? path name = some field →
    field.arguments = Arguments.lastGiven ((recordedAt usages path name).map FieldUse.arguments)

/-- Where a field is recorded in two usages that others are united to, or in neither. -/
theorem UnitedFrom.fieldAt? (h : usage.UnitedFrom usages) (h' : other.UnitedFrom usages)
    (path : List Step) (name : String) :
    Option.Rel (fun field known => field.arguments = known.arguments ∧
        field.nested?.isSome = known.nested?.isSome)
      (usage.fieldAt? path name) (other.fieldAt? path name) := by
  have hfields := (h.fields path name).trans (h'.fields path name).symm
  cases hfield : usage.fieldAt? path name with
  | none =>
    cases hknown : other.fieldAt? path name with
    | none => exact Option.rel_none_none
    | some known => simp [hfield, hknown] at hfields
  | some field =>
    cases hknown : other.fieldAt? path name with
    | none => simp [hfield, hknown] at hfields
    | some known =>
      refine Option.rel_some_some.2 ⟨(h.arguments hfield).trans (h'.arguments hknown).symm, ?_⟩
      rw [Bool.eq_iff_iff, h.nested hfield, h'.nested hknown]

/-- **Usages that others are united to are alike**: the paths say all but the order of names. -/
theorem UnitedFrom.alike (h : usage.UnitedFrom usages) (h' : other.UnitedFrom usages) :
    usage.Alike id other := by
  refine ⟨fun path => ?_, fun path name => ?_⟩
  · rcases List.eq_nil_or_concat' path with rfl | ⟨before, step, rfl⟩
    · rfl
    · cases step with
      | part typeName =>
        rw [Bool.eq_iff_iff]
        exact (h.parts before typeName).trans (h'.parts before typeName).symm
      | field name =>
        rw [at?_append_field, at?_append_field]
        rcases Keyed.rel_cases (h.fieldAt? h' before name) with
          ⟨hfield, hknown⟩ | ⟨field, known, hfield, hknown, -, hnested⟩
        · rw [hfield, hknown]
        · rw [hfield, hknown]; exact hnested
  · rw [arguments?_eq_map_fieldAt?, arguments?_eq_map_fieldAt?]
    rcases Keyed.rel_cases (h.fieldAt? h' path name) with
      ⟨hfield, hknown⟩ | ⟨field, known, hfield, hknown, harguments, -⟩
    · rw [hfield, hknown]
    · rw [hfield, hknown, Option.map_some, harguments]; rfl

/-- **Usages that are united one after the other**, path by path: the newest arguments count. -/
theorem unitedFrom_foldl_merge (h : ∀ usage ∈ usages, usage.Built) :
    (usages.foldl merge .empty).UnitedFrom usages := by
  have hdistinct : ∀ usage ∈ usages, usage.Distinct := fun usage husage => (h usage husage).distinct
  have hfield : ∀ path name, (usages.foldl merge .empty).fieldAt? path name =
      FieldUse.unite? (recordedAt usages path name) := fun path name => by
    rw [fieldAt?_foldl_merge hdistinct, fieldAt?_empty]; rfl
  refine ⟨fun path name => ?_, fun path typeName => ?_, ?_, ?_⟩
  · rw [hfield, FieldUse.isSome_unite?]
    simp only [mem_recordedAt, Option.isSome_iff_exists]
    exact ⟨fun ⟨field, usage, husage, hsome⟩ => ⟨usage, husage, field, hsome⟩,
      fun ⟨usage, husage, field, hsome⟩ => ⟨field, usage, husage, hsome⟩⟩
  · rw [isSome_at?_foldl_merge hdistinct, at?_empty (by simp)]
    simp
  · intro path name field hsome
    exact FieldUse.isSome_nested?_of_unite? ((hfield path name).symm.trans hsome)
  · intro path name field hsome
    exact FieldUse.arguments_of_unite? ((hfield path name).symm.trans hsome)

/-- **Four observations of an author**: with a size and a name, as a leaf, with another size and an address
for users, and again without a size. The second size counts, and all that was seen beneath is there. -/
theorem unitedFrom_foldl_merge_author :
    let sized := fun (size : Int) (usage : Usage) =>
      Usage.ofField ((FieldUse.nested "author" usage).withArguments [("size", .int size)])
    let observed := [
      sized 1 (.ofField (.leaf "name")),
      .ofField (.leaf "author"),
      sized 2 (Usage.empty.addPart "User" (.ofField (.leaf "mail"))),
      .ofField (.nested "author" (.ofField (.leaf "id")))]
    let all := observed.foldl merge .empty
    (∀ usage ∈ observed, usage.Built) ∧ all.UnitedFrom observed ∧
      all.arguments? [] "author" = some [("size", .int 2)] ∧
      (all.fieldAt? [.field "author"] "name").isSome = true ∧
      (all.fieldAt? [.field "author"] "id").isSome = true ∧
      (all.fieldAt? [.field "author", .part "User"] "mail").isSome = true := by
  intro sized observed all
  have hsized : ∀ size {usage : Usage}, usage.Built → (sized size usage).Built :=
    fun size _ h => .ofField (.withArguments [("size", .int size)] (.nested "author" h))
  have hobserved : ∀ usage ∈ observed, usage.Built := by
    simp only [observed, List.forall_mem_cons, List.not_mem_nil, false_imp_iff, implies_true, and_true]
    exact ⟨hsized 1 (.ofField (.leaf "name")), .ofField (.leaf "author"),
      hsized 2 (.addPart "User" .empty (.ofField (.leaf "mail"))),
      .ofField (.nested "author" (.ofField (.leaf "id")))⟩
  have hunited : all.UnitedFrom observed := unitedFrom_foldl_merge hobserved
  have hsize : all.arguments? [] "author" = some [("size", .int 2)] := by
    obtain ⟨field, hfield⟩ : ∃ field, all.fieldAt? [] "author" = some field :=
      Option.isSome_iff_exists.1 (by decide +kernel)
    rw [arguments?_eq_map_fieldAt?, hfield, Option.map_some, hunited.arguments hfield]
    rfl
  exact ⟨hobserved, hunited, hsize, by decide +kernel, by decide +kernel, by decide +kernel⟩

end Usage

end SelectionRecall
