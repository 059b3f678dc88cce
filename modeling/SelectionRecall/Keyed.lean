/-!
# Keyed lists

Lists of entries that are looked up by a key. A keyed list remembers the order in which its keys
arrived; an ordered one is kept in ascending order of its keys.

* `Keyed.upsert`: changes the entry of a key, or adds one at the end.
* `Keyed.insertSorted`: puts a value at its place in an ascending list, replacing an older one.
* `Keyed.map_upsert`: a known key keeps its place, and a new key comes last.
* `Keyed.map_prefix_upsert`, `Keyed.nodup_map_upsert`: keys keep their order, and stay distinct.
* `Keyed.map_upsert_of_keys`: entries that are kept in another form under the same keys.
* `Keyed.find?_upsert_self`, `Keyed.find?_upsert_of_ne`: what is found after a change.
* `Keyed.exists_find?_upsert`: what holds of the entry that is found.
* `Keyed.lookup_set_self`, `Keyed.lookup_set_of_ne`: what is looked up after a value is set.
* `Keyed.find?_of_mem`, `Keyed.exists_find?_of_mem_map`, `Keyed.lookup_eq_some_iff`: distinct keys lead
  to their entries.
* `Keyed.exists_mem_upsert`, `Keyed.forall_mem_upsert`: what holds of some entry, and of all.
* `Keyed.unite`: adds the entries of a list one by one, joining those of one key.
* `Keyed.map_prefix_unite`, `Keyed.nodup_map_unite`: keys in united lists.
* `Keyed.exists_mem_unite`, `Keyed.forall_mem_unite`, `Keyed.exists_find?_unite`: what holds of some
  entry of united lists, of all, and of the one that a key leads to.
* `Keyed.unite_assoc`: it does not matter which of three lists are united first.
* `Keyed.find?_unite`: what is found in united lists.
-/

namespace SelectionRecall.Keyed

variable {α : Type}

/-- Changes the first entry with this key by `change`, or adds `entry` at the end if there is none. -/
def upsert (keyOf : α → String) (key : String) (change : α → α) (entry : α) : List α → List α
  | [] => [entry]
  | head :: rest =>
    if keyOf head = key then change head :: rest
    else head :: upsert keyOf key change entry rest

/-- Adds a value under a key to an ascending list. An older value of the same key is replaced. -/
def insertSorted (key : String) (value : α) : List (String × α) → List (String × α)
  | [] => [(key, value)]
  | (other, old) :: rest =>
    if key < other then (key, value) :: (other, old) :: rest
    else if key = other then (key, value) :: rest
    else (other, old) :: insertSorted key value rest

/-- Sets the value of a key: at its old place if it has one, else at the end. -/
def set (key : String) (value : α) (entries : List (String × α)) : List (String × α) :=
  upsert Prod.fst key (fun _ => (key, value)) (key, value) entries

/-- A known key keeps its place, and a new key comes last. -/
theorem map_upsert {keyOf : α → String} {key : String} {change : α → α} {entry : α}
    (hchange : ∀ a, keyOf a = key → keyOf (change a) = key) (hentry : keyOf entry = key)
    (entries : List α) :
    (upsert keyOf key change entry entries).map keyOf =
      if key ∈ entries.map keyOf then entries.map keyOf else entries.map keyOf ++ [key] := by
  induction entries with
  | nil => simp [upsert, hentry]
  | cons head rest ih =>
    by_cases h : keyOf head = key
    · simp [upsert, h, hchange head h]
    · have h' : ¬key = keyOf head := fun e => h e.symm
      simp only [upsert, h, if_false, List.map_cons, ih, List.mem_cons, h', false_or]
      split <;> simp

/-- The keys before a change are the first ones after it, in their order. -/
theorem map_prefix_upsert {keyOf : α → String} {key : String} {change : α → α} {entry : α}
    (hchange : ∀ a, keyOf a = key → keyOf (change a) = key) (hentry : keyOf entry = key)
    (entries : List α) :
    entries.map keyOf <+: (upsert keyOf key change entry entries).map keyOf := by
  rw [map_upsert hchange hentry]
  split
  · exact List.prefix_refl _
  · exact List.prefix_append _ _

/-- Distinct keys stay distinct. -/
theorem nodup_map_upsert {keyOf : α → String} {key : String} {change : α → α} {entry : α}
    (hchange : ∀ a, keyOf a = key → keyOf (change a) = key) (hentry : keyOf entry = key)
    {entries : List α} (h : (entries.map keyOf).Nodup) :
    ((upsert keyOf key change entry entries).map keyOf).Nodup := by
  rw [map_upsert hchange hentry]
  split
  · exact h
  · rename_i hnew
    refine List.nodup_append.2 ⟨h, by simp, ?_⟩
    intro known hknown other hother hsame
    rw [List.mem_singleton.1 hother] at hsame
    exact hnew (hsame ▸ hknown)

/-- Entries may be brought into another form before or after a change, if this keeps their keys. -/
theorem map_upsert_of_keys {β : Type} {keyOf : α → String} {keyOf' : β → String} {key : String}
    {change : α → α} {change' : β → β} {form : α → β} (hkeys : ∀ a, keyOf' (form a) = keyOf a)
    (hchange : ∀ a, form (change a) = change' (form a)) (entry : α) (entries : List α) :
    (upsert keyOf key change entry entries).map form =
      upsert keyOf' key change' (form entry) (entries.map form) := by
  induction entries with
  | nil => rfl
  | cons head rest ih =>
    rw [List.map_cons, upsert, upsert, hkeys]
    split
    · rw [List.map_cons, hchange]
    · rw [List.map_cons, ih]

/-- The changed key leads to its changed entry, or to the new one. -/
theorem find?_upsert_self {keyOf : α → String} {key : String} {change : α → α} {entry : α}
    (hchange : ∀ a, keyOf a = key → keyOf (change a) = key) (hentry : keyOf entry = key)
    (entries : List α) :
    (upsert keyOf key change entry entries).find? (fun a => keyOf a = key) =
      some (((entries.find? fun a => keyOf a = key).map change).getD entry) := by
  induction entries with
  | nil => simp [upsert, hentry]
  | cons head rest ih =>
    by_cases h : keyOf head = key
    · simp [upsert, h, hchange head h]
    · simp [upsert, h, ih]

/-- Another key leads where it led before. -/
theorem find?_upsert_of_ne {keyOf : α → String} {key other : String} {change : α → α} {entry : α}
    (hchange : ∀ a, keyOf a = key → keyOf (change a) = key) (hentry : keyOf entry = key)
    (hother : other ≠ key) (entries : List α) :
    (upsert keyOf key change entry entries).find? (fun a => keyOf a = other) =
      entries.find? fun a => keyOf a = other := by
  induction entries with
  | nil => simp [upsert, hentry, hother.symm]
  | cons head rest ih =>
    by_cases h : keyOf head = key
    · simp [upsert, h, hchange head h, hother.symm]
    · by_cases h' : keyOf head = other <;> simp [upsert, h, h', ih, hother]

/-- What holds of the entry that some key leads to still holds of the one that it leads to after a
change that keeps it. -/
theorem exists_find?_upsert {keyOf : α → String} {key other : String} {change : α → α} {entry : α}
    {Holds : α → Prop} {entries : List α}
    (hchange : ∀ a, keyOf a = key → keyOf (change a) = key) (hentry : keyOf entry = key)
    (hkeeps : ∀ known, keyOf known = key → Holds known → Holds (change known))
    (h : ∃ known, entries.find? (fun a => keyOf a = other) = some known ∧ Holds known) :
    ∃ known, (upsert keyOf key change entry entries).find? (fun a => keyOf a = other) = some known ∧
      Holds known := by
  obtain ⟨known, hfind, hknown⟩ := h
  by_cases hother : other = key
  · subst hother
    have hkey : keyOf known = other := by simpa using List.find?_some hfind
    refine ⟨change known, ?_, hkeeps known hkey hknown⟩
    rw [find?_upsert_self hchange hentry, hfind]; rfl
  · exact ⟨known, by rw [find?_upsert_of_ne hchange hentry hother, hfind], hknown⟩

/-- What is found under a key is an entry of this key. -/
theorem mem_of_find? {keyOf : α → String} {entries : List α} {key : String} {entry : α}
    (h : entries.find? (fun a => keyOf a = key) = some entry) : entry ∈ entries ∧ keyOf entry = key :=
  ⟨List.mem_of_find?_eq_some h, by simpa using List.find?_some h⟩

/-- An entry is found under its key, if keys are distinct. -/
theorem find?_of_mem {keyOf : α → String} {entries : List α} (h : (entries.map keyOf).Nodup)
    {entry : α} (hmem : entry ∈ entries) :
    entries.find? (fun a => keyOf a = keyOf entry) = some entry := by
  induction entries with
  | nil => simp at hmem
  | cons head rest ih =>
    obtain ⟨hnew, hrest⟩ := List.nodup_cons.1 h
    rcases List.mem_cons.1 hmem with rfl | hmem
    · simp
    · have hkey : keyOf head ≠ keyOf entry := fun e => hnew (e ▸ List.mem_map_of_mem hmem)
      simp [hkey, ih hrest hmem]

/-- A key that is there leads to an entry. -/
theorem exists_find?_of_mem_map {keyOf : α → String} {entries : List α} {key : String}
    (h : key ∈ entries.map keyOf) : ∃ entry, entries.find? (fun a => keyOf a = key) = some entry := by
  obtain ⟨entry, hmem, hkey⟩ := List.mem_map.1 h
  rw [← Option.isSome_iff_exists, List.find?_isSome]
  exact ⟨entry, hmem, by simpa using hkey⟩

/-- A list of pairs is looked up by the first component. -/
theorem lookup_eq_map_find? (key : String) (entries : List (String × α)) :
    entries.lookup key = (entries.find? fun entry => entry.1 = key).map Prod.snd := by
  induction entries with
  | nil => rfl
  | cons head rest ih =>
    obtain ⟨other, value⟩ := head
    by_cases h : other = key
    · simp [h]
    · have h' : (key == other) = false := by simpa using fun e : key = other => h e.symm
      simp [List.lookup_cons, h, h', ih]

/-- A key leads to the value that it was set to. -/
theorem lookup_set_self (key : String) (value : α) (entries : List (String × α)) :
    (set key value entries).lookup key = some value := by
  have hfind := @find?_upsert_self _ Prod.fst key (fun _ => (key, value)) (key, value)
    (fun _ _ => rfl) rfl entries
  rw [lookup_eq_map_find?, set, hfind]
  cases entries.find? fun entry => entry.1 = key <;> rfl

/-- Another key leads where it led before. -/
theorem lookup_set_of_ne {key other : String} (hother : other ≠ key) (value : α)
    (entries : List (String × α)) :
    (set key value entries).lookup other = entries.lookup other := by
  have hfind := @find?_upsert_of_ne _ Prod.fst key other (fun _ => (key, value)) (key, value)
    (fun _ _ => rfl) rfl hother entries
  rw [lookup_eq_map_find?, lookup_eq_map_find?, set, hfind]

/-- Keys stay distinct when one of them is set. -/
theorem nodup_map_set {entries : List (String × α)} (h : (entries.map Prod.fst).Nodup)
    (key : String) (value : α) : ((set key value entries).map Prod.fst).Nodup :=
  @nodup_map_upsert _ Prod.fst key (fun _ => (key, value)) (key, value) (fun _ _ => rfl) rfl entries h

/-- A value that is looked up is among the entries. -/
theorem mem_of_lookup {key : String} {entries : List (String × α)} {value : α}
    (h : entries.lookup key = some value) : (key, value) ∈ entries := by
  obtain ⟨before, after, hentries, -⟩ := List.lookup_eq_some_iff.1 h
  rw [hentries]; simp

/-- Where keys are distinct, the value of a key is the one that stands beside it. -/
theorem lookup_eq_some_iff {entries : List (String × α)} (h : (entries.map Prod.fst).Nodup)
    {key : String} {value : α} : entries.lookup key = some value ↔ (key, value) ∈ entries := by
  constructor
  · exact mem_of_lookup
  · intro hmem
    rw [lookup_eq_map_find?, find?_of_mem h hmem]; rfl

/-- What holds of the value of a key is told from the entry that the key leads to. -/
theorem exists_lookup_iff {key : String} {entries : List (String × α)} {Holds : α → Prop} :
    (∃ value, entries.lookup key = some value ∧ Holds value) ↔
      ∃ entry, entries.find? (fun entry => entry.1 = key) = some entry ∧ Holds entry.2 := by
  rw [lookup_eq_map_find?]
  cases entries.find? fun entry => entry.1 = key <;> simp

/-- What holds of a changed entry just if it held before or holds of the new one, holds of some entry
after the change just if it held of one before or holds of the new one. -/
theorem exists_mem_upsert {keyOf : α → String} {key : String} {change : α → α} {entry : α}
    {Holds : α → Prop} {entries : List α}
    (hchange : ∀ known, keyOf known = key → (Holds (change known) ↔ Holds known ∨ Holds entry)) :
    (∃ a ∈ upsert keyOf key change entry entries, Holds a) ↔
      (∃ a ∈ entries, Holds a) ∨ Holds entry := by
  induction entries with
  | nil => simp [upsert]
  | cons head rest ih =>
    by_cases h : keyOf head = key
    · simp only [upsert, h, if_true, List.mem_cons, exists_eq_or_imp, hchange head h]
      exact or_right_comm
    · simp only [upsert, h, if_false, List.mem_cons, exists_eq_or_imp, ih]
      exact or_assoc.symm

/-- What holds of all entries and of the new one still holds of all after a change that keeps it. -/
theorem forall_mem_upsert {keyOf : α → String} {key : String} {change : α → α} {entry : α}
    {Holds : α → Prop} {entries : List α}
    (hchange : ∀ known, keyOf known = key → Holds known → Holds (change known))
    (hentry : Holds entry) (h : ∀ a ∈ entries, Holds a) :
    ∀ a ∈ upsert keyOf key change entry entries, Holds a := by
  induction entries with
  | nil => simpa [upsert] using hentry
  | cons head rest ih =>
    obtain ⟨hhead, hrest⟩ := List.forall_mem_cons.1 h
    by_cases hkey : keyOf head = key
    · simp only [upsert, hkey, if_true]
      exact List.forall_mem_cons.2 ⟨hchange head hkey hhead, hrest⟩
    · simp only [upsert, hkey, if_false]
      exact List.forall_mem_cons.2 ⟨hhead, ih hrest⟩

/-! ## United lists -/

/-- Joins an entry into the one of its key, or adds it at the end. -/
def add (keyOf : α → String) (join : α → α → α) (known : List α) (entry : α) : List α :=
  upsert keyOf (keyOf entry) (join · entry) entry known

/-- Adds entries one by one: each is joined into the one of its key, or comes last. -/
def unite (keyOf : α → String) (join : α → α → α) (old new : List α) : List α :=
  new.foldl (add keyOf join) old

section

variable {keyOf : α → String} {join : α → α → α}

/-- What an entry is joined into, and in what is left, comes before what comes last. -/
theorem add_cons (head entry : α) (rest : List α) :
    add keyOf join (head :: rest) entry =
      if keyOf head = keyOf entry then join head entry :: rest
      else head :: add keyOf join rest entry := rfl

theorem map_add (hjoin : ∀ a b, keyOf (join a b) = keyOf a) (known : List α) (entry : α) :
    (add keyOf join known entry).map keyOf =
      if keyOf entry ∈ known.map keyOf then known.map keyOf
      else known.map keyOf ++ [keyOf entry] :=
  map_upsert (fun a h => (hjoin a entry).trans h) rfl known

theorem unite_cons (old : List α) (head : α) (rest : List α) :
    unite keyOf join old (head :: rest) = unite keyOf join (add keyOf join old head) rest := rfl

/-- Two entries of one key may be joined before they are added. -/
theorem add_join (hjoin : ∀ a b, keyOf (join a b) = keyOf a) {first second : α}
    (hkey : keyOf first = keyOf second)
    (hassoc : ∀ a, join (join a first) second = join a (join first second)) (known : List α) :
    add keyOf join known (join first second) = add keyOf join (add keyOf join known first) second := by
  have hsame := hjoin first second
  induction known with
  | nil => simp [add, upsert, hkey]
  | cons head rest ih =>
    by_cases h : keyOf head = keyOf first
    · have hsecond : keyOf (join head first) = keyOf second := by rw [hjoin, h, hkey]
      rw [add_cons, add_cons, hsame, if_pos h, if_pos h, add_cons, if_pos hsecond, hassoc]
    · have hsecond : keyOf head ≠ keyOf second := hkey ▸ h
      rw [add_cons, add_cons, hsame, if_neg h, if_neg h, add_cons, if_neg hsecond, ih]

/-- The order in which entries of two keys are added does not matter, if the key of the first one has
its place already. -/
theorem add_comm {first second : α} (hkey : keyOf first ≠ keyOf second)
    (hjoin : ∀ a b, keyOf (join a b) = keyOf a) {known : List α}
    (hknown : keyOf first ∈ known.map keyOf) :
    add keyOf join (add keyOf join known first) second =
      add keyOf join (add keyOf join known second) first := by
  induction known with
  | nil => simp at hknown
  | cons head rest ih =>
    by_cases h : keyOf head = keyOf first
    · have hsecond : keyOf head ≠ keyOf second := h ▸ hkey
      have hjoined : keyOf (join head first) ≠ keyOf second := (hjoin head first).symm ▸ hsecond
      rw [add_cons, if_pos h, add_cons, if_neg hjoined, add_cons, if_neg hsecond, add_cons, if_pos h]
    · have hrest : keyOf first ∈ rest.map keyOf := by
        rcases List.mem_cons.1 hknown with hhead | hrest
        · exact absurd hhead.symm h
        · exact hrest
      by_cases hsecond : keyOf head = keyOf second
      · have hjoined : keyOf (join head second) ≠ keyOf first := (hjoin head second).symm ▸ h
        rw [add_cons, if_neg h, add_cons, if_pos hsecond, add_cons, if_pos hsecond, add_cons,
          if_neg hjoined]
      · rw [add_cons, if_neg h, add_cons, if_neg hsecond, add_cons, if_neg hsecond, add_cons,
          if_neg h, ih hrest]

/-- An entry whose key has its place already may be added before entries of other keys. -/
theorem unite_add {entry : α} (hjoin : ∀ a b, keyOf (join a b) = keyOf a) {known new : List α}
    (hknown : keyOf entry ∈ known.map keyOf) (hnew : keyOf entry ∉ new.map keyOf) :
    unite keyOf join (add keyOf join known entry) new =
      add keyOf join (unite keyOf join known new) entry := by
  induction new generalizing known with
  | nil => rfl
  | cons head rest ih =>
    have hhead : keyOf entry ≠ keyOf head := List.ne_of_not_mem_cons hnew
    have hrest : keyOf entry ∉ rest.map keyOf := List.not_mem_of_not_mem_cons hnew
    have hkept : keyOf entry ∈ (add keyOf join known head).map keyOf := by
      rw [map_add hjoin]
      split
      · exact hknown
      · exact List.mem_append_left _ hknown
    have hstep := ih hkept hrest
    rw [← add_comm hhead hjoin hknown] at hstep
    exact hstep

/-- An entry may be added to a list before that is united with another one, or after. -/
theorem unite_add_right (hjoin : ∀ a b, keyOf (join a b) = keyOf a) {entry : α} {new : List α}
    (hnew : (new.map keyOf).Nodup)
    (hassoc : ∀ first ∈ new, ∀ a, join (join a first) entry = join a (join first entry))
    (old : List α) :
    unite keyOf join old (add keyOf join new entry) = add keyOf join (unite keyOf join old new) entry := by
  induction new generalizing old with
  | nil => rfl
  | cons head rest ih =>
    obtain ⟨hfresh, hrest⟩ := List.nodup_cons.1 hnew
    obtain ⟨hhead, hothers⟩ := List.forall_mem_cons.1 hassoc
    rw [add_cons]
    split
    · rename_i hkey
      -- the entry joins the head, which then has its place before the rest is added
      have hplace : keyOf entry ∈ (add keyOf join old head).map keyOf := by
        rw [map_add hjoin, ← hkey]
        split
        · assumption
        · simp
      have hunite : unite keyOf join old (join head entry :: rest) =
          unite keyOf join (add keyOf join old (join head entry)) rest := rfl
      rw [hunite, add_join hjoin hkey hhead, unite_add hjoin hplace (hkey ▸ hfresh)]
      rfl
    · exact ih hrest hothers (add keyOf join old head)

theorem nodup_map_add (hjoin : ∀ a b, keyOf (join a b) = keyOf a) {known : List α}
    (h : (known.map keyOf).Nodup) (entry : α) : ((add keyOf join known entry).map keyOf).Nodup :=
  nodup_map_upsert (fun a ha => (hjoin a entry).trans ha) rfl h

/-- Keys are the first ones in united lists, in their order. -/
theorem map_prefix_unite (hjoin : ∀ a b, keyOf (join a b) = keyOf a) (old new : List α) :
    old.map keyOf <+: (unite keyOf join old new).map keyOf := by
  induction new generalizing old with
  | nil => exact List.prefix_refl _
  | cons head rest ih =>
    have hadd : old.map keyOf <+: (add keyOf join old head).map keyOf :=
      map_prefix_upsert (fun a ha => (hjoin a head).trans ha) rfl old
    exact hadd.trans (ih (add keyOf join old head))

/-- Distinct keys stay distinct. -/
theorem nodup_map_unite (hjoin : ∀ a b, keyOf (join a b) = keyOf a) {old : List α}
    (h : (old.map keyOf).Nodup) (new : List α) : ((unite keyOf join old new).map keyOf).Nodup := by
  induction new generalizing old with
  | nil => exact h
  | cons head rest ih => exact ih (nodup_map_add hjoin h head)

section

variable {Holds : α → Prop} {old new : List α}

/-- What holds of two entries joined just if it holds of one of them, holds of some entry of united lists
just if it holds of some entry of one of them. -/
theorem exists_mem_unite
    (hjoin : ∀ b ∈ new, ∀ a, keyOf a = keyOf b → (Holds (join a b) ↔ Holds a ∨ Holds b)) :
    (∃ a ∈ unite keyOf join old new, Holds a) ↔ (∃ a ∈ old, Holds a) ∨ ∃ b ∈ new, Holds b := by
  induction new generalizing old with
  | nil => simp [unite]
  | cons head rest ih =>
    obtain ⟨hhead, hrest⟩ := List.forall_mem_cons.1 hjoin
    have hadd : (∃ a ∈ add keyOf join old head, Holds a) ↔ (∃ a ∈ old, Holds a) ∨ Holds head :=
      exists_mem_upsert hhead
    rw [unite_cons, ih hrest, hadd, or_assoc]
    simp only [List.mem_cons, exists_eq_or_imp]

/-- What holds of two entries joined if it holds of both, holds of all entries of united lists if it
holds of all entries of both. -/
theorem forall_mem_unite
    (hjoin : ∀ b ∈ new, ∀ a, keyOf a = keyOf b → Holds a → Holds (join a b))
    (hold : ∀ a ∈ old, Holds a) (hnew : ∀ b ∈ new, Holds b) :
    ∀ a ∈ unite keyOf join old new, Holds a := by
  induction new generalizing old with
  | nil => exact hold
  | cons head rest ih =>
    obtain ⟨hhead, hrest⟩ := List.forall_mem_cons.1 hjoin
    obtain ⟨hnewHead, hnewRest⟩ := List.forall_mem_cons.1 hnew
    exact ih hrest (forall_mem_upsert hhead hnewHead hold) hnewRest

/-- What holds of two entries joined just if it holds of both, holds of all entries of united lists just
if it holds of all entries of both. -/
theorem forall_mem_unite_iff
    (hjoin : ∀ b ∈ new, ∀ a, keyOf a = keyOf b → (Holds (join a b) ↔ Holds a ∧ Holds b)) :
    (∀ a ∈ unite keyOf join old new, Holds a) ↔ (∀ a ∈ old, Holds a) ∧ ∀ b ∈ new, Holds b := by
  have hsome := @exists_mem_unite _ keyOf join (fun a => ¬ Holds a) old new fun b hb a hkey => by
    rw [hjoin b hb a hkey, Classical.not_and_iff_not_or_not]
  simpa only [not_or, not_exists, not_and, Classical.not_not] using not_congr hsome

/-- What holds of the entry that a key leads to still holds after entries are added that keep it. -/
theorem exists_find?_unite {key : String} (hjoin : ∀ a b, keyOf (join a b) = keyOf a)
    (hkeeps : ∀ b ∈ new, ∀ a, keyOf a = keyOf b → Holds a → Holds (join a b))
    (h : ∃ a, old.find? (fun a => keyOf a = key) = some a ∧ Holds a) :
    ∃ a, (unite keyOf join old new).find? (fun a => keyOf a = key) = some a ∧ Holds a := by
  induction new generalizing old with
  | nil => exact h
  | cons head rest ih =>
    obtain ⟨hhead, hrest⟩ := List.forall_mem_cons.1 hkeeps
    exact ih hrest (exists_find?_upsert (fun a ha => (hjoin a head).trans ha) rfl hhead h)

/-- What holds of an added entry, alone and joined into a known one, holds of the entry that its key
leads to afterwards, if the entries that are added keep it. -/
theorem exists_find?_unite_of_mem (hjoin : ∀ a b, keyOf (join a b) = keyOf a)
    (hkeeps : ∀ b ∈ new, ∀ a, keyOf a = keyOf b → Holds a → Holds (join a b)) {entry : α}
    (hmem : entry ∈ new) (hentry : Holds entry)
    (hjoined : ∀ a, keyOf a = keyOf entry → Holds (join a entry)) :
    ∃ a, (unite keyOf join old new).find? (fun a => keyOf a = keyOf entry) = some a ∧ Holds a := by
  induction new generalizing old with
  | nil => simp at hmem
  | cons head rest ih =>
    obtain ⟨-, hrest⟩ := List.forall_mem_cons.1 hkeeps
    rcases List.mem_cons.1 hmem with rfl | hmem
    · have hchange : ∀ a, keyOf a = keyOf entry → keyOf (join a entry) = keyOf entry :=
        fun a ha => (hjoin a entry).trans ha
      rw [unite_cons]
      refine exists_find?_unite hjoin hrest ⟨_, find?_upsert_self hchange rfl old, ?_⟩
      cases hknown : old.find? fun a => keyOf a = keyOf entry with
      | none => exact hentry
      | some known => exact hjoined known (by simpa using List.find?_some hknown)
    · exact ih hrest hmem

end

/-- **It does not matter which of three lists are united first**, not even for the order of what comes
out, if joining is as indifferent for the entries of the second and the third one. Keys of the second
one are distinct. -/
theorem unite_assoc (Fits : α → Prop) (hjoin : ∀ a b, keyOf (join a b) = keyOf a)
    {second third : List α} (hsecond : (second.map keyOf).Nodup) (hfits : ∀ b ∈ second, Fits b)
    (hthird : ∀ c ∈ third, Fits c ∧ (∀ b, Fits b → Fits (join b c)) ∧
      ∀ b, Fits b → ∀ a, join (join a b) c = join a (join b c))
    (first : List α) :
    unite keyOf join (unite keyOf join first second) third =
      unite keyOf join first (unite keyOf join second third) := by
  induction third generalizing second with
  | nil => rfl
  | cons entry rest ih =>
    obtain ⟨⟨hentry, hkeeps, hassoc⟩, hrest⟩ := List.forall_mem_cons.1 hthird
    have hadded : ∀ b ∈ add keyOf join second entry, Fits b :=
      forall_mem_upsert (fun b _ hb => hkeeps b hb) hentry hfits
    have hstep := ih (nodup_map_add hjoin hsecond entry) hadded hrest
    have hright := unite_add_right hjoin hsecond (fun b hb => hassoc b (hfits b hb)) first
    rw [hright] at hstep
    exact hstep

/-- **What is found in united lists**: what is found in one of them, or the two joined. Keys of the
second one are distinct. -/
theorem find?_unite (hjoin : ∀ a b, keyOf (join a b) = keyOf a) {new : List α}
    (hnew : (new.map keyOf).Nodup) (old : List α) (key : String) :
    (unite keyOf join old new).find? (fun a => keyOf a = key) =
      Option.merge join (old.find? fun a => keyOf a = key) (new.find? fun a => keyOf a = key) := by
  induction new generalizing old with
  | nil => simp [unite]
  | cons head rest ih =>
    obtain ⟨hfresh, hrest⟩ := List.nodup_cons.1 hnew
    have hchange : ∀ a, keyOf a = keyOf head → keyOf (join a head) = keyOf head :=
      fun a h => (hjoin a head).trans h
    rw [unite_cons, ih hrest]
    by_cases hkey : keyOf head = key
    · subst hkey
      have hnone : rest.find? (fun a => keyOf a = keyOf head) = none := by
        rw [List.find?_eq_none]
        intro a ha hsame
        exact hfresh (List.mem_map.2 ⟨a, ha, by simpa using hsame⟩)
      have hadd := find?_upsert_self hchange rfl old
      unfold add
      rw [hadd, hnone, List.find?_cons_of_pos (by simp)]
      cases old.find? fun a => keyOf a = keyOf head <;> rfl
    · have hadd := find?_upsert_of_ne hchange rfl (Ne.symm hkey) old
      unfold add
      rw [hadd, List.find?_cons_of_neg (by simpa using hkey)]

end

end SelectionRecall.Keyed
