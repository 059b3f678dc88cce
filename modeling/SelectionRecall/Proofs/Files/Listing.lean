import Mathlib.Data.List.Nodup
import SelectionRecall.Files.Tree

/-!
# Listing the files of a tree

A search of a tree comes to each of its files once. This does not depend on the order in which the entries
of a directory stand, as long as no two of them have one name. Trees that are put together by insertion
are so, since their entries stand in ascending order.

* `FileTree.induction`: what holds of a directory if it holds of its entries, holds of all trees.
* `FileTree.Everywhere`, `FileTree.Apart`, `FileTree.Ascending`: what holds of the names in each directory.
* `FileTree.Ascending.insert`: insertion keeps entries in ascending order.
* `FileTree.at?_append`, `FileTree.Everywhere.at?`: what a path of names leads to, step by step.
* `FileTree.mem_filesUnder`, `FileTree.nodup_filesUnder`: the files of a tree, each of them once.
-/

namespace SelectionRecall

namespace FileTree

mutual

/-- **What holds of a directory** if it holds of its entries, and holds of files, holds of all trees. -/
theorem induction {Holds : FileTree → Prop} (file : ∀ bytes, Holds (.file bytes))
    (directory : ∀ entries : List (String × FileTree), (∀ entry ∈ entries, Holds entry.2) →
      Holds (.directory entries))
    (tree : FileTree) : Holds tree := by
  cases tree with
  | file bytes => exact file bytes
  | directory entries => exact directory entries (induction_entries file directory entries)

/-- It holds of entries. -/
theorem induction_entries {Holds : FileTree → Prop} (file : ∀ bytes, Holds (.file bytes))
    (directory : ∀ entries : List (String × FileTree), (∀ entry ∈ entries, Holds entry.2) →
      Holds (.directory entries))
    (entries : List (String × FileTree)) : ∀ entry ∈ entries, Holds entry.2 := by
  cases entries with
  | nil => simp
  | cons head rest =>
    obtain ⟨name, tree⟩ := head
    exact List.forall_mem_cons.2
      ⟨induction file directory tree, induction_entries file directory rest⟩

end

/-! ## Names in directories -/

/-- The names of the entries have the property in each directory of the tree. -/
inductive Everywhere (Row : List String → Prop) : FileTree → Prop
  | file (bytes) : Everywhere Row (.file bytes)
  | directory {entries} : Row (entries.map Prod.fst) →
    (∀ entry ∈ entries, Everywhere Row entry.2) → Everywhere Row (.directory entries)

/-- No directory has two entries of one name. -/
def Apart : FileTree → Prop := Everywhere List.Nodup

/-- The entries of each directory stand in ascending order of their names. -/
def Ascending : FileTree → Prop := Everywhere (List.Pairwise (· < ·))

theorem everywhere_directory_iff {Row : List String → Prop} {entries : List (String × FileTree)} :
    (directory entries).Everywhere Row ↔
      Row (entries.map Prod.fst) ∧ ∀ entry ∈ entries, entry.2.Everywhere Row := by
  constructor
  · rintro (- | ⟨hnames, hentries⟩)
    exact ⟨hnames, hentries⟩
  · rintro ⟨hnames, hentries⟩
    exact .directory hnames hentries

/-- What follows from it for each directory holds everywhere. -/
theorem Everywhere.mono {Row Weaker : List String → Prop} (hmono : ∀ names, Row names → Weaker names)
    {tree : FileTree} (h : tree.Everywhere Row) : tree.Everywhere Weaker := by
  induction h with
  | file bytes => exact .file bytes
  | directory hnames _ ih => exact .directory (hmono _ hnames) ih

/-- Names in ascending order differ from each other. -/
theorem Ascending.apart {tree : FileTree} (h : tree.Ascending) : tree.Apart := by
  refine Everywhere.mono ?_ h
  intro names hnames
  refine hnames.imp ?_
  rintro name other hlt rfl
  exact String.lt_irrefl name hlt

/-- What is put at its place is among the entries beside those that were there. -/
theorem mem_insertSorted {α : Type} {name : String} {value : α} {entries : List (String × α)}
    {entry : String × α} (h : entry ∈ Keyed.insertSorted name value entries) :
    entry = (name, value) ∨ entry ∈ entries := by
  induction entries with
  | nil => simpa [Keyed.insertSorted] using h
  | cons head rest ih =>
    rw [Keyed.insertSorted] at h
    split at h
    · exact List.mem_cons.1 h
    · split at h
      · exact (List.mem_cons.1 h).imp_right (List.mem_cons_of_mem _)
      · rcases List.mem_cons.1 h with rfl | hrest
        · exact .inr List.mem_cons_self
        · exact (ih hrest).imp_right (List.mem_cons_of_mem _)

/-- Entries in ascending order stay so when one is put at its place. -/
theorem ascending_insertSorted {α : Type} (name : String) (value : α) {entries : List (String × α)}
    (h : (entries.map Prod.fst).Pairwise (· < ·)) :
    ((Keyed.insertSorted name value entries).map Prod.fst).Pairwise (· < ·) := by
  induction entries with
  | nil => exact List.pairwise_singleton _ _
  | cons head rest ih =>
    obtain ⟨hhead, hrest⟩ := List.pairwise_cons.1 h
    rw [Keyed.insertSorted]
    split
    · rename_i hbefore
      refine List.pairwise_cons.2 ⟨List.forall_mem_cons.2 ⟨hbefore, ?_⟩, h⟩
      exact fun other hother => String.lt_trans hbefore (hhead other hother)
    · rename_i hnotBefore
      split
      · rename_i hsame
        subst hsame
        exact List.pairwise_cons.2 ⟨hhead, hrest⟩
      · rename_i hother
        have hafter : head.1 < name := by
          by_contra hnotAfter
          exact hother (String.le_antisymm (String.not_lt.1 hnotAfter) (String.not_lt.1 hnotBefore))
        refine List.pairwise_cons.2 ⟨?_, ih hrest⟩
        intro other hmem
        obtain ⟨entry, hentry, rfl⟩ := List.mem_map.1 hmem
        rcases mem_insertSorted hentry with rfl | hold
        · exact hafter
        · exact hhead entry.1 (List.mem_map_of_mem hold)

/-- **Insertion keeps entries in ascending order.** -/
theorem Ascending.insert {node : FileTree} (hnode : node.Ascending) (place : List String)
    {tree : FileTree} (htree : tree.Ascending) : (FileTree.insert node place tree).Ascending := by
  have hempty : (directory []).Ascending := .directory List.Pairwise.nil (by simp)
  induction place generalizing tree with
  | nil =>
    unfold FileTree.insert
    split
    · exact htree
    · exact hnode
  | cons name rest ih =>
    cases tree with
    | file bytes =>
      refine .directory (List.pairwise_singleton _ _) ?_
      exact List.forall_mem_singleton.2 (ih hempty)
    | directory entries =>
      obtain ⟨hnames, hentries⟩ := everywhere_directory_iff.1 htree
      -- what was there before is kept beneath the name, and an empty directory stands in for nothing
      have hbeneath : ((entries.lookup name).getD (directory [])).Ascending := by
        cases hlookup : entries.lookup name with
        | none => exact hempty
        | some entry => exact hentries (name, entry) (Keyed.mem_of_lookup hlookup)
      refine .directory (ascending_insertSorted name _ hnames) ?_
      intro entry hentry
      rcases mem_insertSorted hentry with rfl | hold
      · exact ih hbeneath
      · exact hentries entry hold

/-! ## Files by their places -/

/-- Names are followed one after the other. -/
theorem at?_append (tree : FileTree) (first second : List String) :
    tree.at? (first ++ second) = (tree.at? first).bind (·.at? second) := by
  induction first generalizing tree with
  | nil => cases tree <;> rfl
  | cons name rest ih =>
    cases tree with
    | file bytes => rfl
    | directory entries =>
      rw [List.cons_append, at?, at?]
      cases entries.lookup name with
      | none => rfl
      | some entry => exact ih entry

/-- A name leads from a directory to the entry that stands beside it. -/
theorem at?_cons_eq_some_iff {entries : List (String × FileTree)}
    (h : (entries.map Prod.fst).Nodup) {name : String} {rest : List String} {tree : FileTree} :
    (directory entries).at? (name :: rest) = some tree ↔
      ∃ entry, (name, entry) ∈ entries ∧ entry.at? rest = some tree := by
  simp only [← Keyed.lookup_eq_some_iff h]
  rw [at?]
  cases entries.lookup name <;> simp

/-- What holds everywhere in a tree, holds everywhere beneath a place in it. -/
theorem Everywhere.at? {Row : List String → Prop} {tree : FileTree} (h : tree.Everywhere Row)
    {place : List String} {beneath : FileTree} (hat : tree.at? place = some beneath) :
    beneath.Everywhere Row := by
  induction place generalizing tree with
  | nil =>
    cases tree <;> exact Option.some.inj hat ▸ h
  | cons name rest ih =>
    cases tree with
    | file bytes => cases hat
    | directory entries =>
      rw [FileTree.at?] at hat
      cases hlookup : entries.lookup name with
      | none => rw [hlookup] at hat; cases hat
      | some entry =>
        rw [hlookup] at hat
        exact ih ((everywhere_directory_iff.1 h).2 _ (Keyed.mem_of_lookup hlookup)) hat

theorem filesAmong_eq_flatMap (place : List String) (entries : List (String × FileTree)) :
    filesAmong place entries =
      entries.flatMap fun entry => filesUnder (place ++ [entry.1]) entry.2 := by
  induction entries with
  | nil => rfl
  | cons head rest ih => rw [filesAmong, ih]; rfl

/-- **The files of a tree** are those that paths of names lead to. -/
theorem mem_filesUnder {tree : FileTree} (h : tree.Apart) {place : List String}
    {file : List String × ByteArray} :
    file ∈ tree.filesUnder place ↔
      ∃ rest, file.1 = place ++ rest ∧ tree.at? rest = some (.file file.2) := by
  induction tree using FileTree.induction generalizing place with
  | file bytes =>
    rw [filesUnder, List.mem_singleton]
    constructor
    · rintro rfl
      exact ⟨[], (List.append_nil place).symm, rfl⟩
    · rintro ⟨rest, hplace, hat⟩
      cases rest with
      | nil =>
        obtain rfl := FileTree.file.inj (Option.some.inj hat)
        exact Prod.ext (hplace.trans (List.append_nil place)) rfl
      | cons name rest => nomatch hat
  | directory entries ih =>
    obtain ⟨hnames, hentries⟩ := everywhere_directory_iff.1 h
    rw [filesUnder, filesAmong_eq_flatMap, List.mem_flatMap]
    -- the first name leads to an entry, and the others lead on from there
    constructor
    · rintro ⟨entry, hentry, hfile⟩
      obtain ⟨rest, hplace, hat⟩ := (ih entry hentry (hentries entry hentry)).1 hfile
      refine ⟨entry.1 :: rest, ?_, (at?_cons_eq_some_iff hnames).2 ⟨entry.2, hentry, hat⟩⟩
      rw [hplace, List.append_assoc]; rfl
    · rintro ⟨rest, hplace, hat⟩
      cases rest with
      | nil => cases hat
      | cons name rest =>
        obtain ⟨entry, hentry, hbeneath⟩ := (at?_cons_eq_some_iff hnames).1 hat
        refine ⟨(name, entry), hentry, (ih _ hentry (hentries _ hentry)).2 ⟨rest, ?_, hbeneath⟩⟩
        rw [hplace, List.append_assoc]; rfl

/-- **Each of them is listed once.** -/
theorem nodup_filesUnder {tree : FileTree} (h : tree.Apart) (place : List String) :
    ((tree.filesUnder place).map Prod.fst).Nodup := by
  induction tree using FileTree.induction generalizing place with
  | file bytes => exact List.nodup_singleton _
  | directory entries ih =>
    obtain ⟨hnames, hentries⟩ := everywhere_directory_iff.1 h
    rw [filesUnder, filesAmong_eq_flatMap, List.map_flatMap, List.nodup_flatMap]
    refine ⟨fun entry hentry => ih entry hentry (hentries entry hentry) _, ?_⟩
    -- the places of two entries part at their names
    refine (List.pairwise_map.1 hnames).imp_of_mem ?_
    intro entry other hentry hother hne place' hplace hplace'
    obtain ⟨file, hfile, rfl⟩ := List.mem_map.1 hplace
    obtain ⟨file', hfile', hsame⟩ := List.mem_map.1 hplace'
    obtain ⟨rest, hrest, -⟩ := (mem_filesUnder (hentries entry hentry)).1 hfile
    obtain ⟨rest', hrest', -⟩ := (mem_filesUnder (hentries other hother)).1 hfile'
    rw [hrest, hrest', List.append_assoc, List.append_assoc] at hsame
    have hcons := List.append_cancel_left hsame
    exact hne (List.cons.inj hcons).1.symm

end FileTree

end SelectionRecall
