import Mathlib.Data.List.Forall2
import Mathlib.Data.List.TakeWhile
import SelectionRecall.Files.Discovery
import SelectionRecall.Proofs.Files.Listing

/-!
# What a search for documents finds

A search goes through its paths one by one, and comes to each file at or under a path once for this path.
Each of them is either found or skipped, as its extension tells, whatever other paths lead to it. Only if
there is one path and it leads to a file that would be skipped, this file is taken. The search stops at the
first path that is too long: that of a directory, as it was walked to, or the absolute one of a file that
is found.

* `Path.HasExtension`, `Path.extension?_eq_some_iff`: the extension of a file name.
* `Discovery.Wanted`, `Discovery.isWanted_iff`: the files that are looked for.
* `FileTree.Searchable`, `FileTree.scanFault?_eq_none_iff`: what stops a search of a tree.
* `FileSystem.TakenAlone`: the file that is taken whatever its extension.
* `FileSystem.Searches`, `FileSystem.exists_discover_eq_ok_iff`: a search comes to its end just if nothing
  stops it.
* `FileSystem.Lists`: the files at or under a path, each of them once.
* `FileSystem.accounts_discover`: what is found, and how many files are skipped.
* `FileSystem.accounts_discover_site`: paths that lead to one file twice.
-/

namespace SelectionRecall

/-! ## Extensions -/

namespace Path

/-- The name ends in a point and the extension, in which there is no other point, and something stands
before them. -/
def HasExtension (name extension : String) : Prop :=
  ∃ stem, stem ≠ [] ∧ name.toList = stem ++ '.' :: extension.toList ∧ '.' ∉ extension.toList

/-- **The extension of a file name** is found from its end. -/
theorem extension?_eq_some_iff {name extension : String} :
    extension? name = some extension ↔ HasExtension name extension := by
  unfold extension?
  constructor
  · intro h
    dsimp only at h
    split at h
    · rename_i hlength
      -- behind the tail there is the point, and more than that
      have hsplit := @List.takeWhile_append_dropWhile _ (fun c => decide (c ≠ '.')) name.toList.reverse
      have hfree : ∀ c ∈ name.toList.reverse.takeWhile (· ≠ '.'), c ≠ '.' := by
        intro c hc
        simpa using List.mem_takeWhile_imp hc
      cases hrest : name.toList.reverse.dropWhile (· ≠ '.') with
      | nil =>
        rw [hrest, List.append_nil] at hsplit
        rw [hsplit, List.length_reverse] at hlength
        omega
      | cons point before =>
        have hpoint : point = '.' := by
          have hhead := List.head?_dropWhile_not (fun c => decide (c ≠ '.')) name.toList.reverse
          rw [hrest] at hhead
          simpa using hhead
        subst hpoint
        rw [hrest] at hsplit
        obtain rfl := Option.some.inj h
        rw [HasExtension, String.toList_ofList]
        refine ⟨before.reverse, ?_, ?_, fun hmem => hfree _ (List.mem_reverse.1 hmem) rfl⟩
        · intro hnil
          obtain rfl := List.reverse_eq_nil_iff.1 hnil
          have hlengths := congrArg List.length hsplit
          rw [List.length_append, List.length_singleton, List.length_reverse] at hlengths
          omega
        · have hname := congrArg List.reverse hsplit
          simpa using hname.symm
    · cases h
  · rintro ⟨stem, hstem, hname, hfree⟩
    have hreverse : name.toList.reverse = extension.toList.reverse ++ '.' :: stem.reverse := by
      rw [hname]; simp
    have htail : name.toList.reverse.takeWhile (· ≠ '.') = extension.toList.reverse := by
      rw [hreverse, List.takeWhile_append_of_pos]
      · simp
      · intro c hc
        have hne : c ≠ '.' := fun heq => hfree (heq ▸ List.mem_reverse.1 hc)
        simpa using hne
    have hlength : extension.toList.length + 1 < name.toList.length := by
      have hpos : 0 < stem.length := List.length_pos_iff.2 hstem
      rw [hname, List.length_append, List.length_cons]
      omega
    dsimp only
    rw [htail, List.length_reverse, if_pos hlength, List.reverse_reverse, String.ofList_toList]

end Path

namespace Discovery

/-- The last name of the place has one of the extensions, which may be given with points in front. -/
def Wanted (extensions : List String) (place : List String) : Prop :=
  ∃ name extension, place.getLast? = some name ∧ Path.HasExtension name extension ∧
    ∃ given ∈ extensions, ∃ points, given.toList = List.replicate points '.' ++ extension.toList

/-- An extension without points is what is left of one with points in front. -/
theorem bareExtension_eq_iff {given extension : String} (h : '.' ∉ extension.toList) :
    bareExtension given = extension ↔
      ∃ points, given.toList = List.replicate points '.' ++ extension.toList := by
  unfold bareExtension
  constructor
  · rintro rfl
    have hpoints : ∀ c ∈ given.toList.takeWhile (· = '.'), c = '.' := by
      intro c hc
      simpa using List.mem_takeWhile_imp hc
    refine ⟨(given.toList.takeWhile (· = '.')).length, ?_⟩
    rw [← List.eq_replicate_of_mem hpoints, String.toList_ofList, List.takeWhile_append_dropWhile]
  · rintro ⟨points, hgiven⟩
    have hbare : extension.toList.dropWhile (· = '.') = extension.toList := by
      cases hextension : extension.toList with
      | nil => rfl
      | cons c rest =>
        have hne : c ≠ '.' := fun heq => h (by rw [hextension, heq]; exact List.mem_cons_self)
        exact List.dropWhile_cons_of_neg (by simpa using hne)
    have hdrop : given.toList.dropWhile (· = '.') = extension.toList := by
      rw [hgiven, List.dropWhile_append_of_pos, hbare]
      intro c hc
      simpa using List.eq_of_mem_replicate hc
    rw [hdrop, String.ofList_toList]

/-- **The files that are looked for** are recognised. -/
theorem isWanted_iff {extensions : List String} {place : List String} :
    isWanted extensions place = true ↔ Wanted extensions place := by
  have hfound : isWanted extensions place = true ↔ ∃ name extension, place.getLast? = some name ∧
      Path.extension? name = some extension ∧ ∃ given ∈ extensions, bareExtension given = extension := by
    unfold isWanted
    cases place.getLast? with
    | none => simp
    | some name => cases hextension : Path.extension? name <;> simp [hextension, eq_comm, and_comm]
  rw [hfound]
  unfold Wanted
  refine exists_congr fun name => exists_congr fun extension => and_congr_right fun _ => ?_
  rw [Path.extension?_eq_some_iff]
  refine and_congr_right fun hextension => ?_
  obtain ⟨-, -, -, hfree⟩ := hextension
  simp only [bareExtension_eq_iff hfree]

instance (extensions place : List String) : Decidable (Wanted extensions place) :=
  decidable_of_iff _ isWanted_iff

/-- Files are found or skipped as their extensions tell. -/
theorem ofFiles_eq (extensions : List String) (files : List (List String × ByteArray)) :
    ofFiles extensions files =
      ⟨files.filter fun file => Wanted extensions file.1,
        (files.filter fun file => ¬ Wanted extensions file.1).length⟩ := by
  have hwanted : ∀ file : List String × ByteArray,
      isWanted extensions file.1 = decide (Wanted extensions file.1) := by
    intro file
    rw [Bool.eq_iff_iff, isWanted_iff, decide_eq_true_eq]
  have hlength := List.length_eq_length_filter_add (l := files)
    fun file => decide (Wanted extensions file.1)
  unfold ofFiles
  simp only [hwanted, decide_not]
  rw [hlength, Nat.add_sub_cancel_left]

end Discovery

/-! ## What stops a search -/

namespace FileTree

/-- **Nothing stops a search** of a tree that stands at `place`, to which `path` leads. The paths of its
directories are short enough to list them, and so are the absolute paths of the files that are found. -/
structure Searchable (tree : FileTree) (extensions : List String) (path : String)
    (place : List String) : Prop where
  listed : ∀ rest entries, tree.at? rest = some (.directory entries) →
    Path.isOverlong (rest.foldl Path.join path) = false
  resolved : ∀ rest bytes, tree.at? rest = some (.file bytes) →
    Discovery.Wanted extensions (place ++ rest) →
      Path.isOverlong (FileSystem.pathOf (place ++ rest)) = false

variable {extensions : List String} {start path : String} {place : List String}

theorem searchable_file_iff {bytes : ByteArray} :
    (file bytes).Searchable extensions path place ↔
      (Discovery.Wanted extensions place → Path.isOverlong (FileSystem.pathOf place) = false) := by
  constructor
  · rintro ⟨-, hresolved⟩
    simpa using hresolved [] bytes rfl
  · intro h
    refine ⟨fun rest entries hat => ?_, fun rest other hat => ?_⟩
    · cases rest <;> nomatch hat
    · cases rest with
      | nil => simpa using h
      | cons name rest => nomatch hat

/-- A directory is searched by its own path, and by its entries. -/
theorem searchable_directory_iff {entries : List (String × FileTree)}
    (h : (entries.map Prod.fst).Nodup) :
    (directory entries).Searchable extensions path place ↔
      Path.isOverlong path = false ∧ ∀ entry ∈ entries,
        entry.2.Searchable extensions (Path.join path entry.1) (place ++ [entry.1]) := by
  constructor
  · rintro ⟨hlisted, hresolved⟩
    refine ⟨hlisted [] entries rfl, fun entry hentry => ⟨fun rest others hat => ?_, ?_⟩⟩
    · exact hlisted (entry.1 :: rest) others ((at?_cons_eq_some_iff h).2 ⟨entry.2, hentry, hat⟩)
    · intro rest bytes hat
      have hfile := hresolved (entry.1 :: rest) bytes
        ((at?_cons_eq_some_iff h).2 ⟨entry.2, hentry, hat⟩)
      rwa [List.append_assoc]
  · rintro ⟨hpath, hentries⟩
    refine ⟨fun rest others hat => ?_, fun rest bytes hat => ?_⟩
    · cases rest with
      | nil => exact hpath
      | cons name rest =>
        obtain ⟨entry, hentry, hbeneath⟩ := (at?_cons_eq_some_iff h).1 hat
        exact (hentries _ hentry).listed rest others hbeneath
    · cases rest with
      | nil => cases hat
      | cons name rest =>
        obtain ⟨entry, hentry, hbeneath⟩ := (at?_cons_eq_some_iff h).1 hat
        have hfile := (hentries _ hentry).resolved rest bytes hbeneath
        rwa [List.append_assoc] at hfile

theorem scanFaultAmong?_eq_none_iff {entries : List (String × FileTree)} :
    scanFaultAmong? extensions start path place entries = none ↔ ∀ entry ∈ entries,
      entry.2.scanFault? extensions start (Path.join path entry.1) (place ++ [entry.1]) = none := by
  induction entries with
  | nil => simp [scanFaultAmong?]
  | cons head rest ih =>
    rw [scanFaultAmong?, List.forall_mem_cons, ← ih]
    cases head.2.scanFault? extensions start (Path.join path head.1) (place ++ [head.1]) <;> simp

/-- **What stops a search** is found. -/
theorem scanFault?_eq_none_iff {tree : FileTree} (h : tree.Apart) :
    tree.scanFault? extensions start path place = none ↔
      tree.Searchable extensions path place := by
  induction tree using FileTree.induction generalizing path place with
  | file bytes =>
    rw [searchable_file_iff, scanFault?, ← Discovery.isWanted_iff]
    cases Discovery.isWanted extensions place <;> simp
  | directory entries ih =>
    obtain ⟨hnames, hentries⟩ := everywhere_directory_iff.1 h
    rw [searchable_directory_iff hnames, scanFault?]
    cases Path.isOverlong path with
    | true => simp
    | false =>
      rw [if_neg Bool.false_ne_true, scanFaultAmong?_eq_none_iff, and_iff_right rfl]
      exact forall₂_congr fun entry hentry => ih entry hentry (hentries entry hentry)

end FileTree

/-! ## The search -/

namespace FileSystem

variable {files : FileSystem} {extensions : List String}

/-- The path leads somewhere, and nothing stops a search of what is there. -/
def Searchable (files : FileSystem) (extensions : List String) (path : String) : Prop :=
  ∃ place tree, files.find path = .ok (place, tree) ∧ tree.Searchable extensions path place

/-- What a path leads to stands at its place. -/
theorem at?_of_find {path : String} {place : List String} {tree : FileTree}
    (h : files.find path = .ok (place, tree)) : files.root.at? place = some tree := by
  unfold find at h
  split at h
  · cases h
  split at h
  · cases h
  split at h
  · cases h
  dsimp only at h
  split at h
  · cases h
  split at h
  · cases h
  · rename_i hat
    obtain ⟨rfl, rfl⟩ := Prod.mk.inj (Except.ok.inj h)
    exact hat

theorem filesAt_eq_ok_iff {path : String} {listed : List (List String × ByteArray)} :
    files.filesAt extensions path = .ok listed ↔
      ∃ place tree, files.find path = .ok (place, tree) ∧
        tree.scanFault? extensions path path place = none ∧ tree.filesUnder place = listed := by
  unfold filesAt
  cases files.find path with
  | error cause => simp
  | ok found =>
    obtain ⟨place, tree⟩ := found
    cases hfault : tree.scanFault? extensions path path place with
    | some fault => simp [hfault]
    | none => simp [hfault]

/-- A path can be searched just if there is a list of the files that are there. -/
theorem searchable_iff (hroot : files.root.Apart) {path : String} :
    files.Searchable extensions path ↔ ∃ listed, files.filesAt extensions path = .ok listed := by
  constructor
  · rintro ⟨place, tree, hfind, htree⟩
    exact ⟨_, filesAt_eq_ok_iff.2 ⟨place, tree, hfind,
      (FileTree.scanFault?_eq_none_iff (hroot.at? (at?_of_find hfind))).2 htree, rfl⟩⟩
  · rintro ⟨listed, h⟩
    obtain ⟨place, tree, hfind, hfault, -⟩ := filesAt_eq_ok_iff.1 h
    exact ⟨place, tree, hfind,
      (FileTree.scanFault?_eq_none_iff (hroot.at? (at?_of_find hfind))).1 hfault⟩

/-- **The files of all paths** are those of each of them, path by path. -/
theorem filesAtAll_eq_ok_iff {paths : List String} {all : List (List String × ByteArray)} :
    files.filesAtAll extensions paths = .ok all ↔
      ∃ listings,
        List.Forall₂ (fun path listed => files.filesAt extensions path = .ok listed) paths listings ∧
        listings.flatten = all := by
  induction paths generalizing all with
  | nil => simp [filesAtAll]
  | cons path rest ih =>
    simp only [List.forall₂_cons_left_iff]
    rw [filesAtAll]
    cases hhere : files.filesAt extensions path with
    | error error => simp
    | ok here =>
      cases hrest : files.filesAtAll extensions rest with
      | error error =>
        have hnone : ∀ listings, ¬ List.Forall₂
            (fun path listed => files.filesAt extensions path = .ok listed) rest listings := by
          intro listings h
          have hok := ih.2 ⟨listings, h, rfl⟩
          rw [hrest] at hok
          cases hok
        simp [hnone]
      | ok there =>
        obtain ⟨listings, hlistings, hthere⟩ := ih.1 hrest
        constructor
        · rintro hall
          obtain rfl := Except.ok.inj hall
          exact ⟨here :: listings, ⟨here, listings, rfl, hlistings, rfl⟩, by rw [← hthere]; rfl⟩
        · rintro ⟨-, ⟨first, others, hfirst, hothers, rfl⟩, rfl⟩
          obtain rfl := Except.ok.inj hfirst
          obtain rfl := Except.ok.inj (hrest.symm.trans (ih.2 ⟨others, hothers, rfl⟩))
          rfl

/-- All files are listed just if each path can be searched. -/
theorem exists_filesAtAll_eq_ok_iff (hroot : files.root.Apart) {paths : List String} :
    (∃ all, files.filesAtAll extensions paths = .ok all) ↔
      ∀ path ∈ paths, files.Searchable extensions path := by
  induction paths with
  | nil => simp [filesAtAll]
  | cons path rest ih =>
    rw [List.forall_mem_cons, ← ih, searchable_iff hroot, filesAtAll]
    cases files.filesAt extensions path with
    | error error => simp
    | ok here => cases files.filesAtAll extensions rest <;> simp

/-- The file is taken alone: the only path leads to it, and its extension is none of those given. -/
def TakenAlone (files : FileSystem) (paths extensions : List String)
    (file : List String × ByteArray) : Prop :=
  ∃ path, paths = [path] ∧ files.find path = .ok (file.1, .file file.2) ∧
    ¬ Discovery.Wanted extensions file.1

/-- Nothing stops a search of the paths, be it of one of them or of the file that is taken alone. -/
structure Searches (files : FileSystem) (paths extensions : List String) : Prop where
  searchable : ∀ path ∈ paths, files.Searchable extensions path
  alone : ∀ file, files.TakenAlone paths extensions file → Path.isOverlong (pathOf file.1) = false

/-- What is found where a file is taken alone: this file, if its absolute path is not too long. -/
theorem discover_of_takenAlone {paths : List String} {file : List String × ByteArray}
    (h : files.TakenAlone paths extensions file) :
    ∃ path, files.discover paths extensions =
      if Path.isOverlong (pathOf file.1) then .error (.unresolved path) else .ok ⟨[file], 0⟩ := by
  obtain ⟨path, rfl, hfind, hother⟩ := h
  refine ⟨path, ?_⟩
  have hskipped : Discovery.isWanted extensions file.1 = false := by
    rwa [← Bool.not_eq_true, Discovery.isWanted_iff]
  have hlisted : files.filesAt extensions path = .ok [file] := by
    refine filesAt_eq_ok_iff.2 ⟨file.1, .file file.2, hfind, ?_, rfl⟩
    rw [FileTree.scanFault?, hskipped]; rfl
  have hall : files.filesAtAll extensions [path] = .ok [file] := by
    rw [filesAtAll, hlisted]; rfl
  -- the file alone would be skipped, and so the path is looked at again
  have hnothing : (Discovery.ofFiles extensions [file]).found = [] := by
    rw [Discovery.ofFiles_eq]
    simp [hother]
  have hfile : files.isFile path = true := by
    unfold isFile
    rw [hfind]
  unfold discover
  rw [hall]
  dsimp only
  rw [hnothing]
  dsimp only
  rw [if_pos hfile]

/-- What is found where no file is taken alone. -/
theorem discover_of_not_takenAlone {paths : List String} {all : List (List String × ByteArray)}
    (hall : files.filesAtAll extensions paths = .ok all)
    (h : ∀ file, ¬ files.TakenAlone paths extensions file) :
    files.discover paths extensions = .ok (.ofFiles extensions all) := by
  unfold discover
  rw [hall]
  dsimp only
  split
  · rename_i path only hnothing
    split
    · -- a single file that is skipped would be taken alone
      rename_i hfile
      refine absurd ?_ (h only)
      obtain ⟨listings, hlistings, hflatten⟩ := filesAtAll_eq_ok_iff.1 hall
      obtain ⟨listed, others, hlisted, hnil, rfl⟩ := List.forall₂_cons_left_iff.1 hlistings
      rw [List.forall₂_nil_left_iff] at hnil
      rw [hnil, List.flatten_singleton] at hflatten
      obtain ⟨place, tree, hfind, -, hunder⟩ := filesAt_eq_ok_iff.1 hlisted
      unfold isFile at hfile
      rw [hfind] at hfile
      cases tree with
      | directory entries => cases hfile
      | file bytes =>
        obtain rfl : (place, bytes) = only := (List.cons.inj (hunder.trans hflatten)).1
        refine ⟨path, rfl, hfind, fun hwanted => ?_⟩
        rw [Discovery.ofFiles_eq] at hnothing
        simp [hwanted] at hnothing
    · rfl
  · rfl

/-- **A search comes to its end** just if nothing stops it. -/
theorem exists_discover_eq_ok_iff (hroot : files.root.Apart) {paths : List String} :
    (∃ discovery, files.discover paths extensions = .ok discovery) ↔ files.Searches paths extensions := by
  constructor
  · rintro ⟨discovery, h⟩
    refine ⟨(exists_filesAtAll_eq_ok_iff hroot).1 ?_, fun file halone => ?_⟩
    · cases hall : files.filesAtAll extensions paths with
      | error error => rw [discover, hall] at h; cases h
      | ok all => exact ⟨all, rfl⟩
    · obtain ⟨path, hdiscover⟩ := discover_of_takenAlone halone
      rw [hdiscover] at h
      by_contra hlong
      rw [Bool.not_eq_false] at hlong
      rw [if_pos hlong] at h
      cases h
  · rintro ⟨hsearchable, halone⟩
    obtain ⟨all, hall⟩ := (exists_filesAtAll_eq_ok_iff hroot).2 hsearchable
    by_cases hfile : ∃ file, files.TakenAlone paths extensions file
    · obtain ⟨file, hfile⟩ := hfile
      obtain ⟨path, hdiscover⟩ := discover_of_takenAlone hfile
      rw [halone file hfile, if_neg Bool.false_ne_true] at hdiscover
      exact ⟨_, hdiscover⟩
    · exact ⟨_, discover_of_not_takenAlone hall fun file h => hfile ⟨file, h⟩⟩

/-- The files at or under a path: those at places that begin with the one that the path leads to, each
of them once. -/
structure Lists (files : FileSystem) (path : String) (listed : List (List String × ByteArray)) :
    Prop where
  files : ∃ place tree, files.find path = .ok (place, tree) ∧ ∀ file, file ∈ listed ↔
    place <+: file.1 ∧ files.root.at? file.1 = some (.file file.2)
  once : (listed.map Prod.fst).Nodup

/-- The files that a search lists for a path are those at or under it. -/
theorem lists_of_filesAt (hroot : files.root.Apart) {path : String}
    {listed : List (List String × ByteArray)} (h : files.filesAt extensions path = .ok listed) :
    files.Lists path listed := by
  obtain ⟨place, tree, hfind, -, rfl⟩ := filesAt_eq_ok_iff.1 h
  have hat := at?_of_find hfind
  -- a place at or under the path is the place of the path, followed by names from there on
  have htree : tree.Apart := hroot.at? hat
  refine ⟨⟨place, tree, hfind, fun file => ?_⟩, FileTree.nodup_filesUnder htree place⟩
  rw [FileTree.mem_filesUnder htree]
  constructor
  · rintro ⟨rest, hplace, hrest⟩
    rw [hplace, FileTree.at?_append, hat]
    exact ⟨List.prefix_append place rest, hrest⟩
  · rintro ⟨⟨rest, hplace⟩, hfile⟩
    rw [← hplace, FileTree.at?_append, hat] at hfile
    exact ⟨rest, hplace.symm, hfile⟩

/-- What is found among the files of all paths is what is found among those of each of them. -/
theorem ofFiles_flatten (extensions : List String)
    (listings : List (List (List String × ByteArray))) :
    Discovery.ofFiles extensions listings.flatten =
      ⟨listings.flatMap (·.filter fun file => Discovery.Wanted extensions file.1),
        (listings.flatMap (·.filter fun file => ¬ Discovery.Wanted extensions file.1)).length⟩ := by
  rw [Discovery.ofFiles_eq, List.filter_flatten, List.filter_flatten, List.flatMap_def,
    List.flatMap_def]

/-- **What is found, and how many files are skipped**, if nothing stops the search. Each file at or under
a path counts once for this path: it is found if its extension is one of those given, and is skipped
otherwise. Only if the one path that is given leads to a file with another extension, this file is found,
and none is skipped. -/
theorem accounts_discover (hroot : files.root.Apart) {paths : List String}
    (hsearches : files.Searches paths extensions) :
    ∃ discovery listings, files.discover paths extensions = .ok discovery ∧
      List.Forall₂ files.Lists paths listings ∧
      ((∃ file, files.TakenAlone paths extensions file ∧ discovery = ⟨[file], 0⟩) ∨
        (∀ file, ¬ files.TakenAlone paths extensions file) ∧
          discovery.found =
            listings.flatMap (·.filter fun file => Discovery.Wanted extensions file.1) ∧
          discovery.skipped =
            (listings.flatMap (·.filter fun file => ¬ Discovery.Wanted extensions file.1)).length) := by
  obtain ⟨all, hall⟩ := (exists_filesAtAll_eq_ok_iff hroot).2 hsearches.searchable
  obtain ⟨listings, hlistings, rfl⟩ := filesAtAll_eq_ok_iff.1 hall
  have hlists : List.Forall₂ files.Lists paths listings :=
    hlistings.imp fun _ _ => lists_of_filesAt hroot
  by_cases hfile : ∃ file, files.TakenAlone paths extensions file
  · obtain ⟨file, halone⟩ := hfile
    obtain ⟨path, hdiscover⟩ := discover_of_takenAlone halone
    rw [hsearches.alone file halone, if_neg Bool.false_ne_true] at hdiscover
    exact ⟨_, listings, hdiscover, hlists, .inl ⟨file, halone, rfl⟩⟩
  · have hnone : ∀ file, ¬ files.TakenAlone paths extensions file := fun file h => hfile ⟨file, h⟩
    have hdiscover := discover_of_not_takenAlone hall hnone
    rw [ofFiles_flatten] at hdiscover
    exact ⟨_, listings, hdiscover, hlists, .inr ⟨hnone, rfl, rfl⟩⟩

/-- A directory with a file whose name is nothing but an extension, one without an extension, and a
directory that is named like a document. -/
def appTree : FileTree :=
  .directory [(".graphql", .file .empty), ("LICENSE", .file .empty), ("a.graphql", .file .empty),
    ("old.graphql", .directory [("b.v2.gql", .file .empty)])]

/-- The file system that holds it. -/
def appFiles : FileSystem where
  root := .directory [("app", appTree)]
  current := ["app"]

/-- A file beneath both paths is found for each of them, and two files are skipped. -/
theorem accounts_discover_site :
    appFiles.root.Apart ∧ appFiles.Searches ["/app", "old.graphql"] [".graphql", "gql"] ∧
      ∃ discovery listings,
        appFiles.discover ["/app", "old.graphql"] [".graphql", "gql"] = .ok discovery ∧
        List.Forall₂ appFiles.Lists ["/app", "old.graphql"] listings ∧
        (listings.flatMap (·.filter fun file =>
          Discovery.Wanted [".graphql", "gql"] file.1)).map Prod.fst =
            [["app", "a.graphql"], ["app", "old.graphql", "b.v2.gql"],
              ["app", "old.graphql", "b.v2.gql"]] ∧
        discovery.skipped = 2 := by
  have happ : appTree.Apart := by
    refine .directory (by decide) ?_
    simp only [List.forall_mem_cons, List.not_mem_nil, false_imp_iff, implies_true, and_true]
    exact ⟨.file _, .file _, .file _, .directory (by decide)
      (List.forall_mem_singleton.2 (.file _))⟩
  have hroot : appFiles.root.Apart :=
    .directory (by decide) (List.forall_mem_singleton.2 happ)
  have happListed : appFiles.filesAt [".graphql", "gql"] "/app" = .ok
      [(["app", ".graphql"], .empty), (["app", "LICENSE"], .empty), (["app", "a.graphql"], .empty),
        (["app", "old.graphql", "b.v2.gql"], .empty)] :=
    filesAt_eq_ok_iff.2 ⟨["app"], appTree, by with_unfolding_all rfl, by decide +kernel, by rfl⟩
  have holdListed : appFiles.filesAt [".graphql", "gql"] "old.graphql" = .ok
      [(["app", "old.graphql", "b.v2.gql"], .empty)] := by
    have hshort : "old.graphql".utf8ByteSize ≤ 255 := by decide
    have hwalk : appFiles.walk ["app"] ["old.graphql"] = .ok ["app", "old.graphql"] := by
      simp [walk, appFiles, FileTree.at?, appTree, Path.nameLimit, hshort]
    have hpieces : Path.pieces "old.graphql" = ["old.graphql"] := by decide
    have hfind : appFiles.find "old.graphql" =
        .ok (["app", "old.graphql"], .directory [("b.v2.gql", .file .empty)]) := by
      have hcurrent : (if Path.isAbsolute "old.graphql" then [] else appFiles.current) = ["app"] := by
        decide
      rw [find, if_neg (by decide), if_neg (by decide), if_neg (by decide), hpieces]
      simp only [hcurrent, hwalk]
      rfl
    exact filesAt_eq_ok_iff.2 ⟨_, _, hfind, by decide +kernel, by rfl⟩
  have hsearches : appFiles.Searches ["/app", "old.graphql"] [".graphql", "gql"] := by
    refine ⟨List.forall_mem_cons.2 ⟨(searchable_iff hroot).2 ⟨_, happListed⟩,
      List.forall_mem_singleton.2 ((searchable_iff hroot).2 ⟨_, holdListed⟩)⟩, ?_⟩
    rintro file ⟨path, hpath, -⟩
    cases hpath
  obtain ⟨discovery, listings, hdiscover, hlists, hcases⟩ := accounts_discover hroot hsearches
  have heval : appFiles.discover ["/app", "old.graphql"] [".graphql", "gql"] = .ok
      ⟨[(["app", "a.graphql"], .empty), (["app", "old.graphql", "b.v2.gql"], .empty),
        (["app", "old.graphql", "b.v2.gql"], .empty)], 2⟩ := by
    simp only [discover, filesAtAll, happListed, holdListed]
    rfl
  refine ⟨hroot, hsearches, discovery, listings, hdiscover, hlists, ?_⟩
  obtain rfl := Except.ok.inj (heval.symm.trans hdiscover)
  rcases hcases with ⟨file, ⟨path, hpath, -⟩, -⟩ | ⟨-, hfound, hskipped⟩
  · cases hpath
  · exact ⟨by rw [← hfound]; rfl, rfl⟩

end FileSystem

end SelectionRecall
