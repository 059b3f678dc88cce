import Mathlib.Data.List.Dedup
import SelectionRecall.Proofs.Expansion.Requests

/-!
# How generated fragments are named

A fragment that is generated is named by a search. The base is tried first, and a candidate that is taken
gives way to the base followed by a counter. Nothing bounds this search but the names that are taken: its
candidates differ from each other, so that each of these stops it once at most. So it ends, whatever the
base looks like, and the counter stays as small as the number of names. It has 32 bits, which are enough
for fewer than `2 ^ 31 - 2` names. With more of them, the search may come to the greatest counter, and a
program that checks its arithmetic stops there.

* `FragmentSupply.Overflow`, `FragmentSupply.Settles`: the search, step by step.
* `FragmentSupply.settles_of_free`, `FragmentSupply.Settles.unique`: where it ends.
* `FragmentSupply.settles_fault_iff`: with arithmetic that is checked it ends nowhere else.
* `FragmentSupply.FirstFree`, `FragmentSupply.firstFree_freshName`: that it ends, and with which name.
* `FragmentSupply.Gains`: what a supply gains by a fragment that is generated.
* `FragmentSupply.run`: reservations, offers and requests in any order.
* `FragmentSupply.NamesTaken`: all names in a supply are taken, after any of them.
* `FragmentSupply.gains_request_and_namesTaken`: all of this.
* `FragmentSupply.gains_request_and_namesTaken_todo`: a suffix that ends in a digit.
-/

namespace SelectionRecall

namespace FragmentSupply

/-! ## The search for a name -/

/-- What becomes of the greatest counter when it is raised. It depends on how the program was built: it
stops with a fault, or goes on with the least counter. -/
inductive Overflow where
  | fault
  | wrap

/-- The counter behind this one, which has 32 bits like it. -/
def Overflow.next? (counter : Int32) : Overflow → Option Int32
  | .fault => if counter = Int32.maxValue then none else some (counter + 1)
  | .wrap => some (counter + 1)

/-- The search has come to a name with this counter, and ends after so many steps with the last one. A
free name ends it, and a taken one gives way to the base followed by the counter, which is raised. -/
inductive Settles (overflow : Overflow) (taken : List String) (base : String) :
    String → Int32 → ℕ → String → Prop
  | free {tried counter} : tried ∉ taken → Settles overflow taken base tried counter 0 tried
  | taken {tried counter next steps name} : tried ∈ taken → overflow.next? counter = some next →
    Settles overflow taken base (base ++ toString counter) next steps name →
    Settles overflow taken base tried counter (steps + 1) name

/-- The number of candidates behind which the counter can still be raised: the base alone, and the base
followed by 2 to `2 ^ 31 - 2`. -/
def countedCandidates : ℕ := 2147483646

variable {overflow : Overflow} {taken : List String} {base name : String} {start steps : ℕ}

/-- The counter is written as the number that it is. -/
theorem toString_counter (h : start < countedCandidates) :
    toString (Int32.ofNat (start + 2)) = toString (start + 2) := by
  unfold countedCandidates at h
  have hvalue : (Int32.ofNat (start + 2)).toInt = ((start + 2 : ℕ) : Int) :=
    Int32.toInt_ofNat_of_lt (by omega)
  show toString (Int32.ofNat (start + 2)).toInt = toString (start + 2)
  rw [hvalue]; rfl

/-- Behind all but the last of these candidates the counter is raised. -/
theorem next?_counter (overflow : Overflow) (h : start + 1 < countedCandidates) :
    overflow.next? (Int32.ofNat (start + 2)) = some (Int32.ofNat (start + 1 + 2)) := by
  unfold countedCandidates at h
  have hraised : Int32.ofNat (start + 2) + 1 = Int32.ofNat (start + 1 + 2) :=
    (Int32.ofNat_add (start + 2) 1).symm
  have hsmall : Int32.ofNat (start + 2) ≠ Int32.maxValue := by
    rw [Ne, ← Int32.toInt_inj, Int32.toInt_ofNat_of_lt (by omega), Int32.toInt_maxValue]
    omega
  cases overflow with
  | fault => rw [Overflow.next?, if_neg hsmall, hraised]
  | wrap => rw [Overflow.next?, hraised]

/-- Behind the last one it is not, where that is a fault. -/
theorem next?_fault_eq_none (h : start + 1 = countedCandidates) :
    Overflow.fault.next? (Int32.ofNat (start + 2)) = none := by
  unfold countedCandidates at h
  have hlast : start + 2 = 2147483647 := by omega
  rw [hlast]
  rfl

/-- **From a candidate on the search ends** with the first one that is free, if the counter can be raised
so far. -/
theorem settles_of_free (hbound : start + steps < countedCandidates)
    (hfree : candidate base (start + steps) ∉ taken)
    (hearlier : ∀ earlier < steps, candidate base (start + earlier) ∈ taken) :
    Settles overflow taken base (candidate base start) (Int32.ofNat (start + 2)) steps
      (candidate base (start + steps)) := by
  induction steps generalizing start with
  | zero => exact .free hfree
  | succ steps ih =>
    -- the next candidate is the base with the counter, so the rest is the search from there on
    have hindex : ∀ index, start + 1 + index = start + (index + 1) := by omega
    have hnext : base ++ toString (Int32.ofNat (start + 2)) = candidate base (start + 1) := by
      rw [toString_counter (by omega), candidate]
    refine .taken (hearlier 0 (by omega)) (next?_counter overflow (by omega)) ?_
    rw [hnext, ← hindex steps]
    have hrest : start + 1 + steps < countedCandidates := by omega
    refine ih hrest (by rwa [hindex]) fun earlier h => ?_
    rw [hindex]
    exact hearlier (earlier + 1) (by omega)

/-- The search ends in one way only. -/
theorem Settles.unique {tried other : String} {counter : Int32} {count : ℕ}
    (h : Settles overflow taken base tried counter steps name)
    (h' : Settles overflow taken base tried counter count other) : steps = count ∧ name = other := by
  induction h generalizing count with
  | free hfree =>
    cases h' with
    | free => exact ⟨rfl, rfl⟩
    | taken htaken => exact absurd htaken hfree
  | taken htaken hnext _ ih =>
    cases h' with
    | free hfree => exact absurd htaken hfree
    | taken _ hnext' hrest =>
      cases Option.some.inj (hnext.symm.trans hnext')
      obtain ⟨rfl, rfl⟩ := ih hrest
      exact ⟨rfl, rfl⟩

/-- With arithmetic that is checked the search ends with a candidate behind which the counter can still be
raised. -/
theorem Settles.exists_candidate (hstart : start < countedCandidates)
    (h : Settles .fault taken base (candidate base start) (Int32.ofNat (start + 2)) steps name) :
    start + steps < countedCandidates ∧ candidate base (start + steps) = name ∧ name ∉ taken ∧
      ∀ earlier < steps, candidate base (start + earlier) ∈ taken := by
  induction steps generalizing start with
  | zero =>
    cases h with
    | free hfree => exact ⟨hstart, rfl, hfree, fun earlier h => absurd h (Nat.not_lt_zero earlier)⟩
  | succ steps ih =>
    cases h with
    | taken htaken hnext hrest =>
      have hnotLast : start + 1 ≠ countedCandidates := by
        intro hlast
        rw [next?_fault_eq_none hlast] at hnext
        cases hnext
      rw [next?_counter .fault (by omega), Option.some.injEq] at hnext
      rw [← hnext, toString_counter hstart] at hrest
      obtain ⟨hbound, hname, hfree, hearlier⟩ := @ih (start + 1) (by omega) hrest
      have hindex : ∀ index, start + 1 + index = start + (index + 1) := by omega
      simp only [hindex] at hbound hname hearlier
      refine ⟨hbound, hname, hfree, fun earlier h => ?_⟩
      cases earlier with
      | zero => exact htaken
      | succ earlier => exact hearlier earlier (by omega)

/-- **With arithmetic that is checked the search ends** with the first candidate that is free, if there is
one behind which the counter can still be raised, and nowhere else. -/
theorem settles_fault_iff :
    Settles .fault taken base base 2 steps name ↔
      steps < countedCandidates ∧ candidate base steps = name ∧ name ∉ taken ∧
        ∀ earlier < steps, candidate base earlier ∈ taken := by
  constructor
  · intro h
    have hends := @Settles.exists_candidate taken base name 0 steps (by decide) h
    simpa only [Nat.zero_add] using hends
  · rintro ⟨hbound, rfl, hfree, hearlier⟩
    have hends := @settles_of_free .fault taken base 0 steps
    simp only [Nat.zero_add] at hends
    exact hends hbound hfree hearlier

/-- Of fewer names than the counter can number one is free. -/
theorem exists_lt_countedCandidates (h : taken.dedup.length < countedCandidates) (base : String) :
    ∃ index < countedCandidates, candidate base index ∉ taken := by
  obtain ⟨free, hbound, hfree⟩ := exists_candidate_not_mem taken.dedup base
  rw [List.mem_dedup] at hfree
  exact ⟨free, Nat.lt_of_le_of_lt hbound h, hfree⟩

/-- The fresh name is the first candidate that is free, and before it stand no more than there are names
taken. -/
theorem exists_freshName_eq (taken : List String) (base : String) :
    ∃ index ≤ taken.dedup.length, candidate base index = freshName taken base ∧
      ∀ earlier < index, candidate base earlier ∈ taken := by
  obtain ⟨free, hbound, hfree⟩ := exists_candidate_not_mem taken.dedup base
  rw [List.mem_dedup] at hfree
  have hlength : free < taken.length + 1 :=
    Nat.lt_succ_of_le (Nat.le_trans hbound taken.dedup_sublist.length_le)
  have hsome : (((List.range (taken.length + 1)).map (candidate base)).find? (· ∉ taken)).isSome := by
    rw [List.find?_isSome]
    exact ⟨candidate base free, List.mem_map_of_mem (List.mem_range.2 hlength), by simpa using hfree⟩
  obtain ⟨found, hfound⟩ := Option.isSome_iff_exists.1 hsome
  obtain ⟨-, index, hindex, hcandidate, hearlier⟩ := List.find?_eq_some_iff_getElem.1 hfound
  simp only [List.getElem_map, List.getElem_range, Bool.not_eq_true', decide_eq_false_iff_not,
    not_not] at hcandidate hearlier
  refine ⟨index, ?_, ?_, hearlier⟩
  · -- a free candidate before it would have been found
    by_contra hlater
    exact hfree (hearlier free (by omega))
  · rw [hcandidate, freshName, hfound]; rfl

/-- The name is the first candidate that is free, and the search for it ends with it after no more steps
than there are names taken, whatever becomes of the greatest counter. -/
structure FirstFree (taken : List String) (base name : String) : Prop where
  free : name ∉ taken
  first : ∃ index, candidate base index = name ∧ ∀ earlier < index, candidate base earlier ∈ taken
  settles : ∃ steps ≤ taken.dedup.length, ∀ overflow count other,
    Settles overflow taken base base 2 count other ↔ count = steps ∧ other = name

/-- **The search for a name ends**, whatever the base looks like, if a candidate is free behind which the
counter can still be raised. -/
theorem firstFree_freshName (h : ∃ index < countedCandidates, candidate base index ∉ taken) :
    FirstFree taken base (freshName taken base) := by
  obtain ⟨index, hindex, hname, hearlier⟩ := exists_freshName_eq taken base
  have hfree := freshName_not_mem taken base
  have hbound : index < countedCandidates := by
    obtain ⟨free, hcounted, hnotTaken⟩ := h
    by_contra hbeyond
    exact hnotTaken (hearlier free (by omega))
  have hsettles : ∀ overflow, Settles overflow taken base base 2 index (freshName taken base) := by
    intro overflow
    have hends := @settles_of_free overflow taken base 0 index
    simp only [Nat.zero_add] at hends
    exact hname ▸ hends hbound (hname ▸ hfree) hearlier
  refine ⟨hfree, ⟨index, hname, hearlier⟩, index, hindex, fun overflow count other => ?_⟩
  constructor
  · exact fun hother => hother.unique (hsettles overflow)
  · rintro ⟨rfl, rfl⟩
    exact hsettles overflow

/-- A fragment was generated for a request: the supply gained it under the first free name for its type,
and this name is taken now beside those that were before. -/
structure Gains (supply : FragmentSupply) (typeName : String) (usage : Usage)
    (served : String × FragmentSupply) : Prop where
  name : FirstFree supply.taken (typeName ++ supply.suffix) served.1
  taken : ∀ name, name ∈ served.2.taken ↔ name ∈ supply.taken ∨ name = served.1
  generated : served.2.generated = supply.generated ++ [⟨served.1, typeName, usage⟩]
  authored : served.2.authored = supply.authored
  suffix : served.2.suffix = supply.suffix

/-- A request that nothing serves is answered so. -/
theorem gains_request {supply : FragmentSupply} {typeName : String} {usage : Usage}
    (h : supply.serving? typeName usage = none)
    (hfew : supply.taken.dedup.length < countedCandidates) :
    supply.Gains typeName usage (supply.request typeName usage) := by
  unfold request
  rw [h]
  refine ⟨firstFree_freshName (exists_lt_countedCandidates hfew _), ?_, rfl, rfl, rfl⟩
  intro name
  rw [List.mem_cons, or_comm]

/-! ## Names under reservations, offers and requests -/

/-- What can be done with a supply. -/
inductive Change where
  | reserve (name : String)
  | offer (fragment : SuppliedFragment)
  | request (typeName : String) (usage : Usage)

/-- The supply after a change. -/
def after (supply : FragmentSupply) : Change → FragmentSupply
  | .reserve name => supply.reserve name
  | .offer fragment => supply.offer fragment
  | .request typeName usage => (supply.request typeName usage).2

/-- The supply after changes, made one after the other. -/
def run (supply : FragmentSupply) (changes : List Change) : FragmentSupply :=
  changes.foldl after supply

/-- A change sets no name free. -/
theorem mem_taken_after {supply : FragmentSupply} {name : String} (h : name ∈ supply.taken)
    (change : Change) : name ∈ (supply.after change).taken := by
  cases change with
  | reserve reserved => exact List.mem_cons_of_mem _ h
  | offer offered => exact List.mem_cons_of_mem _ h
  | request typeName usage =>
    show name ∈ (supply.request typeName usage).2.taken
    unfold request
    split
    · exact h
    · exact List.mem_cons_of_mem _ h

/-- Nor do changes one after the other. -/
theorem mem_taken_run {supply : FragmentSupply} {name : String} (h : name ∈ supply.taken)
    (changes : List Change) : name ∈ (supply.run changes).taken := by
  induction changes generalizing supply with
  | nil => exact h
  | cons change rest ih => exact ih (mem_taken_after h change)

/-- A name that was reserved is taken from then on. -/
theorem mem_taken_of_reserved {changes : List Change} {name : String} (h : .reserve name ∈ changes)
    (supply : FragmentSupply) : name ∈ (supply.run changes).taken := by
  induction changes generalizing supply with
  | nil => simp at h
  | cons change rest ih =>
    rcases List.mem_cons.1 h with rfl | hrest
    · have hfirst : name ∈ (supply.after (.reserve name)).taken := List.mem_cons_self
      exact mem_taken_run hfirst rest
    · exact ih hrest (supply.after change)

/-- **All names in the supply are taken**, and those of generated fragments differ from each other. -/
structure NamesTaken (supply : FragmentSupply) : Prop extends supply.WellNamed [] where
  authored_taken : ∀ fragment ∈ supply.authored, fragment.name ∈ supply.taken

theorem namesTaken_empty (suffix : String) : (empty suffix).NamesTaken := by
  refine ⟨⟨?_, ?_, ?_, ?_⟩, ?_⟩ <;> simp [empty]

/-- Each change keeps it so. -/
theorem NamesTaken.after {supply : FragmentSupply} (h : supply.NamesTaken) (change : Change) :
    (supply.after change).NamesTaken := by
  -- whatever has a name before the change has a taken name after it
  have hgenerated : ∀ fragment ∈ supply.generated, fragment.name ∈ (supply.after change).taken :=
    fun fragment hfragment => mem_taken_after (h.generated_taken fragment hfragment) change
  have hauthored : ∀ fragment ∈ supply.authored, fragment.name ∈ (supply.after change).taken :=
    fun fragment hfragment => mem_taken_after (h.authored_taken fragment hfragment) change
  cases change with
  | reserve name => exact ⟨⟨by simp, hgenerated, by simp, h.generated_nodup⟩, hauthored⟩
  | offer offered =>
    refine ⟨⟨by simp, hgenerated, by simp, h.generated_nodup⟩, ?_⟩
    refine List.forall_mem_append.2 ⟨hauthored, List.forall_mem_singleton.2 ?_⟩
    exact List.mem_cons_self
  | request typeName usage =>
    refine ⟨h.toWellNamed.request typeName usage, ?_⟩
    intro fragment hfragment
    have hbefore : fragment ∈ supply.authored :=
      (supply.request_extends typeName usage).authored ▸ hfragment
    exact hauthored fragment hbefore

/-- So all of them do. -/
theorem NamesTaken.run {supply : FragmentSupply} (h : supply.NamesTaken) (changes : List Change) :
    (supply.run changes).NamesTaken := by
  induction changes generalizing supply with
  | nil => exact h
  | cons change rest ih => exact ih (h.after change)

/-- Requests one after the other are changes. -/
theorem requestAll_snd_eq_run (supply : FragmentSupply) (requests : List (String × Usage)) :
    (supply.requestAll requests).2 =
      supply.run (requests.map fun request => .request request.1 request.2) := by
  induction requests generalizing supply with
  | nil => rfl
  | cons request rest ih => exact ih (supply.request request.1 request.2).2

end FragmentSupply

/-- The fragments of a document are reserved or offered one after the other, and so their names are
taken. -/
theorem Expansion.exists_run_eq_supplyOf (expansion : Expansion) (document : Document) :
    ∃ changes, expansion.supplyOf document =
        (FragmentSupply.empty expansion.options.suffix).run changes ∧
      ∀ fragment ∈ document.fragments, fragment.name ∈ (expansion.supplyOf document).taken := by
  have hregister : ∀ (supply : FragmentSupply) (fragment : FragmentDefinition),
      ∃ change, expansion.register document supply fragment = supply.after change ∧
        fragment.name ∈ (supply.after change).taken := by
    intro supply fragment
    unfold register
    split
    · exact ⟨.reserve fragment.name, rfl, List.mem_cons_self⟩
    · exact ⟨.offer _, rfl, List.mem_cons_self⟩
  have hfold : ∀ (fragments : List FragmentDefinition) (supply : FragmentSupply),
      ∃ changes, fragments.foldl (expansion.register document) supply = supply.run changes ∧
        ∀ fragment ∈ fragments, fragment.name ∈ (supply.run changes).taken := by
    intro fragments
    induction fragments with
    | nil => exact fun supply => ⟨[], rfl, by simp⟩
    | cons fragment rest ih =>
      intro supply
      obtain ⟨change, hchange, hname⟩ := hregister supply fragment
      obtain ⟨changes, hchanges, hnames⟩ := ih (supply.after change)
      rw [List.foldl_cons, hchange, hchanges]
      refine ⟨change :: changes, rfl, List.forall_mem_cons.2 ⟨?_, hnames⟩⟩
      exact FragmentSupply.mem_taken_run hname changes
  obtain ⟨changes, hchanges, hnames⟩ := hfold document.fragments (.empty expansion.options.suffix)
  refine ⟨changes, hchanges, fun fragment hfragment => ?_⟩
  rw [supplyOf, hchanges]
  exact hnames fragment hfragment

namespace FragmentSupply

/-- **How generated fragments are named.** For every supply, type and usage, whatever the suffix and
whichever names are taken, as long as they are fewer than `2 ^ 31 - 2`: if nothing serves a request, then
the search for a name ends, and the supply gains a fragment under the first free one of the type with the
suffix, then followed by 2, 3 and so on. This name and no other is taken beside those that were before.

With whatever names taken the search ends so just if one of the candidates that the counter can number is
free. If none is, a program that checks its arithmetic finds no name at all.

And the names of all fragments in a supply are taken, and all that were reserved, after any reservations,
offers and requests. So it is whenever a document is expanded, with the names of all of its own
fragments. -/
theorem gains_request_and_namesTaken :
    (∀ (supply : FragmentSupply) (typeName : String) (usage : Usage),
        supply.serving? typeName usage = none → supply.taken.dedup.length < countedCandidates →
          supply.Gains typeName usage (supply.request typeName usage)) ∧
      (∀ taken base,
        ((∃ index < countedCandidates, candidate base index ∉ taken) →
          FirstFree taken base (freshName taken base)) ∧
        ((∀ index < countedCandidates, candidate base index ∈ taken) →
          ∀ steps name, ¬ Settles .fault taken base base 2 steps name)) ∧
      (∀ suffix changes, ((empty suffix).run changes).NamesTaken ∧
        ∀ name, .reserve name ∈ changes → name ∈ ((empty suffix).run changes).taken) ∧
      ∀ (expansion : Expansion) document requests,
        let supply := ((expansion.supplyOf document).requestAll requests).2
        supply.NamesTaken ∧ ∀ fragment ∈ document.fragments, fragment.name ∈ supply.taken := by
  have hrun : ∀ suffix changes, ((empty suffix).run changes).NamesTaken :=
    fun suffix changes => (namesTaken_empty suffix).run changes
  refine ⟨fun _ _ _ h hfew => gains_request h hfew, fun taken base => ⟨firstFree_freshName, ?_⟩, ?_, ?_⟩
  · intro htaken steps name hends
    obtain ⟨hbound, rfl, hfree, -⟩ := settles_fault_iff.1 hends
    exact hfree (htaken steps hbound)
  · exact fun suffix changes => ⟨hrun suffix changes, fun _ h => mem_taken_of_reserved h _⟩
  · intro expansion document requests
    obtain ⟨changes, hchanges, hnames⟩ := expansion.exists_run_eq_supplyOf document
    rw [requestAll_snd_eq_run]
    refine ⟨?_, fun fragment hfragment => mem_taken_run (hnames fragment hfragment) _⟩
    rw [hchanges]
    exact (hrun _ changes).run _

/-- A suffix that ends in a digit, so that the name of a fragment that is there looks like one with a
counter. -/
def todoSupply : FragmentSupply :=
  (empty "1").run [.reserve "Todo1", .offer ⟨"Todo12", "User", .ofField (.leaf "id")⟩]

/-- Both of the first two names are taken then, and the fragment is named with the third one. -/
theorem gains_request_and_namesTaken_todo :
    todoSupply.serving? "Todo" (.ofField (.leaf "id")) = none ∧
      todoSupply.taken.dedup.length < countedCandidates ∧
      (todoSupply.request "Todo" (.ofField (.leaf "id"))).1 = "Todo13" := by
  have hserving : todoSupply.serving? "Todo" (.ofField (.leaf "id")) = none := by cbv
  have hfew : todoSupply.taken.dedup.length < countedCandidates := by decide
  obtain ⟨hgains, -⟩ := gains_request_and_namesTaken
  obtain ⟨steps, -, hsettles⟩ := (hgains todoSupply "Todo" _ hserving hfew).name.settles
  have htaken : todoSupply.taken = ["Todo12", "Todo1"] := rfl
  have hsearch : Settles .fault todoSupply.taken "Todo1" "Todo1" 2 2 "Todo13" := by
    rw [htaken]
    exact .taken (by decide) rfl (.taken (by decide) rfl (.free (by decide)))
  exact ⟨hserving, hfew, ((hsettles .fault 2 "Todo13").1 hsearch).2.symm⟩

end FragmentSupply

end SelectionRecall
