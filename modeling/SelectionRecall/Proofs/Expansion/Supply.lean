import Mathlib.Data.List.Perm.Subperm
import Mathlib.Data.List.Nodup
import SelectionRecall.Expansion.Supply
import Std.Data.String.ToNat

/-!
# Supplies under requests

What requests do to a supply. A supply only gains generated fragments, under names that were free
when they were given; what serves a request once serves it ever after.

* `FragmentSupply.freshName_not_mem`: a fresh name is free.
* `FragmentSupply.request_cases`: what one request can do.
* `FragmentSupply.Extends`, `FragmentSupply.WellNamed`: how a supply grows, and what is kept.
* `FragmentSupply.Serves`: the fragment that a request is served with.
* `FragmentSupply.requestAll`, `FragmentSupply.AnswersAll`: requests made one after the other, and
  what holds of all answers to them.
* `FragmentSupply.requestAll_serves`: all of them are served by the supply at the end.
-/

namespace SelectionRecall

namespace FragmentSupply

/-! ## Fresh names -/

/-- Candidates for one base differ from each other. -/
theorem candidate_injective (base : String) : Function.Injective (candidate base) := by
  have hlist : ∀ {text text' : String}, base ++ text = base ++ text' → text = text' := by
    intro text text' h
    have := congrArg String.toList h
    rw [String.toList_append, String.toList_append] at this
    exact String.toList_inj.1 (List.append_cancel_left this)
  have hne : ∀ index : ℕ, base ≠ base ++ toString index := by
    intro index h
    have h' : "" = toString index := hlist (by rw [String.append_empty]; exact h)
    have hpos : 0 < (Nat.repr index).length := Nat.length_repr_pos
    rw [show Nat.repr index = "" from h'.symm] at hpos
    exact absurd hpos (by decide)
  intro i j h
  cases i with
  | zero =>
    cases j with
    | zero => rfl
    | succ j => exact absurd h (hne _)
  | succ i =>
    cases j with
    | zero => exact absurd h.symm (hne _)
    | succ j =>
      have := Nat.repr_injective (hlist h)
      omega

/-- Among one candidate more than there are names taken, one is free. -/
theorem exists_candidate_not_mem (taken : List String) (base : String) :
    ∃ index ≤ taken.length, candidate base index ∉ taken := by
  -- else the candidates were distinct names among those taken, and one too many
  by_contra hall
  push Not at hall
  have hnodup : ((List.range (taken.length + 1)).map (candidate base)).Nodup :=
    List.nodup_range.map (candidate_injective base)
  have hsub : (List.range (taken.length + 1)).map (candidate base) ⊆ taken := by
    intro name hname
    obtain ⟨index, hindex, rfl⟩ := List.mem_map.1 hname
    exact hall index (by have := List.mem_range.1 hindex; omega)
  have := (List.subperm_of_subset hnodup hsub).length_le
  rw [List.length_map, List.length_range] at this
  omega

/-- **A fresh name is free.** -/
theorem freshName_not_mem (taken : List String) (base : String) :
    freshName taken base ∉ taken := by
  obtain ⟨index, hindex, hfree⟩ := exists_candidate_not_mem taken base
  unfold freshName
  cases hfind : ((List.range (taken.length + 1)).map (candidate base)).find? (· ∉ taken) with
  | none =>
    rw [List.find?_eq_none] at hfind
    have hmem : candidate base index ∈ (List.range (taken.length + 1)).map (candidate base) :=
      List.mem_map_of_mem (List.mem_range.2 (by omega))
    exact absurd hfree (by simpa using hfind _ hmem)
  | some name => simpa using List.find?_some hfind

/-! ## One request -/

/-- The supply with one more generated fragment. -/
def generate (supply : FragmentSupply) (fragment : SuppliedFragment) : FragmentSupply :=
  { supply with
    generated := supply.generated ++ [fragment]
    taken := fragment.name :: supply.taken }

/-- **What one request can do**: an authored fragment serves it, else a generated one, else a
fragment is generated under a free name. -/
theorem request_cases (supply : FragmentSupply) (typeName : String) (usage : Usage) :
    (∃ fragment, supply.authored.find? (·.covers typeName usage) = some fragment ∧
      supply.request typeName usage = (fragment.name, supply)) ∨
    (supply.authored.find? (·.covers typeName usage) = none ∧
      ((∃ fragment ∈ supply.generated, fragment.selects typeName usage = true ∧
        supply.request typeName usage = (fragment.name, supply)) ∨
      ∃ name, name ∉ supply.taken ∧
        supply.request typeName usage = (name, supply.generate ⟨name, typeName, usage⟩))) := by
  unfold request serving?
  cases hauthored : supply.authored.find? (·.covers typeName usage) with
  | some fragment => exact Or.inl ⟨fragment, rfl, rfl⟩
  | none =>
    refine Or.inr ⟨rfl, ?_⟩
    cases hgenerated : supply.generated.find? (·.selects typeName usage) with
    | some fragment =>
      have hselects := List.find?_some hgenerated
      exact Or.inl ⟨fragment, List.mem_of_find?_eq_some hgenerated, hselects, rfl⟩
    | none => exact Or.inr ⟨_, freshName_not_mem _ _, rfl⟩

/-- The newer supply has the authored fragments of the older one, and its generated ones first. -/
structure Extends (newer older : FragmentSupply) : Prop where
  authored : newer.authored = older.authored
  generated : older.generated <+: newer.generated

theorem Extends.refl (supply : FragmentSupply) : supply.Extends supply :=
  ⟨rfl, List.prefix_refl _⟩

theorem Extends.trans {newest newer older : FragmentSupply} (h : newest.Extends newer)
    (h' : newer.Extends older) : newest.Extends older :=
  ⟨h.authored.trans h'.authored, h'.generated.trans h.generated⟩

/-- A request only adds to a supply. -/
theorem request_extends (supply : FragmentSupply) (typeName : String) (usage : Usage) :
    (supply.request typeName usage).2.Extends supply := by
  rcases supply.request_cases typeName usage with
    ⟨_, -, h⟩ | ⟨-, ⟨_, -, -, h⟩ | ⟨name, -, h⟩⟩
  · rw [h]; exact .refl supply
  · rw [h]; exact .refl supply
  · rw [h]; exact ⟨rfl, List.prefix_append _ _⟩

/-- **What keeps names apart.** The reserved names and those of generated fragments are taken, and
generated fragments are named unlike each other and unlike all that is reserved. -/
structure WellNamed (reserved : List String) (supply : FragmentSupply) : Prop where
  reserved_taken : ∀ name ∈ reserved, name ∈ supply.taken
  generated_taken : ∀ fragment ∈ supply.generated, fragment.name ∈ supply.taken
  generated_not_reserved : ∀ fragment ∈ supply.generated, fragment.name ∉ reserved
  generated_nodup : (supply.generated.map SuppliedFragment.name).Nodup

/-- A fragment generated under a free name keeps names apart. -/
theorem WellNamed.generate {reserved : List String} {supply : FragmentSupply}
    (h : supply.WellNamed reserved) {fragment : SuppliedFragment}
    (hfree : fragment.name ∉ supply.taken) : (supply.generate fragment).WellNamed reserved where
  reserved_taken name hname := List.mem_cons_of_mem _ (h.reserved_taken name hname)
  generated_taken other hother := by
    rcases List.mem_append.1 hother with hold | hnew
    · exact List.mem_cons_of_mem _ (h.generated_taken other hold)
    · rw [List.mem_singleton.1 hnew]; exact List.mem_cons_self
  generated_not_reserved other hother := by
    rcases List.mem_append.1 hother with hold | hnew
    · exact h.generated_not_reserved other hold
    · rw [List.mem_singleton.1 hnew]; exact fun hmem => hfree (h.reserved_taken _ hmem)
  generated_nodup := by
    unfold FragmentSupply.generate
    rw [List.map_append, List.nodup_append]
    refine ⟨h.generated_nodup, List.nodup_singleton _, ?_⟩
    intro name hname other hother heq
    obtain ⟨old, hold, rfl⟩ := List.mem_map.1 hname
    rw [List.map_singleton, List.mem_singleton] at hother
    rw [← hother, ← heq] at hfree
    exact hfree (h.generated_taken old hold)

/-- A request keeps names apart. -/
theorem WellNamed.request {reserved : List String} {supply : FragmentSupply}
    (h : supply.WellNamed reserved) (typeName : String) (usage : Usage) :
    (supply.request typeName usage).2.WellNamed reserved := by
  rcases supply.request_cases typeName usage with
    ⟨_, -, hr⟩ | ⟨-, ⟨_, -, -, hr⟩ | ⟨name, hfree, hr⟩⟩
  · rw [hr]; exact h
  · rw [hr]; exact h
  · rw [hr]; exact h.generate hfree

/-- The supply serves a request under this name: by the first authored fragment that covers it, or
by a generated fragment with just this usage if none does. -/
def Serves (supply : FragmentSupply) (typeName : String) (usage : Usage) (name : String) : Prop :=
  match supply.authored.find? (·.covers typeName usage) with
  | some fragment => fragment.name = name
  | none => ⟨name, typeName, usage⟩ ∈ supply.generated

/-- What serves a request is the first authored fragment that covers it, or a generated one. -/
theorem Serves.cases {supply : FragmentSupply} {typeName : String} {usage : Usage} {name : String}
    (h : supply.Serves typeName usage name) :
    (∃ fragment, supply.authored.find? (·.covers typeName usage) = some fragment ∧
      fragment.name = name) ∨ ⟨name, typeName, usage⟩ ∈ supply.generated := by
  unfold Serves at h
  cases hfind : supply.authored.find? (·.covers typeName usage) with
  | some fragment => rw [hfind] at h; exact Or.inl ⟨fragment, rfl, h⟩
  | none => rw [hfind] at h; exact Or.inr h

/-- An authored fragment that covers a request serves it before any generated one. -/
theorem Serves.name_eq {supply : FragmentSupply} {typeName : String} {usage : Usage} {name : String}
    (h : supply.Serves typeName usage name) {fragment : SuppliedFragment}
    (hfind : supply.authored.find? (·.covers typeName usage) = some fragment) :
    fragment.name = name := by
  unfold Serves at h
  rw [hfind] at h; exact h

/-- What serves a request still serves it when the supply has grown. -/
theorem Serves.mono {newer older : FragmentSupply} {typeName : String} {usage : Usage}
    {name : String} (h : older.Serves typeName usage name) (hext : newer.Extends older) :
    newer.Serves typeName usage name := by
  unfold Serves at h ⊢
  rw [hext.authored]
  cases hfind : older.authored.find? (·.covers typeName usage) with
  | some fragment => rw [hfind] at h; exact h
  | none => rw [hfind] at h; exact hext.generated.subset h

/-- **A request is served** under the name that it is answered with, if a generated fragment that is
found equal to the request is the same. -/
theorem request_serves {supply : FragmentSupply} {typeName : String} {usage : Usage}
    (hexact : ∀ fragment ∈ supply.generated, fragment.selects typeName usage = true →
      fragment.usage = usage) :
    (supply.request typeName usage).2.Serves typeName usage (supply.request typeName usage).1 := by
  rcases supply.request_cases typeName usage with
    ⟨fragment, hfind, h⟩ | ⟨hfind, ⟨fragment, hmem, hsel, h⟩ | ⟨name, -, h⟩⟩
  · rw [h]; unfold Serves; rw [hfind]
  · -- the generated fragment has the same usage, not just an equal one
    have husage := hexact fragment hmem hsel
    have htype : fragment.typeName = typeName := by
      unfold SuppliedFragment.selects at hsel
      simp only [Bool.and_eq_true, decide_eq_true_eq] at hsel
      exact hsel.1
    rw [h]; unfold Serves; rw [hfind]
    rw [← husage, ← htype]; exact hmem
  · rw [h]; unfold Serves generate; rw [hfind]
    exact List.mem_append_right _ (List.mem_singleton_self _)

/-! ## Requests one after the other -/

/-- Makes requests from the first to the last: the names that answer them, and the supply at the
end. -/
def requestAll (supply : FragmentSupply) : List (String × Usage) → List String × FragmentSupply
  | [] => ([], supply)
  | request :: rest =>
    let first := supply.request request.1 request.2
    let others := first.2.requestAll rest
    (first.1 :: others.1, others.2)

theorem requestAll_append (supply : FragmentSupply) (first second : List (String × Usage)) :
    supply.requestAll (first ++ second) =
      ((supply.requestAll first).1 ++ ((supply.requestAll first).2.requestAll second).1,
        ((supply.requestAll first).2.requestAll second).2) := by
  induction first generalizing supply with
  | nil => rfl
  | cons request rest ih => simp only [List.cons_append, requestAll, ih]

/-- Each of the requests is answered with a name that `Named` allows for it. -/
def AnswersAll (supply : FragmentSupply) (Named : String → Usage → String → Prop)
    (requests : List (String × Usage)) : Prop :=
  List.Forall₂ (fun request name => Named request.1 request.2 name) requests
    (supply.requestAll requests).1

theorem answersAll_nil (supply : FragmentSupply) (Named : String → Usage → String → Prop) :
    supply.AnswersAll Named [] := .nil

theorem answersAll_cons {supply : FragmentSupply} {Named : String → Usage → String → Prop}
    {request : String × Usage} {rest : List (String × Usage)} :
    supply.AnswersAll Named (request :: rest) ↔
      Named request.1 request.2 (supply.request request.1 request.2).1 ∧
        (supply.request request.1 request.2).2.AnswersAll Named rest :=
  List.forall₂_cons

/-- Of two runs of requests, the second one is answered by the supply that the first one leaves. -/
theorem answersAll_append {supply : FragmentSupply} {Named : String → Usage → String → Prop}
    {first second : List (String × Usage)} :
    supply.AnswersAll Named (first ++ second) ↔
      supply.AnswersAll Named first ∧ (supply.requestAll first).2.AnswersAll Named second := by
  induction first generalizing supply with
  | nil => exact (and_iff_right (supply.answersAll_nil Named)).symm
  | cons request rest ih =>
    simp only [List.cons_append, answersAll_cons, ih, requestAll, and_assoc]

/-- What all answers satisfy may be weakened. -/
theorem AnswersAll.imp {supply : FragmentSupply} {Named Named' : String → Usage → String → Prop}
    {requests : List (String × Usage)} (h : supply.AnswersAll Named requests)
    (himp : ∀ typeName usage name, Named typeName usage name → Named' typeName usage name) :
    supply.AnswersAll Named' requests := by
  unfold AnswersAll at h ⊢
  refine h.imp ?_
  intro request name hname
  exact himp request.1 request.2 name hname

/-- **The run lemma.** What each of the requests keeps, all of them keep. -/
theorem requestAll_induction {Kept : FragmentSupply → Prop} {requests : List (String × Usage)}
    (hstep : ∀ supply, ∀ request ∈ requests, Kept supply →
      Kept (supply.request request.1 request.2).2)
    {supply : FragmentSupply} (h : Kept supply) : Kept (supply.requestAll requests).2 := by
  induction requests generalizing supply with
  | nil => exact h
  | cons request rest ih =>
    have hfirst := hstep supply request List.mem_cons_self h
    exact ih (fun supply other hother => hstep supply other (List.mem_cons_of_mem _ hother)) hfirst

theorem requestAll_extends (supply : FragmentSupply) (requests : List (String × Usage)) :
    (supply.requestAll requests).2.Extends supply := by
  have hstep : ∀ newer : FragmentSupply, ∀ request ∈ requests, newer.Extends supply →
      (newer.request request.1 request.2).2.Extends supply :=
    fun newer request _ h => (newer.request_extends request.1 request.2).trans h
  exact requestAll_induction hstep (.refl supply)

theorem WellNamed.requestAll {reserved : List String} {supply : FragmentSupply}
    (h : supply.WellNamed reserved) (requests : List (String × Usage)) :
    (supply.requestAll requests).2.WellNamed reserved :=
  requestAll_induction (fun _ request _ h => h.request request.1 request.2) h

/-- **Nothing is generated in vain**: each new fragment of the supply answers a request. -/
theorem answered_of_generated (supply : FragmentSupply) (requests : List (String × Usage)) :
    ∀ fragment ∈ (supply.requestAll requests).2.generated,
      fragment ∈ supply.generated ∨ fragment.name ∈ (supply.requestAll requests).1 := by
  induction requests generalizing supply with
  | nil => exact fun fragment h => Or.inl h
  | cons request rest ih =>
    intro fragment hfragment
    -- it is new with the first request, or with those that follow
    rcases ih (supply.request request.1 request.2).2 fragment hfragment with h | h
    · rcases supply.request_cases request.1 request.2 with
        ⟨_, -, hr⟩ | ⟨-, ⟨_, -, -, hr⟩ | ⟨name, -, hr⟩⟩
      · rw [hr] at h; exact Or.inl h
      · rw [hr] at h; exact Or.inl h
      · rw [hr] at h
        rcases List.mem_append.1 h with hold | hnew
        · exact Or.inl hold
        · right
          simp only [FragmentSupply.requestAll, hr]
          rw [List.mem_singleton.1 hnew]; exact List.mem_cons_self
    · exact Or.inr (List.mem_cons_of_mem _ h)

/-- Every generated fragment was generated for something known. -/
def GeneratesOnly (Known : String → Usage → Prop) (supply : FragmentSupply) : Prop :=
  ∀ fragment ∈ supply.generated, Known fragment.typeName fragment.usage

theorem GeneratesOnly.request {Known : String → Usage → Prop} {supply : FragmentSupply}
    (h : supply.GeneratesOnly Known) {typeName : String} {usage : Usage}
    (hknown : Known typeName usage) :
    (supply.request typeName usage).2.GeneratesOnly Known := by
  rcases supply.request_cases typeName usage with
    ⟨_, -, hr⟩ | ⟨-, ⟨_, -, -, hr⟩ | ⟨name, -, hr⟩⟩
  · rw [hr]; exact h
  · rw [hr]; exact h
  · rw [hr]
    intro fragment hfragment
    rcases List.mem_append.1 hfragment with hold | hnew
    · exact h fragment hold
    · rw [List.mem_singleton.1 hnew]; exact hknown

/-- **All requests are served** at the end, each under the name that it was answered with, if known
usages of one type that are found equal are the same. -/
theorem requestAll_serves (Known : String → Usage → Prop)
    (hexact : ∀ {typeName old new}, Known typeName old → Known typeName new →
      (old == new) = true → old = new)
    {supply : FragmentSupply} (h : supply.GeneratesOnly Known) {requests : List (String × Usage)}
    (hknown : ∀ request ∈ requests, Known request.1 request.2) :
    supply.AnswersAll (supply.requestAll requests).2.Serves requests := by
  induction requests generalizing supply with
  | nil => exact supply.answersAll_nil _
  | cons request rest ih =>
    have hrequest := hknown request List.mem_cons_self
    have hserved : (supply.request request.1 request.2).2.Serves request.1 request.2
        (supply.request request.1 request.2).1 := by
      apply request_serves
      intro fragment hfragment hselects
      unfold SuppliedFragment.selects at hselects
      simp only [Bool.and_eq_true, decide_eq_true_eq] at hselects
      have hold := h fragment hfragment
      rw [hselects.1] at hold
      exact hexact hold hrequest hselects.2
    -- the requests that follow only make the supply grow
    refine answersAll_cons.2 ⟨hserved.mono (requestAll_extends _ rest), ?_⟩
    exact ih (h.request hrequest) fun other hother => hknown other (List.mem_cons_of_mem _ hother)

end FragmentSupply

end SelectionRecall
