import SelectionRecall.Usage.Fragment

/-!
# Fragment supplies

The fragments that the markers of one document are served with. A request names a type and a usage.
The first authored fragment on the type that covers the usage serves it; else a fragment that was
generated for an equal request; else a new one is generated. A new fragment is named after its type
with a suffix, followed by 2, 3 and so on while the name is taken.

* `FragmentSupply`: authored and generated fragments, and the names that are taken.
* `FragmentSupply.freshName`: the first candidate that is not taken.
* `FragmentSupply.request`: the name of the fragment that serves a request.
-/

namespace SelectionRecall

/-- A fragment on a type, with the usage that it selects. -/
structure SuppliedFragment where
  name : String
  typeName : String
  usage : Usage

namespace SuppliedFragment

/-- Whether the fragment selects at least the usage on the type. -/
def covers (fragment : SuppliedFragment) (typeName : String) (usage : Usage) : Bool :=
  fragment.typeName = typeName && fragment.usage.covers usage

/-- Whether the fragment selects exactly the usage on the type. -/
def selects (fragment : SuppliedFragment) (typeName : String) (usage : Usage) : Bool :=
  fragment.typeName = typeName && fragment.usage == usage

/-- The definition of the fragment. -/
def definition (fragment : SuppliedFragment) : Definition :=
  .fragment (fragment.usage.toFragment fragment.name fragment.typeName)

end SuppliedFragment

/-- The fragments that requests are served with. -/
structure FragmentSupply where
  suffix : String
  authored : List SuppliedFragment
  generated : List SuppliedFragment
  taken : List String

namespace FragmentSupply

/-- A supply without fragments. -/
def empty (suffix : String) : FragmentSupply := ⟨suffix, [], [], []⟩

/-- Takes the name of a fragment that does not serve requests. -/
def reserve (supply : FragmentSupply) (name : String) : FragmentSupply :=
  { supply with taken := name :: supply.taken }

/-- Offers an authored fragment. -/
def offer (supply : FragmentSupply) (fragment : SuppliedFragment) : FragmentSupply :=
  { supply with
    authored := supply.authored ++ [fragment]
    taken := fragment.name :: supply.taken }

/-- The candidates for a name: the base itself, then the base followed by 2, 3 and so on. -/
def candidate (base : String) : Nat → String
  | 0 => base
  | index + 1 => base ++ toString (index + 2)

/-- The first candidate that is not taken. Among one candidate more than there are names taken, one
is free. A counter of 32 bits comes to it if fewer than `2 ^ 31 - 2` names are taken. -/
def freshName (taken : List String) (base : String) : String :=
  (((List.range (taken.length + 1)).map (candidate base)).find? (· ∉ taken)).getD base

/-- The fragment that already serves a request, if there is one. -/
def serving? (supply : FragmentSupply) (typeName : String) (usage : Usage) :
    Option SuppliedFragment :=
  match supply.authored.find? (·.covers typeName usage) with
  | some fragment => some fragment
  | none => supply.generated.find? (·.selects typeName usage)

/-- The name of the fragment that serves a request, and the supply afterwards. -/
def request (supply : FragmentSupply) (typeName : String) (usage : Usage) :
    String × FragmentSupply :=
  match supply.serving? typeName usage with
  | some fragment => (fragment.name, supply)
  | none =>
    let name := freshName supply.taken (typeName ++ supply.suffix)
    (name, { supply with
      generated := supply.generated ++ [⟨name, typeName, usage⟩]
      taken := name :: supply.taken })

end FragmentSupply

end SelectionRecall
