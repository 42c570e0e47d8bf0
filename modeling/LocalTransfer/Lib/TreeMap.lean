import Mathlib.Data.List.Nodup
import Mathlib.Data.List.Perm.Lattice
import Std.Data.ExtTreeMap

/-!
# Extensional tree maps

Maps whose keys are equal when they compare equal: what one insertion or erasure leaves at
every key, the writes that change nothing, and the entries of a map built from a list.
-/

namespace LocalTransfer.Lib

variable {K V : Type} [Ord K] [Std.TransOrd K] [Std.LawfulEqOrd K] {entries : Std.ExtTreeMap K V}
  {key : K} {value : V}

/-- The entries of a map have distinct keys. -/
theorem nodup_keys (entries : Std.ExtTreeMap K V) : (entries.toList.map Prod.fst).Nodup := by
  refine List.pairwise_map.mpr (entries.distinct_keys_toList.imp fun hne heq => hne ?_)
  exact Std.compare_eq_iff_eq.mpr heq

/-- Erasing a key that is absent. -/
theorem erase_of_absent (h : entries[key]? = none) : entries.erase key = entries := by
  refine Std.ExtTreeMap.ext_getElem? fun k => ?_
  rw [Std.ExtTreeMap.getElem?_erase]
  split
  · next heq => rw [← Std.compare_eq_iff_eq.mp heq, h]
  · rfl

/-- Inserting what is there. -/
theorem insert_of_stored (h : entries[key]? = some value) : entries.insert key value = entries := by
  refine Std.ExtTreeMap.ext_getElem? fun k => ?_
  rw [Std.ExtTreeMap.getElem?_insert]
  split
  · next heq => rw [← Std.compare_eq_iff_eq.mp heq, h]
  · rfl

/-- A map built from a list without repeated keys has the entries of the list. -/
theorem toList_ofList_perm {l : List (K × V)} (h : (l.map Prod.fst).Nodup) :
    (Std.ExtTreeMap.ofList l).toList.Perm l := by
  have hdistinct : l.Pairwise fun a b => ¬ compare a.1 b.1 = .eq :=
    (List.pairwise_map.mp h).imp fun hne heq => hne (Std.compare_eq_iff_eq.mp heq)
  refine (List.perm_ext_iff_of_nodup (nodup_keys _).of_map h.of_map).mpr ?_
  intro entry
  obtain ⟨k, v⟩ := entry
  rw [Std.ExtTreeMap.mem_toList_iff_getElem?_eq_some]
  constructor
  · intro hget
    have hmem : k ∈ l.map Prod.fst := by
      classical
      by_contra habsent
      have hnone : (l.map Prod.fst).contains k = false := by simpa using habsent
      rw [Std.ExtTreeMap.getElem?_ofList_of_contains_eq_false hnone] at hget
      cases hget
    obtain ⟨⟨k', v'⟩, hentry, rfl⟩ := List.mem_map.mp hmem
    rw [Std.ExtTreeMap.getElem?_ofList_of_mem Std.ReflCmp.compare_self hdistinct hentry] at hget
    cases hget
    exact hentry
  · intro hentry
    exact Std.ExtTreeMap.getElem?_ofList_of_mem Std.ReflCmp.compare_self hdistinct hentry

end LocalTransfer.Lib
