import Mathlib.Data.Finmap
import Mathlib.Tactic.Common

/-!
# Finite maps of bounded size

A finite map that never holds more than so many bindings: it can always be overwritten where it
is bound, and extended as long as it has room.
-/

namespace LocalTransfer.Lib

structure BoundedMap (K V : Type) (capacity : Nat) where
  entries : Finmap fun _ : K => V
  bounded : entries.keys.card ≤ capacity

namespace BoundedMap

variable {K V : Type} [DecidableEq K] {capacity : Nat}

def empty : BoundedMap K V capacity := ⟨∅, by simp⟩

def lookup (self : BoundedMap K V capacity) (k : K) : Option V := self.entries.lookup k

def size (self : BoundedMap K V capacity) : Nat := self.entries.keys.card

/-- A binding of the key can be written. -/
def HasRoom (self : BoundedMap K V capacity) (k : K) : Prop :=
  (self.lookup k).isSome ∨ self.size < capacity

theorem card_keys_insert_le (entries : Finmap fun _ : K => V) (k : K) (v : V) :
    (entries.insert k v).keys.card ≤ entries.keys.card + 1 := by
  have hkeys : (entries.insert k v).keys = insert k entries.keys := by
    ext k'
    rw [Finmap.mem_keys, Finmap.mem_insert, Finset.mem_insert, Finmap.mem_keys]
  rw [hkeys]
  exact Finset.card_insert_le _ _

theorem card_keys_insert_of_mem {entries : Finmap fun _ : K => V} {k : K} (v : V)
    (h : k ∈ entries) : (entries.insert k v).keys = entries.keys := by
  ext k'
  rw [Finmap.mem_keys, Finmap.mem_insert, Finmap.mem_keys]
  constructor
  · rintro (rfl | h')
    · exact h
    · exact h'
  · exact .inr

def insert (self : BoundedMap K V capacity) (k : K) (v : V) (h : self.HasRoom k) :
    BoundedMap K V capacity where
  entries := self.entries.insert k v
  bounded := by
    rcases h with hbound | hroom
    · rw [card_keys_insert_of_mem v (Finmap.lookup_isSome.mp hbound)]
      exact self.bounded
    · exact (card_keys_insert_le _ _ _).trans hroom

def erase (self : BoundedMap K V capacity) (k : K) : BoundedMap K V capacity where
  entries := self.entries.erase k
  bounded := by
    rw [Finmap.keys_erase]
    exact Finset.card_erase_le.trans self.bounded

variable {self : BoundedMap K V capacity} {k : K} {v : V}

@[simp] theorem lookup_empty : (empty : BoundedMap K V capacity).lookup k = none :=
  Finmap.lookup_empty k

theorem lookup_insert (h : self.HasRoom k) :
    (self.insert k v h).lookup = Function.update self.lookup k (some v) := by
  funext k'
  by_cases hk : k' = k
  · subst hk
    rw [Function.update_self]
    exact Finmap.lookup_insert _
  · rw [Function.update_of_ne hk]
    exact Finmap.lookup_insert_of_ne _ hk

theorem lookup_erase : (self.erase k).lookup = Function.update self.lookup k none := by
  funext k'
  by_cases hk : k' = k
  · subst hk
    rw [Function.update_self]
    exact Finmap.lookup_erase _ _
  · rw [Function.update_of_ne hk]
    exact Finmap.lookup_erase_ne hk

/-- The size is the number of distinct keys of any list that has just these. -/
theorem size_eq_length {keys : List K} (hnodup : keys.Nodup)
    (hmem : ∀ k, k ∈ keys ↔ (self.lookup k).isSome) : self.size = keys.length := by
  have hkeys : self.entries.keys = keys.toFinset := by
    ext k
    rw [Finmap.mem_keys, List.mem_toFinset, hmem]
    exact Finmap.lookup_isSome.symm
  rw [size, hkeys, List.toFinset_card_of_nodup hnodup]

theorem not_hasRoom_iff : ¬ self.HasRoom k ↔ self.lookup k = none ∧ self.size = capacity := by
  have hbounded : self.size ≤ capacity := self.bounded
  rw [HasRoom, not_or, Option.not_isSome_iff_eq_none]
  refine and_congr_right fun _ => ?_
  omega

end BoundedMap

end LocalTransfer.Lib
