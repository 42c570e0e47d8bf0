import Mathlib.Data.List.Sort
import Mathlib.Data.List.Nodup
import Mathlib.Order.Compare

/-!
# Lists in strict key order

A finite map kept as a list with one entry per key, in strictly increasing key
order. Such a list is determined by its members (`StrictlyOrdered.ext`), sorting
any duplicate-free list produces it, and a binary search on it finds exactly
what a linear search finds (`binarySearchBy_eq_find?`).
-/

namespace LocalTransfer.Lib

variable {α κ : Type} [LinearOrder κ] (key : α → κ)

/-- One entry per key, in increasing key order. -/
def StrictlyOrdered (l : List α) : Prop := l.Pairwise fun a b => key a < key b

instance (l : List α) : Decidable (StrictlyOrdered key l) :=
  inferInstanceAs (Decidable (l.Pairwise _))

/-- The stable sort by key. -/
def sortByKey (l : List α) : List α := l.insertionSort fun a b => key a ≤ key b

/-- Whether two neighbours share a key. -/
def hasAdjacentDuplicate : List α → Bool
  | a :: b :: rest => key a == key b || hasAdjacentDuplicate (b :: rest)
  | _ => false

/-! ## Order facts -/

variable {key}

theorem StrictlyOrdered.nil : StrictlyOrdered key [] := List.Pairwise.nil

theorem StrictlyOrdered.filter {l : List α} (h : StrictlyOrdered key l) (p : α → Bool) :
    StrictlyOrdered key (l.filter p) :=
  List.Pairwise.filter p h

theorem StrictlyOrdered.nodup_keys {l : List α} (h : StrictlyOrdered key l) :
    (l.map key).Nodup :=
  List.pairwise_map.mpr (h.imp fun hlt => hlt.ne)

/-- Entries with the same key are the same entry. -/
theorem StrictlyOrdered.eq_of_key {l : List α} (h : StrictlyOrdered key l) {a b : α}
    (ha : a ∈ l) (hb : b ∈ l) (hkey : key a = key b) : a = b :=
  List.inj_on_of_nodup_map h.nodup_keys ha hb hkey

/-- A strictly ordered list is determined by its members. -/
theorem StrictlyOrdered.ext {l l' : List α} (h : StrictlyOrdered key l)
    (h' : StrictlyOrdered key l') (hmem : ∀ a, a ∈ l ↔ a ∈ l') : l = l' := by
  have : Std.Irrefl fun a b : α => key a < key b := ⟨fun a => lt_irrefl (key a)⟩
  have : Std.Antisymm fun a b : α => key a < key b :=
    ⟨fun _ _ hab hba => absurd (hab.trans hba) (lt_irrefl _)⟩
  exact List.Pairwise.eq_of_mem_iff h h' hmem

theorem sortByKey_perm (l : List α) : (sortByKey key l).Perm l := List.perm_insertionSort _ l

@[simp] theorem mem_sortByKey {l : List α} {a : α} : a ∈ sortByKey key l ↔ a ∈ l :=
  List.mem_insertionSort _

@[simp] theorem length_sortByKey (l : List α) : (sortByKey key l).length = l.length :=
  List.length_insertionSort _ l

theorem sortByKey_pairwise (l : List α) : (sortByKey key l).Pairwise fun a b => key a ≤ key b := by
  have : IsTrans α fun a b => key a ≤ key b := ⟨fun _ _ _ => le_trans⟩
  have : Std.Total fun a b : α => key a ≤ key b := ⟨fun a b => le_total (key a) (key b)⟩
  exact List.pairwise_insertionSort _ l

/-- Sorting a list without repeated keys gives strict order. -/
theorem strictlyOrdered_sortByKey {l : List α} (h : (l.map key).Nodup) :
    StrictlyOrdered key (sortByKey key l) := by
  have hnd : ((sortByKey key l).map key).Nodup := ((sortByKey_perm l).map key).nodup_iff.mpr h
  have hne : (sortByKey key l).Pairwise fun a b => key a ≠ key b := List.pairwise_map.mp hnd
  exact (sortByKey_pairwise l).imp₂ (fun _ _ hle hne => lt_of_le_of_ne hle hne) hne

/-- Sorting leaves a strictly ordered list as it is. -/
theorem StrictlyOrdered.sortByKey_eq {l : List α} (h : StrictlyOrdered key l) :
    sortByKey key l = l :=
  (strictlyOrdered_sortByKey h.nodup_keys).ext h fun _ => mem_sortByKey

/-- On a sorted list the neighbour test detects every repeated key. -/
theorem strictlyOrdered_iff_of_sorted {l : List α} (h : l.Pairwise fun a b => key a ≤ key b) :
    StrictlyOrdered key l ↔ hasAdjacentDuplicate key l = false := by
  induction l with
  | nil => simp [StrictlyOrdered, hasAdjacentDuplicate]
  | cons a l ih =>
      rw [List.pairwise_cons] at h
      obtain ⟨hle, htail⟩ := h
      cases l with
      | nil => simp [StrictlyOrdered, hasAdjacentDuplicate]
      | cons b rest =>
          have hrec := ih htail
          simp only [hasAdjacentDuplicate, Bool.or_eq_false_iff, beq_eq_false_iff_ne]
          constructor
          · intro hs
            obtain ⟨hlt, hs'⟩ := List.pairwise_cons.mp hs
            exact ⟨(hlt b List.mem_cons_self).ne, hrec.mp hs'⟩
          · rintro ⟨hne, hdup⟩
            have hs' := hrec.mpr hdup
            refine List.pairwise_cons.mpr ⟨fun c hc => ?_, hs'⟩
            have hab : key a < key b := lt_of_le_of_ne (hle b List.mem_cons_self) hne
            rcases List.mem_cons.mp hc with rfl | hc
            · exact hab
            · exact hab.trans ((List.pairwise_cons.mp hs').1 c hc)

/-! ## Binary search -/

/-- The loop of a binary search: the window of `size` entries from `base` is
halved until one entry is left, whose index is returned. -/
def searchLoop (cmp : α → Ordering) (l : List α) : Nat → Nat → Nat → Nat
  | 0, base, _ => base
  | fuel + 1, base, size =>
      if 1 < size then
        let half := size / 2
        let mid := base + half
        match l[mid]? with
        | some a =>
            searchLoop cmp l fuel (if cmp a = .gt then base else mid) (size - half)
        | none => base
      else base

/-- Binary search for an entry that compares equal; the index of it, if any. -/
def binarySearchBy (cmp : α → Ordering) (l : List α) : Option Nat :=
  match l[searchLoop cmp l l.length 0 l.length]? with
  | some a => if cmp a = .eq then some (searchLoop cmp l l.length 0 l.length) else none
  | none => none

/-- The window keeps every matching index, down to the single index left. -/
theorem searchLoop_spec {l : List α} (hl : StrictlyOrdered key l) (k : κ) :
    ∀ (fuel base size : Nat), size ≤ fuel + 1 → base + size ≤ l.length →
    (∀ i a, l[i]? = some a → key a = k → base ≤ i ∧ i < base + size) →
    ∀ i a, l[i]? = some a → key a = k →
      i = searchLoop (fun a => compare (key a) k) l fuel base size := by
  -- the window halves, and keeps the index of every match
  intro fuel
  induction fuel with
  | zero =>
      intro base size hsize _ hwin i a hi hk
      have := hwin i a hi hk
      simp only [searchLoop]
      omega
  | succ fuel ih =>
      intro base size hsize hlen hwin
      simp only [searchLoop]
      by_cases h1 : 1 < size
      · have hmid : base + size / 2 < l.length := by omega
        rw [if_pos h1, List.getElem?_eq_getElem hmid]
        apply ih
        · omega
        · split <;> omega
        · intro i a hi hk
          have hwi := hwin i a hi hk
          obtain ⟨hilt, hia⟩ := List.getElem?_eq_some_iff.mp hi
          have hord := List.pairwise_iff_getElem.mp hl
          split
          · -- the middle entry lies above the key, so a match lies below it
            rename_i hgt
            rw [compare_gt_iff_gt] at hgt
            have : i < base + size / 2 := by
              by_contra hge
              rcases Nat.eq_or_lt_of_le (Nat.le_of_not_lt hge) with heq | hlt
              · subst heq
                rw [hia, hk] at hgt
                exact lt_irrefl _ hgt
              · have := hord _ _ hmid hilt hlt
                rw [hia, hk] at this
                exact lt_asymm hgt this
            omega
          · rename_i hgt
            rw [compare_gt_iff_gt, not_lt] at hgt
            have : base + size / 2 ≤ i := by
              by_contra hlt
              have := hord _ _ hilt hmid (Nat.lt_of_not_le hlt)
              rw [hia, hk] at this
              exact absurd hgt (not_le.mpr this)
            omega
      · rw [if_neg h1]
        intro i a hi hk
        have := hwin i a hi hk
        omega

/-- Binary search finds exactly what linear search finds. -/
theorem binarySearchBy_eq_find? {l : List α} (hl : StrictlyOrdered key l) (k : κ) :
    (binarySearchBy (fun a => compare (key a) k) l).bind (fun i => l[i]?) =
      l.find? fun a => key a = k := by
  have hspec := searchLoop_spec hl k l.length 0 l.length (by omega) (by omega) (by
    intro i a hi _
    have := (List.getElem?_eq_some_iff.mp hi).1
    omega)
  set r := searchLoop (fun a => compare (key a) k) l l.length 0 l.length with hr
  cases hfind : l.find? fun a => key a = k with
  | some a =>
      have hka : key a = k := by simpa using List.find?_some hfind
      obtain ⟨i, hi⟩ := List.mem_iff_getElem?.mp (List.mem_of_find?_eq_some hfind)
      have hir : i = r := hspec i a hi hka
      rw [hir] at hi
      simp [binarySearchBy, ← hr, hi, hka]
  | none =>
      have hnone : ∀ a ∈ l, key a ≠ k := by simpa using hfind
      have hsearch : binarySearchBy (fun a => compare (key a) k) l = none := by
        unfold binarySearchBy
        rw [← hr]
        cases hget : l[r]? with
        | none => rfl
        | some a =>
            have hne := hnone a (List.mem_of_getElem? hget)
            simp [hne]
      rw [hsearch]
      rfl

end LocalTransfer.Lib
