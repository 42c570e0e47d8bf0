import LocalTransfer.Lib.Text
import Mathlib.Data.List.Basic
import Mathlib.Tactic.Common

/-!
# Separated words

Words joined by a separator, and numerals of any base up to sixteen. Both are read back: a
join determines its words if none contains the first character of the separator
(`intercalate_injective`), and a numeral determines its number (`toDigits_injective`).
-/

namespace LocalTransfer.Lib

/-! ## Joins -/

section Joins

variable {α : Type} {c : α} {rest : List α}

/-- The rest of the separator may as well belong to the words that follow it. -/
theorem intercalate_cons_eq (word : List α) (words : List (List α)) :
    (c :: rest).intercalate (word :: words) = [c].intercalate (word :: words.map (rest ++ ·)) := by
  induction words generalizing word with
  | nil => rw [List.map_nil, List.intercalate_singleton, List.intercalate_singleton]
  | cons next words ih =>
      have hrest : ∀ tail, [c].intercalate ((rest ++ next) :: tail) =
          rest ++ [c].intercalate (next :: tail) := by
        intro tail
        cases tail with
        | nil => rw [List.intercalate_singleton, List.intercalate_singleton]
        | cons w tail => simp only [List.intercalate_cons_cons, List.append_assoc]
      rw [List.map_cons, List.intercalate_cons_cons, List.intercalate_cons_cons, ih, hrest]
      simp

theorem splitOn_intercalate_cons [DecidableEq α] (hrest : c ∉ rest) {word : List α}
    {words : List (List α)} (h : ∀ w ∈ word :: words, c ∉ w) :
    ((c :: rest).intercalate (word :: words)).splitOn c = word :: words.map (rest ++ ·) := by
  rw [intercalate_cons_eq]
  refine List.splitOn_intercalate c ?_ (by simp)
  intro w hw
  rcases List.mem_cons.mp hw with rfl | hw
  · exact h w List.mem_cons_self
  · obtain ⟨w', hw', rfl⟩ := List.mem_map.mp hw
    exact List.not_mem_append hrest (h w' (List.mem_cons_of_mem _ hw'))

theorem not_mem_intercalate {a : α} {sep : List α} {words : List (List α)} (hsep : a ∉ sep)
    (hwords : ∀ w ∈ words, a ∉ w) : a ∉ sep.intercalate words := by
  induction words with
  | nil => exact List.not_mem_nil
  | cons word words ih =>
      have hword := hwords word List.mem_cons_self
      have hrest := ih fun w hw => hwords w (List.mem_cons_of_mem _ hw)
      cases words with
      | nil => rwa [List.intercalate_singleton]
      | cons next words =>
          rw [List.intercalate_cons_cons]
          exact List.not_mem_append (List.not_mem_append hword hsep) hrest

variable [DecidableEq α]

/-- A join determines its words. -/
theorem intercalate_injective (hrest : c ∉ rest) {words words' : List (List α)}
    (hwords : ∀ w ∈ words, c ∉ w) (hwords' : ∀ w ∈ words', c ∉ w) (hne : words ≠ [])
    (hne' : words' ≠ []) (h : (c :: rest).intercalate words = (c :: rest).intercalate words') :
    words = words' := by
  obtain ⟨word, words, rfl⟩ := List.exists_cons_of_ne_nil hne
  obtain ⟨word', words', rfl⟩ := List.exists_cons_of_ne_nil hne'
  have hsplit := congrArg (List.splitOn c) h
  rw [splitOn_intercalate_cons hrest hwords, splitOn_intercalate_cons hrest hwords'] at hsplit
  obtain ⟨rfl, htail⟩ := List.cons.inj hsplit
  rw [List.map_injective_iff.mpr (List.append_right_injective rest) htail]

end Joins

/-- What stands before and after the first `c`. -/
theorem append_cons_injective {α : Type} {c : α} {before before' after after' : List α}
    (hbefore : c ∉ before) (hbefore' : c ∉ before')
    (h : before ++ c :: after = before' ++ c :: after') : before = before' ∧ after = after' := by
  induction before generalizing before' with
  | nil =>
      cases before' with
      | nil => exact ⟨rfl, (List.cons.inj h).2⟩
      | cons d before' => exact absurd (List.cons.inj h).1 (List.ne_of_not_mem_cons hbefore')
  | cons d before ih =>
      cases before' with
      | nil => exact absurd (List.cons.inj h).1.symm (List.ne_of_not_mem_cons hbefore)
      | cons d' before' =>
          obtain ⟨rfl, hrest⟩ := List.cons.inj h
          obtain ⟨rfl, rfl⟩ := ih (fun hc => hbefore (List.mem_cons_of_mem _ hc))
            (fun hc => hbefore' (List.mem_cons_of_mem _ hc)) hrest
          exact ⟨rfl, rfl⟩

/-! ## Numerals -/

/-- The digits up to fifteen. -/
def digitChars : List Char := "0123456789abcdef".toList

theorem mem_digitChars : ∀ n : Fin 16, n.val.digitChar ∈ digitChars := by decide

theorem digitChar_injective : ∀ m n : Fin 16, m.val.digitChar = n.val.digitChar → m = n := by
  decide

variable {b : Nat}

theorem mem_toDigits (hb : 1 < b) (hb' : b ≤ 16) (n : Nat) :
    ∀ c ∈ Nat.toDigits b n, c ∈ digitChars := by
  induction n using Nat.strong_induction_on with
  | _ n ih =>
      intro c hc
      rw [Nat.toDigits_eq_if hb] at hc
      split at hc
      · next hlt =>
          rw [List.mem_singleton.mp hc]
          exact mem_digitChars ⟨n, by omega⟩
      · next hle =>
          rcases List.mem_append.mp hc with hc | hc
          · exact ih (n / b) (Nat.div_lt_self (by omega) hb) c hc
          · rw [List.mem_singleton.mp hc]
            have hmod := Nat.mod_lt n (by omega : 0 < b)
            exact mem_digitChars ⟨n % b, by omega⟩

/-- A numeral determines its number. -/
theorem toDigits_injective (hb : 1 < b) (hb' : b ≤ 16) :
    Function.Injective (Nat.toDigits b) := by
  intro m
  induction m using Nat.strong_induction_on with
  | _ m ih =>
      intro n h
      rw [Nat.toDigits_eq_if (n := m) hb, Nat.toDigits_eq_if (n := n) hb] at h
      split at h
      · next hm =>
          split at h
          · next hn =>
              have hdigit := digitChar_injective ⟨m, by omega⟩ ⟨n, by omega⟩ (List.cons.inj h).1
              exact congrArg Fin.val hdigit
          · -- one digit against more
            have hlength := congrArg List.length h
            have := @Nat.length_toDigits_pos b (n / b)
            rw [List.length_append, List.length_singleton, List.length_singleton] at hlength
            omega
      · next hm =>
          split at h
          · have hlength := congrArg List.length h
            have := @Nat.length_toDigits_pos b (m / b)
            rw [List.length_append, List.length_singleton, List.length_singleton] at hlength
            omega
          · next hn =>
              obtain ⟨hhigh, hlow⟩ := List.append_inj' h rfl
              have hmod := Nat.mod_lt m (by omega : 0 < b)
              have hmod' := Nat.mod_lt n (by omega : 0 < b)
              have hdigit := congrArg Fin.val (digitChar_injective ⟨m % b, by omega⟩
                ⟨n % b, by omega⟩ (List.cons.inj hlow).1)
              have hdiv := ih (m / b) (Nat.div_lt_self (by omega) hb) hhigh
              rw [← Nat.div_add_mod m b, ← Nat.div_add_mod n b, hdiv]
              exact congrArg (b * (n / b) + ·) hdigit

end LocalTransfer.Lib
