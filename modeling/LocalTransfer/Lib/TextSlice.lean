import LocalTransfer.Lib.Text

/-!
# Byte offsets into a text, and ASCII case

Offsets into a text count bytes of its encoding, and only those between two
characters can be sliced at. The module also has equality of texts up to the case of
ASCII letters.
-/

namespace LocalTransfer.Lib

/-! ## Byte offsets -/

/-- The text before and after a byte offset, if the offset is a character boundary. -/
def splitAtByte : Text → Nat → Option (Text × Text)
  | [], n => if n = 0 then some ([], []) else none
  | c :: s, n =>
      if n = 0 then some ([], c :: s)
      else if c.utf8Size ≤ n then
        (splitAtByte s (n - c.utf8Size)).map fun (before, after) => (c :: before, after)
      else none

/-- Splitting undoes concatenation. -/
theorem splitAtByte_eq_some_iff {s a b : Text} {n : Nat} :
    splitAtByte s n = some (a, b) ↔ s = a ++ b ∧ byteLen a = n := by
  -- by the first character: the offset is before it, after it, or inside it
  induction s generalizing n a b with
  | nil =>
      simp only [splitAtByte]
      split
      · next h =>
          subst h
          simp only [Option.some.injEq, Prod.mk.injEq]
          constructor
          · rintro ⟨rfl, rfl⟩
            simp
          · rintro ⟨h, -⟩
            have := List.append_eq_nil_iff.mp h.symm
            exact ⟨this.1.symm, this.2.symm⟩
      · next h =>
          simp only [reduceCtorEq, false_iff, not_and]
          intro heq
          rw [(List.append_eq_nil_iff.mp heq.symm).1]
          exact fun h0 => h h0.symm
  | cons c s ih =>
      have hpos := c.utf8Size_pos
      simp only [splitAtByte]
      split
      · next h =>
          subst h
          simp only [Option.some.injEq, Prod.mk.injEq]
          constructor
          · rintro ⟨rfl, rfl⟩
            simp
          · rintro ⟨heq, h0⟩
            cases a with
            | nil => exact ⟨rfl, heq⟩
            | cons d a =>
                have := d.utf8Size_pos
                rw [byteLen_cons] at h0
                omega
      · next h =>
          split
          · next hle =>
              simp only [Option.map_eq_some_iff, Prod.exists, Prod.mk.injEq]
              constructor
              · rintro ⟨a', b', hsplit, rfl, rfl⟩
                obtain ⟨rfl, hlen⟩ := ih.mp hsplit
                rw [byteLen_cons, hlen]
                exact ⟨rfl, by omega⟩
              · rintro ⟨heq, hlen⟩
                cases a with
                | nil => exact absurd hlen.symm h
                | cons d a =>
                    obtain ⟨rfl, rfl⟩ := List.cons_eq_cons.mp heq
                    rw [byteLen_cons] at hlen
                    exact ⟨a, b, ih.mpr ⟨rfl, by omega⟩, rfl, rfl⟩
          · next hlt =>
              simp only [reduceCtorEq, false_iff, not_and]
              intro heq hlen
              cases a with
              | nil => exact h hlen.symm
              | cons d a =>
                  obtain ⟨rfl, -⟩ := List.cons_eq_cons.mp heq
                  rw [byteLen_cons] at hlen
                  omega

@[simp] theorem splitAtByte_append (a b : Text) : splitAtByte (a ++ b) (byteLen a) = some (a, b) :=
  splitAtByte_eq_some_iff.mpr ⟨rfl, rfl⟩

/-- The text before a byte offset. Off a character boundary there is none. -/
def sliceTo (s : Text) (n : Nat) : Option Text := (splitAtByte s n).map Prod.fst

/-- The text after a byte offset. Off a character boundary there is none. -/
def sliceFrom (s : Text) (n : Nat) : Option Text := (splitAtByte s n).map Prod.snd

/-- The offset lies between two characters, or at an end. -/
def isCharBoundary (s : Text) (n : Nat) : Bool := (splitAtByte s n).isSome

@[simp] theorem isCharBoundary_zero (s : Text) : isCharBoundary s 0 := by
  cases s <;> simp [isCharBoundary, splitAtByte]

theorem isCharBoundary_append (a b : Text) : isCharBoundary (a ++ b) (byteLen a) := by
  simp [isCharBoundary]

/-- The nearest character boundary at or below an offset. -/
def floorCharBoundary (s : Text) : Nat → Nat
  | 0 => 0
  | n + 1 => if isCharBoundary s (n + 1) then n + 1 else floorCharBoundary s n

theorem floorCharBoundary_le (s : Text) (n : Nat) : floorCharBoundary s n ≤ n := by
  induction n with
  | zero => exact Nat.le_refl _
  | succ n ih =>
      unfold floorCharBoundary
      split <;> omega

theorem isCharBoundary_floor (s : Text) (n : Nat) : isCharBoundary s (floorCharBoundary s n) := by
  induction n with
  | zero => exact isCharBoundary_zero s
  | succ n ih =>
      unfold floorCharBoundary
      split
      · assumption
      · exact ih

/-- No boundary is passed over. -/
theorem le_floorCharBoundary {s : Text} {m n : Nat} (hm : isCharBoundary s m) (hmn : m ≤ n) :
    m ≤ floorCharBoundary s n := by
  induction n with
  | zero => exact hmn
  | succ n ih =>
      unfold floorCharBoundary
      split
      · exact hmn
      · next hn =>
          rcases Nat.lt_or_eq_of_le hmn with hlt | rfl
          · exact ih (Nat.le_of_lt_succ hlt)
          · exact absurd hm hn

/-- The longest text of at most `n` bytes that starts `s`. -/
def truncateBytes (s : Text) (n : Nat) : Text :=
  match splitAtByte s (floorCharBoundary s (min (byteLen s) n)) with
  | some (before, _) => before
  | none => []

/-- Truncation yields a prefix within the bound that keeps every prefix within the bound. -/
theorem truncateBytes_spec (s : Text) (n : Nat) :
    ∃ rest, s = truncateBytes s n ++ rest ∧ byteLen (truncateBytes s n) ≤ n ∧
      ∀ a b, s = a ++ b → byteLen a ≤ n → byteLen a ≤ byteLen (truncateBytes s n) := by
  have hb := isCharBoundary_floor s (min (byteLen s) n)
  have hle := floorCharBoundary_le s (min (byteLen s) n)
  simp only [isCharBoundary, Option.isSome_iff_exists] at hb
  obtain ⟨⟨before, after⟩, hsplit⟩ := hb
  have htrunc : truncateBytes s n = before := by
    unfold truncateBytes
    rw [hsplit]
  obtain ⟨hs, hlen⟩ := splitAtByte_eq_some_iff.mp hsplit
  refine ⟨after, by rw [htrunc, hs], by rw [htrunc, hlen]; omega, ?_⟩
  rintro a b rfl ha
  rw [htrunc, hlen]
  refine le_floorCharBoundary (isCharBoundary_append a b) ?_
  rw [byteLen_append]
  omega

/-- Of two prefixes of a text, the one of no more bytes starts the other. -/
theorem prefix_of_byteLen_le {s a b : Text} (ha : a <+: s) (hb : b <+: s)
    (h : byteLen a ≤ byteLen b) : a <+: b := by
  rcases List.prefix_or_prefix_of_prefix ha hb with hab | hba
  · exact hab
  · obtain ⟨rest, rfl⟩ := hba
    have hrest : rest = [] := by
      have := length_le_byteLen rest
      rw [byteLen_append] at h
      exact List.length_eq_zero_iff.mp (by omega)
    exact ⟨[], by rw [hrest, List.append_nil, List.append_nil]⟩

/-! ## ASCII case -/

/-- Equality up to the case of ASCII letters. -/
def eqIgnoreAsciiCase (a b : Text) : Bool := a.map Char.toLower == b.map Char.toLower

theorem eqIgnoreAsciiCase_iff {a b : Text} :
    eqIgnoreAsciiCase a b ↔ a.map Char.toLower = b.map Char.toLower := by
  simp [eqIgnoreAsciiCase]

@[simp] theorem eqIgnoreAsciiCase_refl (a : Text) : eqIgnoreAsciiCase a a := by
  simp [eqIgnoreAsciiCase]

/-- Texts equal up to case are told apart from a third one alike. -/
theorem eqIgnoreAsciiCase_congr {a b : Text} (h : eqIgnoreAsciiCase a b) (c : Text) :
    eqIgnoreAsciiCase a c = eqIgnoreAsciiCase b c := by
  simp only [eqIgnoreAsciiCase, eqIgnoreAsciiCase_iff.mp h]

/-- Lower case moves only the ASCII capitals. -/
theorem toLower_cases (c : Char) :
    c.toLower = c ∨ (65 ≤ c.toNat ∧ c.toNat ≤ 90 ∧ c.toLower.toNat = c.toNat + 32) := by
  unfold Char.toLower
  split
  · next h =>
      right
      have hlo : 65 ≤ c.val.toNat := UInt32.le_iff_toNat_le.mp h.1
      have hhi : c.val.toNat ≤ 90 := UInt32.le_iff_toNat_le.mp h.2
      refine ⟨hlo, hhi, ?_⟩
      show (c.val + 32).toNat = c.val.toNat + 32
      have h32 : (32 : UInt32).toNat = 32 := rfl
      rw [UInt32.toNat_add, h32]
      omega
  · exact .inl rfl

@[simp] theorem utf8Size_toLower (c : Char) : c.toLower.utf8Size = c.utf8Size := by
  rcases toLower_cases c with h | ⟨hlo, hhi, h⟩
  · rw [h]
  · rw [utf8Size_eq_one (c := c) (by omega), utf8Size_eq_one (by omega)]

theorem byteLen_map_toLower (s : Text) : byteLen (s.map Char.toLower) = byteLen s := by
  induction s with
  | nil => rfl
  | cons c s ih => rw [List.map_cons, byteLen_cons, byteLen_cons, utf8Size_toLower, ih]

/-- Case does not change the encoded size. -/
theorem byteLen_of_eqIgnoreAsciiCase {a b : Text} (h : eqIgnoreAsciiCase a b) :
    byteLen a = byteLen b := by
  rw [← byteLen_map_toLower a, eqIgnoreAsciiCase_iff.mp h, byteLen_map_toLower]

/-- A text that is lower-case letters up to case consists of letters. -/
theorem isAlpha_of_eqIgnoreAsciiCase {a b : Text} (h : eqIgnoreAsciiCase a b)
    (hb : ∀ c ∈ b, 97 ≤ c.toLower.toNat ∧ c.toLower.toNat ≤ 122) {c : Char} (hc : c ∈ a) :
    65 ≤ c.toNat ∧ c.toNat ≤ 122 := by
  have hmem : c.toLower ∈ b.map Char.toLower := by
    rw [← eqIgnoreAsciiCase_iff.mp h]
    exact List.mem_map_of_mem hc
  obtain ⟨d, hd, hlower⟩ := List.mem_map.mp hmem
  have hrange := hb d hd
  rw [hlower] at hrange
  rcases toLower_cases c with heq | ⟨hlo, hhi, -⟩
  · rw [heq] at hrange
    omega
  · omega

end LocalTransfer.Lib
