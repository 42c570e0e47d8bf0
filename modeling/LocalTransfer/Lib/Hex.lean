import LocalTransfer.Lib.Text
import Mathlib.Data.List.GetD

/-!
# Canonical lowercase hex

Two digits per byte, high half first. The reader accepts exactly the digits the
writer produces for a non-empty byte string (`decodeHex_eq_some_iff`): no upper
case, no odd digit, no empty text. UUIDs are written in this hex.
-/

namespace LocalTransfer.Lib

def hexDigits : List Char := "0123456789abcdef".toList

def hexDigit (nibble : UInt8) : Char := hexDigits.getD nibble.toNat '0'

/-- The hex of a byte string. -/
def pushHex (bytes : Bytes) : Text :=
  bytes.flatMap fun byte : UInt8 => [hexDigit (byte >>> 4), hexDigit (byte &&& 0x0f)]

/-- The value of one digit, given as a byte. -/
def hexValue (byte : UInt8) : Option UInt8 :=
  if 48 ≤ byte ∧ byte ≤ 57 then some (byte - 48)
  else if 97 ≤ byte ∧ byte ≤ 102 then some (byte - 97 + 10)
  else none

/-- The bytes that pairs of digits stand for; an odd last digit is dropped. -/
def decodePairs : Bytes → Option Bytes
  | high :: low :: rest =>
      match hexValue high, hexValue low, decodePairs rest with
      | some h, some l, some bytes => some ((h <<< 4 ||| l) :: bytes)
      | _, _, _ => none
  | _ => some []

/-- Reads a non-empty text with an even number of bytes. -/
def decodeHex (text : Text) : Option Bytes :=
  if text = [] ∨ byteLen text % 2 ≠ 0 then none else decodePairs (utf8 text)

/-! ## Digits -/

/-- The byte of a digit. -/
def digitByte (nibble : UInt8) : UInt8 := if nibble < 10 then 48 + nibble else 87 + nibble

theorem utf8_hexDigit : ∀ n : Fin 16,
    String.utf8EncodeChar (hexDigit (UInt8.ofNat n)) = [digitByte (UInt8.ofNat n)] := by
  decide

theorem hexValue_digitByte : ∀ n : Fin 16,
    hexValue (digitByte (UInt8.ofNat n)) = some (UInt8.ofNat n) := by
  decide

set_option maxRecDepth 4000 in
theorem all_hexValue : ∀ n : Fin 256, (hexValue (UInt8.ofNat n)).all fun v =>
    v.toNat < 16 ∧ digitByte v = UInt8.ofNat n := by
  decide

/-- A byte that has a value is the digit of that value. -/
theorem digitByte_of_hexValue {byte v : UInt8} (h : hexValue byte = some v) :
    v.toNat < 16 ∧ digitByte v = byte := by
  have hall := all_hexValue ⟨byte.toNat, byte.toNat_lt⟩
  simpa [h] using hall

set_option maxRecDepth 4000 in
/-- A byte is put together from its halves. -/
theorem byte_of_halves : ∀ n : Fin 256,
    (UInt8.ofNat n >>> 4).toNat < 16 ∧ (UInt8.ofNat n &&& 0x0f).toNat < 16 ∧
      (UInt8.ofNat n >>> 4) <<< 4 ||| (UInt8.ofNat n &&& 0x0f) = UInt8.ofNat n := by
  decide

theorem halves_of_byte : ∀ h l : Fin 16,
    (UInt8.ofNat h <<< 4 ||| UInt8.ofNat l) >>> 4 = UInt8.ofNat h ∧
      (UInt8.ofNat h <<< 4 ||| UInt8.ofNat l) &&& 0x0f = UInt8.ofNat l := by
  decide

/-- The two digits of a byte, encoded. -/
def hexPair (byte : UInt8) : Bytes := [digitByte (byte >>> 4), digitByte (byte &&& 0x0f)]

theorem utf8_pushHex_singleton (byte : UInt8) :
    utf8 [hexDigit (byte >>> 4), hexDigit (byte &&& 0x0f)] = hexPair byte := by
  obtain ⟨hh, hl, -⟩ := byte_of_halves ⟨byte.toNat, byte.toNat_lt⟩
  simp only [UInt8.ofNat_toNat] at hh hl
  have h1 := utf8_hexDigit ⟨_, hh⟩
  have h2 := utf8_hexDigit ⟨_, hl⟩
  simp only [UInt8.ofNat_toNat] at h1 h2
  simp [hexPair, h1, h2]

theorem hexValue_hexPair (byte : UInt8) :
    hexValue (digitByte (byte >>> 4)) = some (byte >>> 4) ∧
      hexValue (digitByte (byte &&& 0x0f)) = some (byte &&& 0x0f) ∧
      (byte >>> 4) <<< 4 ||| (byte &&& 0x0f) = byte := by
  obtain ⟨hh, hl, heq⟩ := byte_of_halves ⟨byte.toNat, byte.toNat_lt⟩
  simp only [UInt8.ofNat_toNat] at hh hl heq
  have h1 := hexValue_digitByte ⟨_, hh⟩
  have h2 := hexValue_digitByte ⟨_, hl⟩
  simp only [UInt8.ofNat_toNat] at h1 h2
  exact ⟨h1, h2, heq⟩

/-- Two bytes that are digits are the digits of the byte they stand for. -/
theorem hexPair_of_hexValue {high low h l : UInt8} (hh : hexValue high = some h)
    (hl : hexValue low = some l) : hexPair (h <<< 4 ||| l) = [high, low] := by
  obtain ⟨hlt, hhigh⟩ := digitByte_of_hexValue hh
  obtain ⟨llt, hlow⟩ := digitByte_of_hexValue hl
  obtain ⟨h1, h2⟩ := halves_of_byte ⟨_, hlt⟩ ⟨_, llt⟩
  simp only [UInt8.ofNat_toNat] at h1 h2
  simp [hexPair, h1, h2, hhigh, hlow]

/-! ## Texts -/

theorem utf8_pushHex (bytes : Bytes) : utf8 (pushHex bytes) = bytes.flatMap hexPair := by
  induction bytes with
  | nil => rfl
  | cons byte bytes ih =>
      have hcons : pushHex (byte :: bytes) =
          [hexDigit (byte >>> 4), hexDigit (byte &&& 0x0f)] ++ pushHex bytes := rfl
      rw [hcons, utf8_append, utf8_pushHex_singleton, ih, List.flatMap_cons]

theorem length_pushHex (bytes : Bytes) : (pushHex bytes).length = 2 * bytes.length := by
  induction bytes with
  | nil => rfl
  | cons byte bytes ih =>
      simp only [pushHex, List.flatMap_cons, List.length_append, List.length_cons] at ih ⊢
      simp only [List.length_nil]
      omega

@[simp] theorem byteLen_pushHex (bytes : Bytes) : byteLen (pushHex bytes) = 2 * bytes.length := by
  rw [← length_utf8, utf8_pushHex]
  induction bytes with
  | nil => rfl
  | cons byte bytes ih =>
      simp only [List.flatMap_cons, List.length_append, ih, List.length_cons]
      simp only [hexPair, List.length_cons, List.length_nil]
      omega

theorem mem_hexDigits (nibble : UInt8) : hexDigit nibble ∈ hexDigits := by
  by_cases h : nibble.toNat < hexDigits.length
  · rw [hexDigit, List.getD_eq_getElem _ _ h]
    exact List.getElem_mem h
  · rw [hexDigit, List.getD_eq_default _ _ (Nat.le_of_not_lt h)]
    decide

theorem mem_hexDigits_of_mem_pushHex {bytes : Bytes} {c : Char} (h : c ∈ pushHex bytes) :
    c ∈ hexDigits := by
  obtain ⟨byte, -, hc⟩ := List.mem_flatMap.mp h
  simp only [List.mem_cons, List.not_mem_nil, or_false] at hc
  rcases hc with rfl | rfl <;> exact mem_hexDigits _

@[simp] theorem pushHex_eq_nil_iff {bytes : Bytes} : pushHex bytes = [] ↔ bytes = [] := by
  rw [← List.length_eq_zero_iff, length_pushHex, ← List.length_eq_zero_iff]
  omega

theorem decodePairs_flatMap (bytes : Bytes) : decodePairs (bytes.flatMap hexPair) = some bytes := by
  induction bytes with
  | nil => rfl
  | cons byte bytes ih =>
      obtain ⟨hh, hl, heq⟩ := hexValue_hexPair byte
      simp only [List.flatMap_cons, hexPair, List.cons_append, List.nil_append, decodePairs, hh, hl]
      rw [show decodePairs (bytes.flatMap hexPair) = some bytes from ih]
      simp [heq]

theorem flatMap_of_decodePairs {digits bytes : Bytes} (heven : digits.length % 2 = 0)
    (h : decodePairs digits = some bytes) : bytes.flatMap hexPair = digits := by
  induction digits using decodePairs.induct generalizing bytes with
  | case1 high low rest v w vs hvs hw hv ih =>
      simp only [decodePairs, hv, hw, hvs, Option.some.injEq] at h
      subst h
      have hrest : rest.length % 2 = 0 := by simp only [List.length_cons] at heven; omega
      rw [List.flatMap_cons, hexPair_of_hexValue hv hw, ih hrest hvs]
      rfl
  | case2 high low rest hnone ih =>
      simp only [decodePairs] at h
      cases h
  | case3 digits hshort =>
      cases digits with
      | nil =>
          simp only [decodePairs, Option.some.injEq] at h
          subst h
          rfl
      | cons high rest =>
          cases rest with
          | nil => simp at heven
          | cons low rest => exact absurd rfl (hshort high low rest)

/-- The reader accepts exactly the hex of a non-empty byte string. -/
theorem decodeHex_eq_some_iff {text : Text} {bytes : Bytes} :
    decodeHex text = some bytes ↔ bytes ≠ [] ∧ text = pushHex bytes := by
  unfold decodeHex
  constructor
  · intro h
    split at h
    · cases h
    · rename_i hcond
      push Not at hcond
      obtain ⟨hne, heven⟩ := hcond
      have hflat := flatMap_of_decodePairs (by simpa using heven) h
      have htext : text = pushHex bytes := utf8_injective (by rw [utf8_pushHex, hflat])
      exact ⟨fun hnil => hne (by rw [htext, hnil]; rfl), htext⟩
  · rintro ⟨hne, rfl⟩
    rw [if_neg (by simp [hne]), utf8_pushHex, decodePairs_flatMap]

/-! ## Which texts are hex -/

/-- Lowercase hex digits in even number. -/
structure IsHex (text : Text) : Prop where
  digits : ∀ c ∈ text, c ∈ hexDigits
  even : text.length % 2 = 0

instance (text : Text) : Decidable (IsHex text) :=
  decidable_of_iff (text.all (· ∈ hexDigits) ∧ text.length % 2 = 0)
    ⟨fun h => ⟨by simpa using h.1, h.2⟩, fun h => ⟨by simpa using h.digits, h.even⟩⟩

/-- The value of a digit. -/
def digitValue (c : Char) : UInt8 := UInt8.ofNat (hexDigits.idxOf c)

/-- What a hex text stands for, two digits a byte. -/
def bytesOfHex : Text → Bytes
  | high :: low :: rest => (16 * digitValue high + digitValue low) :: bytesOfHex rest
  | _ => []

theorem isHex_pushHex (bytes : Bytes) : IsHex (pushHex bytes) where
  digits _ := mem_hexDigits_of_mem_pushHex
  even := by
    rw [length_pushHex]
    omega

/-- Two digits are the digits of the byte they stand for. -/
theorem hexDigit_of_digitValue : ∀ high ∈ hexDigits, ∀ low ∈ hexDigits,
    hexDigit ((16 * digitValue high + digitValue low) >>> 4) = high ∧
      hexDigit ((16 * digitValue high + digitValue low) &&& 0x0f) = low := by
  have hall : hexDigits.all (fun high => hexDigits.all fun low =>
      hexDigit ((16 * digitValue high + digitValue low) >>> 4) = high ∧
        hexDigit ((16 * digitValue high + digitValue low) &&& 0x0f) = low) = true := by
    decide
  simpa only [List.all_eq_true, decide_eq_true_eq] using hall

/-- A hex text is the hex of what it stands for. -/
theorem pushHex_bytesOfHex {text : Text} (h : IsHex text) : pushHex (bytesOfHex text) = text := by
  induction text using bytesOfHex.induct with
  | case1 high low rest ih =>
      have hrest : IsHex rest := by
        refine ⟨fun c hc => h.digits c (by simp [hc]), ?_⟩
        have heven := h.even
        simp only [List.length_cons] at heven
        omega
      obtain ⟨hhigh, hlow⟩ :=
        hexDigit_of_digitValue high (h.digits high (by simp)) low (h.digits low (by simp))
      have hcons : pushHex (bytesOfHex (high :: low :: rest)) =
          [hexDigit ((16 * digitValue high + digitValue low) >>> 4),
            hexDigit ((16 * digitValue high + digitValue low) &&& 0x0f)] ++
          pushHex (bytesOfHex rest) := rfl
      rw [hcons, hhigh, hlow, ih hrest]
      rfl
  | case2 text hshort =>
      have heven := h.even
      match text with
      | [] => rfl
      | [c] => simp at heven
      | high :: low :: rest => exact absurd rfl (hshort high low rest)

theorem isAscii_of_isHex {text : Text} (h : IsHex text) : IsAscii text := by
  have hdigits : IsAscii hexDigits := by decide
  intro c hc
  exact hdigits c (h.digits c hc)

/-- The reader accepts exactly the non-empty hex texts, for what they stand for. -/
theorem decodeHex_eq_some_iff_isHex {text : Text} {bytes : Bytes} :
    decodeHex text = some bytes ↔ text ≠ [] ∧ IsHex text ∧ bytes = bytesOfHex text := by
  have hread : text ≠ [] → IsHex text → decodeHex text = some (bytesOfHex text) := by
    intro hne hhex
    refine decodeHex_eq_some_iff.mpr ⟨?_, (pushHex_bytesOfHex hhex).symm⟩
    intro hnil
    rw [← pushHex_bytesOfHex hhex, hnil] at hne
    exact hne rfl
  constructor
  · intro h
    obtain ⟨hne, htext⟩ := decodeHex_eq_some_iff.mp h
    have hhex : IsHex text := htext ▸ isHex_pushHex bytes
    have hne' : text ≠ [] := by
      rw [htext]
      simpa using hne
    rw [hread hne' hhex] at h
    exact ⟨hne', hhex, (Option.some.inj h).symm⟩
  · rintro ⟨hne, hhex, rfl⟩
    exact hread hne hhex

@[simp] theorem bytesOfHex_pushHex (bytes : Bytes) : bytesOfHex (pushHex bytes) = bytes := by
  by_cases hne : bytes = []
  · rw [hne]
    rfl
  · have hread := decodeHex_eq_some_iff.mpr ⟨hne, rfl⟩
    exact (decodeHex_eq_some_iff_isHex.mp hread).2.2.symm

/-! ## UUIDs -/

structure Uuid where
  bytes : Bytes
  size : bytes.length = 16

/-- The digits of a UUID in groups of 8, 4, 4, 4 and 12. -/
def Uuid.hyphenated (self : Uuid) : Text :=
  let group start count := pushHex ((self.bytes.drop start).take count)
  group 0 4 ++ '-' :: group 4 2 ++ '-' :: group 6 2 ++ '-' :: group 8 2 ++ '-' :: group 10 6

/-- The number in the first half of the seventh byte. -/
def Uuid.getVersionNum (self : Uuid) : Nat := (self.bytes.getD 6 0 >>> 4).toNat

end LocalTransfer.Lib
