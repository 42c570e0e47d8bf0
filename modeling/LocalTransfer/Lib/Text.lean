import Mathlib.Data.List.DropRight
import Mathlib.Data.List.Basic
import Mathlib.Tactic.Common

/-!
# Text, its UTF-8 bytes and decimal numerals, and durations

Text is a list of Unicode scalar values; its encoded form is a list of bytes.
The encoder and the strict decoder are inverse to one another
(`fromUtf8_eq_some_iff`), so a validated byte string is the encoding of exactly
one text. The module also fixes the two Unicode classes that validation code
tests (control characters and white space), trimming, and canonical decimal
numerals of 16-bit numbers. A duration is a number of nanoseconds on whatever
timeline its caller has.
-/

namespace LocalTransfer.Lib

/-- Text as a list of Unicode scalar values. -/
abbrev Text := List Char

/-- A byte string. -/
abbrev Bytes := List UInt8

/-- A duration in nanoseconds. -/
abbrev Duration := Nat

def Duration.fromSecs (secs : Nat) : Duration := secs * 1000000000

/-! ## UTF-8 -/

/-- The UTF-8 encoding of a text. -/
def utf8 (s : Text) : Bytes := s.flatMap String.utf8EncodeChar

/-- Strict UTF-8 validation and decoding of a byte string. -/
def fromUtf8 (b : Bytes) : Option Text := b.toByteArray.utf8Decode?.map Array.toList

/-- A byte string decodes to a text exactly when it is that text's encoding. -/
theorem fromUtf8_eq_some_iff {b : Bytes} {s : Text} : fromUtf8 b = some s ↔ utf8 s = b := by
  constructor
  · intro h
    simp only [fromUtf8, Option.map_eq_some_iff] at h
    obtain ⟨a, ha, rfl⟩ := h
    have hsome : b.toByteArray.utf8Decode?.isSome := by rw [ha]; rfl
    have henc := ByteArray.utf8Encode_get_utf8Decode? (h := hsome)
    simp only [ha, Option.get_some] at henc
    have hdata := congrArg (fun x => x.data.toList) henc
    simpa [List.utf8Encode, utf8] using hdata
  · rintro rfl
    have henc : (utf8 s).toByteArray = s.utf8Encode := rfl
    simp [fromUtf8, henc]

@[simp] theorem fromUtf8_utf8 (s : Text) : fromUtf8 (utf8 s) = some s :=
  fromUtf8_eq_some_iff.mpr rfl

/-- Distinct texts have distinct encodings. -/
theorem utf8_injective : Function.Injective utf8 := by
  intro s t h
  have := congrArg fromUtf8 h
  simpa using this

@[simp] theorem utf8_nil : utf8 [] = [] := rfl

@[simp] theorem utf8_cons (c : Char) (s : Text) :
    utf8 (c :: s) = String.utf8EncodeChar c ++ utf8 s := rfl

@[simp] theorem utf8_append (s t : Text) : utf8 (s ++ t) = utf8 s ++ utf8 t := by
  simp [utf8]

/-- The encoded size of a text in bytes. -/
def byteLen (s : Text) : Nat := (utf8 s).length

@[simp] theorem byteLen_nil : byteLen [] = 0 := rfl

@[simp] theorem byteLen_cons (c : Char) (s : Text) : byteLen (c :: s) = c.utf8Size + byteLen s := by
  simp [byteLen]

@[simp] theorem byteLen_append (s t : Text) : byteLen (s ++ t) = byteLen s + byteLen t := by
  simp [byteLen]

@[simp] theorem length_utf8 (s : Text) : (utf8 s).length = byteLen s := rfl

theorem length_le_byteLen (s : Text) : s.length ≤ byteLen s := by
  induction s with
  | nil => simp
  | cons c s ih =>
      have := c.utf8Size_pos
      simp only [List.length_cons, byteLen_cons]
      omega

theorem byteLen_le_four_mul (s : Text) : byteLen s ≤ 4 * s.length := by
  induction s with
  | nil => simp
  | cons c s ih =>
      have := c.utf8Size_le_four
      simp only [List.length_cons, byteLen_cons]
      omega

/-! ## ASCII text -/

/-- Every character is ASCII. -/
def IsAscii (s : Text) : Prop := ∀ c ∈ s, c.toNat < 128

instance (s : Text) : Decidable (IsAscii s) := List.decidableBAll _ s

theorem utf8Size_eq_one {c : Char} (h : c.toNat < 128) : c.utf8Size = 1 := by
  have hv : c.val.toNat < 128 := h
  rw [Char.utf8Size_eq_one_iff, UInt32.le_iff_toNat_le]
  simpa using Nat.le_of_lt_succ hv

/-- ASCII text takes one byte per character. -/
theorem byteLen_of_isAscii {s : Text} (h : IsAscii s) : byteLen s = s.length := by
  induction s with
  | nil => rfl
  | cons c s ih =>
      have htail : IsAscii s := fun d hd => h d (List.mem_cons_of_mem _ hd)
      rw [byteLen_cons, utf8Size_eq_one (h c List.mem_cons_self), ih htail, List.length_cons,
        Nat.add_comm]

/-! ## Character classes and trimming -/

/-- The control characters: general category `Cc`. -/
def isControl (c : Char) : Bool :=
  c.toNat < 0x20 || (0x7f ≤ c.toNat && c.toNat ≤ 0x9f)

/-- The Unicode `White_Space` property. -/
def isWhitespace (c : Char) : Bool :=
  let n := c.toNat
  (0x09 ≤ n && n ≤ 0x0d) || n == 0x20 || n == 0x85 || n == 0xa0 || n == 0x1680 ||
    (0x2000 ≤ n && n ≤ 0x200a) || n == 0x2028 || n == 0x2029 || n == 0x202f ||
    n == 0x205f || n == 0x3000

/-- Removes leading and trailing white space. -/
def trim (s : Text) : Text := (s.dropWhile isWhitespace).rdropWhile isWhitespace

/-- A text is trimmed when neither end is white space. -/
theorem trim_eq_self_iff {s : Text} :
    trim s = s ↔ (∀ h : s ≠ [], ¬ isWhitespace (s.head h)) ∧
      (∀ h : s ≠ [], ¬ isWhitespace (s.getLast h)) := by
  constructor
  · intro h
    have hlen : s.length ≤ (s.dropWhile isWhitespace).length := by
      calc s.length = (trim s).length := by rw [h]
        _ ≤ (s.dropWhile isWhitespace).length :=
          (List.rdropWhile_prefix isWhitespace (s.dropWhile isWhitespace)).length_le
    have hdrop : s.dropWhile isWhitespace = s :=
      (List.dropWhile_suffix isWhitespace).eq_of_length_le hlen
    refine ⟨fun hne => ?_, ?_⟩
    · cases s with
      | nil => exact absurd rfl hne
      | cons c s =>
          intro hc
          simp only [List.head_cons] at hc
          rw [List.dropWhile_cons_of_pos hc] at hlen
          have := (List.dropWhile_suffix (l := s) isWhitespace).length_le
          simp only [List.length_cons] at hlen
          omega
    · unfold trim at h
      rw [hdrop] at h
      exact List.rdropWhile_eq_self_iff.mp h
  · rintro ⟨hhead, hlast⟩
    have hdrop : s.dropWhile isWhitespace = s := by
      cases s with
      | nil => rfl
      | cons c s => exact List.dropWhile_cons_of_neg (hhead (by simp))
    unfold trim
    rw [hdrop]
    exact List.rdropWhile_eq_self_iff.mpr hlast

theorem trim_eq_nil_iff {s : Text} : trim s = [] ↔ ∀ c ∈ s, isWhitespace c := by
  unfold trim
  rw [List.rdropWhile_eq_nil_iff]
  constructor
  · intro h c hc
    rw [← List.takeWhile_append_dropWhile (p := isWhitespace) (l := s)] at hc
    rcases List.mem_append.mp hc with h' | h'
    · exact List.mem_takeWhile_imp h'
    · exact h c h'
  · intro h c hc
    exact h c ((List.dropWhile_suffix isWhitespace).subset hc)

theorem byteLen_le_of_sublist {s t : Text} (h : List.Sublist s t) : byteLen s ≤ byteLen t := by
  induction h with
  | slnil => exact Nat.le_refl _
  | cons c _ ih =>
      rw [byteLen_cons]
      omega
  | cons_cons c _ ih =>
      rw [byteLen_cons, byteLen_cons]
      omega

theorem trim_sublist (s : Text) : List.Sublist (trim s) s :=
  (List.rdropWhile_prefix isWhitespace _).sublist.trans
    (List.dropWhile_suffix isWhitespace).sublist

theorem byteLen_trim_le (s : Text) : byteLen (trim s) ≤ byteLen s :=
  byteLen_le_of_sublist (trim_sublist s)

/-- Trimming is idempotent. -/
@[simp] theorem trim_trim (s : Text) : trim (trim s) = trim s := by
  rw [trim_eq_self_iff]
  refine ⟨fun hne => ?_, fun hne => ?_⟩
  · have hpre := List.rdropWhile_prefix isWhitespace (s.dropWhile isWhitespace)
    have hne' : s.dropWhile isWhitespace ≠ [] := by
      intro h
      rw [trim, h] at hne
      exact hne rfl
    have hhead : (trim s).head hne = (s.dropWhile isWhitespace).head hne' := hpre.head hne
    rw [hhead]
    simpa using List.head_dropWhile_not isWhitespace hne'
  · exact List.rdropWhile_last_not isWhitespace _ hne

theorem any_isControl_trim {s : Text} (h : s.any isControl = false) :
    (trim s).any isControl = false := by
  rw [List.any_eq_false] at h ⊢
  exact fun c hc => h c ((trim_sublist s).subset hc)

/-! ## Decimal numerals -/

/-- The decimal numeral of a number. -/
def decimal (n : Nat) : Text := Nat.toDigits 10 n

/-- Parsing of an unsigned 16-bit decimal number: an optional plus sign, then at
least one digit, leading zeros allowed, overflow rejected. -/
def parseU16 (text : Text) : Option UInt16 :=
  let digits := match text with
    | '+' :: rest => rest
    | _ => text
  if digits.isEmpty || !digits.all Char.isDigit then none
  else
    let value := Nat.ofDigitChars 10 digits 0
    if value < UInt16.size then some (UInt16.ofNat value) else none

theorem isDigit_of_mem_decimal {n : Nat} {c : Char} (h : c ∈ decimal n) : c.isDigit :=
  Nat.isDigit_of_mem_toDigits (by decide) (by decide) h

theorem decimal_ne_nil (n : Nat) : decimal n ≠ [] := Nat.toDigits_ne_nil

/-- The numeral of a 16-bit number has at most five digits. -/
theorem length_decimal_le (n : UInt16) : (decimal n.toNat).length ≤ 5 :=
  (Nat.length_toDigits_le_iff (by decide) (by decide)).mpr
    (Nat.lt_trans n.toNat_lt (by decide))

theorem toNat_lt_of_isDigit {c : Char} (h : c.isDigit) : c.toNat < 128 := by
  simp only [Char.isDigit, Bool.and_eq_true, decide_eq_true_eq, ge_iff_le,
    UInt32.le_iff_toNat_le] at h
  have : c.val.toNat ≤ 57 := by simpa using h.2
  show c.val.toNat < 128
  omega

theorem isAscii_decimal (n : Nat) : IsAscii (decimal n) :=
  fun _ hc => toNat_lt_of_isDigit (isDigit_of_mem_decimal hc)

/-- The parser inverts the numeral. -/
@[simp] theorem parseU16_decimal (n : UInt16) : parseU16 (decimal n.toNat) = some n := by
  have hplus : ∀ rest, decimal n.toNat ≠ '+' :: rest := by
    intro rest h
    have : ('+' : Char).isDigit := isDigit_of_mem_decimal (n := n.toNat) (by rw [h]; simp)
    exact absurd this (by decide)
  have hdigits : (decimal n.toNat).all Char.isDigit = true :=
    List.all_eq_true.mpr fun c hc => isDigit_of_mem_decimal hc
  have hvalue : Nat.ofDigitChars 10 (decimal n.toNat) 0 = n.toNat :=
    Nat.ofDigitChars_ten_toDigits
  unfold parseU16
  split
  · rename_i rest h
    exact absurd h (hplus rest)
  · have hne := decimal_ne_nil n.toNat
    have hlt : n.toNat < UInt16.size := n.toNat_lt
    simp [hdigits, hvalue, hne, hlt]

/-- Parsing restricted to canonical numerals: no sign and no leading zero. -/
def parseCanonicalU16 (text : Text) : Option UInt16 :=
  match parseU16 text with
  | none => none
  | some value => if decimal value.toNat = text then some value else none

/-- The canonical parser accepts exactly the numerals. -/
theorem parseCanonicalU16_eq_some_iff {text : Text} {n : UInt16} :
    parseCanonicalU16 text = some n ↔ text = decimal n.toNat := by
  constructor
  · intro h
    unfold parseCanonicalU16 at h
    split at h
    · cases h
    · split at h
      · rename_i heq
        cases h
        exact heq.symm
      · cases h
  · rintro rfl
    simp [parseCanonicalU16]

end LocalTransfer.Lib
