import LocalTransfer.Lib.TextSlice
import LocalTransfer.LocalDevice.DeviceName
import Mathlib

/-!
# Discovery metadata

The hints, protocol ranges and TXT entries of `discovery.rs`, the writer of the five
schema keys and the reader of untrusted entries. The reader's loop depends on the
entries only through the values each known key has among them (`collectFields_eq_ok`),
so neither order nor case nor unknown keys matter to it (`fromTxtEntries_eq_ok`).
-/

namespace LocalTransfer

open Lib

def discoveryServiceType : Text := "_local-transfer._tcp".toList
def discoverySchemaVersion : UInt16 := 1
def initialProtocolMajor : UInt16 := 1
def maxDiscoveryNameBytes : Nat := 96
def maxDiscoveryTxtBytes : Nat := 512
def maxDiscoveryTxtEntryBytes : Nat := 255
def keyDiscoveryVersion : Text := "dv".toList
def keyProtocolMin : Text := "pmin".toList
def keyProtocolMax : Text := "pmax".toList
def keyName : Text := "name".toList
def keyPlatform : Text := "os".toList

/-! ## Protocol ranges -/

structure DiscoveryProtocolRangeError where
  min : UInt16
  max : UInt16
  deriving DecidableEq, Repr

/-- An inclusive range of protocol majors. -/
structure DiscoveryProtocolRange where
  min : UInt16
  max : UInt16
  ordered : min ≤ max
  deriving DecidableEq

namespace DiscoveryProtocolRange

def new (min max : UInt16) : Except DiscoveryProtocolRangeError DiscoveryProtocolRange :=
  if h : min > max then .error ⟨min, max⟩ else .ok ⟨min, max, UInt16.not_lt.mp h⟩

def initial : DiscoveryProtocolRange := ⟨initialProtocolMajor, initialProtocolMajor, by decide⟩

/-- The highest major both ranges support. -/
def highestCompatibleVersion (self other : DiscoveryProtocolRange) : Option UInt16 :=
  let minimum := Max.max self.min other.min
  let maximum := Min.min self.max other.max
  if minimum ≤ maximum then some maximum else none

@[simp] theorem new_self (range : DiscoveryProtocolRange) : new range.min range.max = .ok range :=
  dif_neg (UInt16.not_lt.mpr range.ordered)

/-- This release shares a major with exactly the ranges that contain it. -/
theorem initial_highestCompatibleVersion (range : DiscoveryProtocolRange) :
    initial.highestCompatibleVersion range =
      if range.min ≤ initialProtocolMajor ∧ initialProtocolMajor ≤ range.max then
        some initialProtocolMajor else none := by
  have hmax : Max.max initialProtocolMajor range.min =
      if initialProtocolMajor ≤ range.min then range.min else initialProtocolMajor := rfl
  have hmin : Min.min initialProtocolMajor range.max =
      if initialProtocolMajor ≤ range.max then initialProtocolMajor else range.max := rfl
  show (if Max.max initialProtocolMajor range.min ≤ Min.min initialProtocolMajor range.max then
    some (Min.min initialProtocolMajor range.max) else none) = _
  rw [hmax, hmin]
  simp only [UInt16.le_iff_toNat_le]
  split_ifs <;> grind

end DiscoveryProtocolRange

/-! ## Names -/

inductive DiscoveryNameHintError
  | empty
  | controlCharacter
  | tooLong (actual maximum : Nat)
  deriving DecidableEq, Repr

/-- A bounded presentation hint. -/
structure DiscoveryNameHint where
  asStr : Text
  bounded : byteLen asStr ≤ maxDiscoveryNameBytes
  visible : trim asStr ≠ []
  noControl : asStr.any isControl = false
  deriving DecidableEq

namespace DiscoveryNameHint

def new (value : Text) : Except DiscoveryNameHintError DiscoveryNameHint :=
  if hlong : byteLen value > maxDiscoveryNameBytes then
    .error (.tooLong (byteLen value) maxDiscoveryNameBytes)
  else if hempty : trim value = [] then .error .empty
  else if hcontrol : value.any isControl then .error .controlCharacter
  else .ok ⟨value, Nat.le_of_not_gt hlong, hempty, Bool.not_eq_true _ ▸ hcontrol⟩

@[simp] theorem new_asStr (hint : DiscoveryNameHint) : new hint.asStr = .ok hint := by
  simp [new, Nat.not_lt.mpr hint.bounded, hint.visible, hint.noControl]

/-- A name cut at 96 bytes still starts with its first character, which is visible. -/
theorem trim_truncate_ne_nil (name : DeviceName) :
    trim (truncateBytes name.asStr maxDiscoveryNameBytes) ≠ [] := by
  obtain ⟨rest, hsplit, -, hmax⟩ := truncateBytes_spec name.asStr maxDiscoveryNameBytes
  generalize truncateBytes name.asStr maxDiscoveryNameBytes = kept at hsplit hmax
  cases hname : name.asStr with
  | nil => exact absurd hname name.nonempty
  | cons c s =>
      have hfirst : ¬ isWhitespace c := by
        have := (trim_eq_self_iff.mp name.trimmed).1 name.nonempty
        simpa [hname] using this
      have hlong := hmax [c] s (by simp [hname])
        (Nat.le_trans (byteLen_le_four_mul [c]) (by simp [maxDiscoveryNameBytes]))
      cases kept with
      | nil =>
          have := c.utf8Size_pos
          simp only [byteLen_cons, byteLen_nil] at hlong
          omega
      | cons d kept =>
          rw [hname, List.cons_append] at hsplit
          cases hsplit
          exact fun h => hfirst (trim_eq_nil_iff.mp h c List.mem_cons_self)

def fromDeviceName (name : DeviceName) : DiscoveryNameHint where
  asStr := truncateBytes name.asStr maxDiscoveryNameBytes
  bounded := by
    obtain ⟨rest, -, hlen, -⟩ := truncateBytes_spec name.asStr maxDiscoveryNameBytes
    exact hlen
  visible := trim_truncate_ne_nil name
  noControl := by
    obtain ⟨rest, hsplit, -, -⟩ := truncateBytes_spec name.asStr maxDiscoveryNameBytes
    have h := name.noControl
    rw [hsplit, List.any_append, Bool.or_eq_false_iff] at h
    exact h.1

end DiscoveryNameHint

inductive DiscoveryPlatformHint
  | macOs
  | windows
  | linux
  deriving DecidableEq, Repr

namespace DiscoveryPlatformHint

def asStr : DiscoveryPlatformHint → Text
  | .macOs => "macos".toList
  | .windows => "windows".toList
  | .linux => "linux".toList

def parse (value : Bytes) : Option DiscoveryPlatformHint :=
  if value = utf8 "macos".toList then some .macOs
  else if value = utf8 "windows".toList then some .windows
  else if value = utf8 "linux".toList then some .linux
  else none

@[simp] theorem parse_asStr (hint : DiscoveryPlatformHint) :
    parse (utf8 hint.asStr) = some hint := by
  cases hint <;> decide

theorem byteLen_asStr_le (hint : DiscoveryPlatformHint) : byteLen hint.asStr ≤ 7 := by
  cases hint <;> decide

end DiscoveryPlatformHint

/-! ## TXT entries -/

inductive DiscoveryMetadataError
  | invalidTxtKey
  | txtEntryTooLarge (size maximum : Nat)
  | totalMetadataTooLarge (size maximum : Nat)
  | missingField (key : Text)
  | duplicateKnownKey (key : Text)
  | malformedField (key : Text)
  | unsupportedSchemaVersion (version : UInt16)
  | invalidProtocolRange (error : DiscoveryProtocolRangeError)
  deriving DecidableEq, Repr

structure DiscoveryTxtEntry where
  key : Text
  value : Bytes
  deriving DecidableEq

namespace DiscoveryTxtEntry

/-- A byte that may occur in a key: printable ASCII other than `=`. -/
def isKeyByte (byte : UInt8) : Bool := 0x20 ≤ byte && byte ≤ 0x7e && byte != 0x3d

def new (key : Text) (value : Bytes) : Except DiscoveryMetadataError DiscoveryTxtEntry :=
  if key = [] ∨ ¬ (utf8 key).all isKeyByte then .error .invalidTxtKey
  else
    let size := byteLen key + 1 + value.length
    if size > maxDiscoveryTxtEntryBytes then
      .error (.txtEntryTooLarge size maxDiscoveryTxtEntryBytes)
    else .ok ⟨key, value⟩

/-- The size on the wire, with the length octet and the `=`. -/
def encodedSize (self : DiscoveryTxtEntry) : Nat := 1 + byteLen self.key + 1 + self.value.length

/-- An entry of this release, built without the validation of `new`. -/
def emitted (key : Text) (value : Bytes) : DiscoveryTxtEntry := ⟨key, value⟩

end DiscoveryTxtEntry

/-- The size of a whole TXT record. -/
def totalSize (entries : List DiscoveryTxtEntry) : Nat :=
  (entries.map DiscoveryTxtEntry.encodedSize).sum

/-- Validated discovery metadata. -/
structure DiscoveryMetadata where
  protocols : DiscoveryProtocolRange
  name : Option DiscoveryNameHint
  platform : Option DiscoveryPlatformHint
  deriving DecidableEq

namespace DiscoveryMetadata

def toTxtEntries (self : DiscoveryMetadata) : List DiscoveryTxtEntry :=
  [.emitted keyDiscoveryVersion (utf8 (decimal discoverySchemaVersion.toNat)),
    .emitted keyProtocolMin (utf8 (decimal self.protocols.min.toNat)),
    .emitted keyProtocolMax (utf8 (decimal self.protocols.max.toNat))] ++
  (match self.name with
    | some name => [.emitted keyName (utf8 name.asStr)]
    | none => []) ++
  (match self.platform with
    | some platform => [.emitted keyPlatform (utf8 platform.asStr)]
    | none => [])

end DiscoveryMetadata

/-! ## Reading TXT entries -/

/-- The keys the reader knows. -/
inductive KnownKey
  | discoveryVersion
  | protocolMin
  | protocolMax
  | name
  | platform
  deriving DecidableEq, Repr

def KnownKey.text : KnownKey → Text
  | .discoveryVersion => keyDiscoveryVersion
  | .protocolMin => keyProtocolMin
  | .protocolMax => keyProtocolMax
  | .name => keyName
  | .platform => keyPlatform

/-- Which known key a key is, in any case. -/
def knownKey (key : Text) : Option KnownKey :=
  if eqIgnoreAsciiCase key keyDiscoveryVersion then some .discoveryVersion
  else if eqIgnoreAsciiCase key keyProtocolMin then some .protocolMin
  else if eqIgnoreAsciiCase key keyProtocolMax then some .protocolMax
  else if eqIgnoreAsciiCase key keyName then some .name
  else if eqIgnoreAsciiCase key keyPlatform then some .platform
  else none

/-- The values collected so far. -/
abbrev KnownFields := KnownKey → Option Bytes

def setOnce (slot : Option Bytes) (value : Bytes) (key : Text) :
    Except DiscoveryMetadataError (Option Bytes) :=
  if slot.isSome then .error (.duplicateKnownKey key) else .ok (some value)

/-- One round of the reader's loop. -/
def readEntry (fields : KnownFields) (entry : DiscoveryTxtEntry) :
    Except DiscoveryMetadataError KnownFields :=
  match knownKey entry.key with
  | some k => do
      let slot ← setOnce (fields k) entry.value k.text
      .ok (Function.update fields k slot)
  | none => .ok fields

def parseRequiredDecimal (value : Bytes) (key : Text) : Except DiscoveryMetadataError UInt16 :=
  match fromUtf8 value with
  | none => .error (.malformedField key)
  | some text =>
      match parseU16 text with
      | none => .error (.malformedField key)
      | some parsed =>
          if decimal parsed.toNat ≠ text then .error (.malformedField key) else .ok parsed

/-- A field that must be there, in canonical decimal. -/
def requiredDecimal (fields : KnownFields) (k : KnownKey) : Except DiscoveryMetadataError UInt16 :=
  match fields k with
  | none => .error (.missingField k.text)
  | some value => parseRequiredDecimal value k.text

def parseOptionalName (value : Bytes) : Option DiscoveryNameHint :=
  match fromUtf8 value with
  | none => none
  | some text => (DiscoveryNameHint.new text).toOption

namespace DiscoveryMetadata

def fromTxtEntries (entries : List DiscoveryTxtEntry) :
    Except DiscoveryMetadataError DiscoveryMetadata :=
  if totalSize entries > maxDiscoveryTxtBytes then
    .error (.totalMetadataTooLarge (totalSize entries) maxDiscoveryTxtBytes)
  else do
    let fields ← entries.foldlM readEntry fun _ => none
    let version ← requiredDecimal fields .discoveryVersion
    if version ≠ discoverySchemaVersion then .error (.unsupportedSchemaVersion version)
    else
      let min ← requiredDecimal fields .protocolMin
      let max ← requiredDecimal fields .protocolMax
      match DiscoveryProtocolRange.new min max with
      | .error error => .error (.invalidProtocolRange error)
      | .ok protocols =>
          let name := (fields .name).bind parseOptionalName
          let platform := (fields .platform).bind DiscoveryPlatformHint.parse
          .ok { protocols, name, platform }

end DiscoveryMetadata

/-! ## The reader as a function of the known values -/

/-- The values a known key has among the entries. -/
def valuesOf (k : KnownKey) (entries : List DiscoveryTxtEntry) : List Bytes :=
  (entries.filter fun entry => knownKey entry.key = some k).map DiscoveryTxtEntry.value

theorem knownKey_congr {a b : Text} (h : eqIgnoreAsciiCase a b) : knownKey a = knownKey b := by
  simp only [knownKey, eqIgnoreAsciiCase_congr h]

@[simp] theorem knownKey_text (k : KnownKey) : knownKey k.text = some k := by
  cases k <;> decide

theorem valuesOf_append (k : KnownKey) (entries more : List DiscoveryTxtEntry) :
    valuesOf k (entries ++ more) = valuesOf k entries ++ valuesOf k more := by
  simp [valuesOf]

theorem valuesOf_cons (k : KnownKey) (entry : DiscoveryTxtEntry)
    (entries : List DiscoveryTxtEntry) : valuesOf k (entry :: entries) =
      if knownKey entry.key = some k then entry.value :: valuesOf k entries
      else valuesOf k entries := by
  simp only [valuesOf, List.filter_cons]
  split <;> simp_all

theorem valuesOf_perm {entries entries' : List DiscoveryTxtEntry} (h : entries.Perm entries')
    (k : KnownKey) : (valuesOf k entries).Perm (valuesOf k entries') :=
  (h.filter _).map _

/-- Keys that no field knows contribute nothing. -/
theorem valuesOf_unknown {entries : List DiscoveryTxtEntry}
    (h : ∀ entry ∈ entries, knownKey entry.key = none) (k : KnownKey) :
    valuesOf k entries = [] := by
  induction entries with
  | nil => rfl
  | cons entry entries ih =>
      rw [valuesOf_cons, h entry List.mem_cons_self, if_neg (by simp)]
      exact ih fun e he => h e (List.mem_cons_of_mem _ he)

/-- The loop succeeds if no known key occurs twice, and then holds each known value. -/
theorem foldlM_readEntry (entries : List DiscoveryTxtEntry) (fields : KnownFields)
    (h : ∀ k, (fields k).toList.length + (valuesOf k entries).length ≤ 1) :
    entries.foldlM readEntry fields =
      .ok fun k => (fields k).or (valuesOf k entries).head? := by
  induction entries generalizing fields with
  | nil =>
      simp only [List.foldlM_nil, valuesOf, List.filter_nil, List.map_nil, List.head?_nil,
        Option.or_none]
      rfl
  | cons entry entries ih =>
      rw [List.foldlM_cons]
      cases hkey : knownKey entry.key with
      | none =>
          have hvalues : ∀ k, valuesOf k (entry :: entries) = valuesOf k entries := fun k => by
            rw [valuesOf_cons, hkey, if_neg (by simp)]
          simp only [hvalues] at h ⊢
          have hread : readEntry fields entry = .ok fields := by simp [readEntry, hkey]
          rw [hread]
          exact ih fields h
      | some k₀ =>
          have hvalues : ∀ k, valuesOf k (entry :: entries) =
              if k₀ = k then entry.value :: valuesOf k entries else valuesOf k entries :=
            fun k => by rw [valuesOf_cons, hkey]; simp
          have hk₀ := h k₀
          rw [hvalues, if_pos rfl, List.length_cons] at hk₀
          have hfree : fields k₀ = none := by
            rw [← Option.toList_eq_nil_iff, ← List.length_eq_zero_iff]
            omega
          have hrest : valuesOf k₀ entries = [] := by
            rw [← List.length_eq_zero_iff]
            omega
          have hread : readEntry fields entry =
              .ok (Function.update fields k₀ (some entry.value)) := by
            simp [readEntry, hkey, setOnce, hfree, bind, Except.bind]
          rw [hread]
          refine (ih _ fun k => ?_).trans (congrArg Except.ok (funext fun k => ?_))
          · by_cases hk : k = k₀
            · subst hk
              simp [hrest]
            · have := h k
              rw [hvalues, if_neg (Ne.symm hk)] at this
              rwa [Function.update_of_ne hk]
          · by_cases hk : k = k₀
            · subst hk
              rw [Function.update_self, hvalues, if_pos rfl, hfree]
              rfl
            · rw [Function.update_of_ne hk, hvalues, if_neg (Ne.symm hk)]

namespace DiscoveryMetadata

/-- The value each known key has in the TXT record of the metadata. -/
def txtValue (self : DiscoveryMetadata) : KnownKey → Option Bytes
  | .discoveryVersion => some (utf8 (decimal discoverySchemaVersion.toNat))
  | .protocolMin => some (utf8 (decimal self.protocols.min.toNat))
  | .protocolMax => some (utf8 (decimal self.protocols.max.toNat))
  | .name => self.name.map fun name => utf8 name.asStr
  | .platform => self.platform.map fun platform => utf8 platform.asStr

theorem parseRequiredDecimal_decimal (n : UInt16) (key : Text) :
    parseRequiredDecimal (utf8 (decimal n.toNat)) key = .ok n := by
  simp [parseRequiredDecimal]

theorem parseOptionalName_asStr (name : DiscoveryNameHint) :
    parseOptionalName (utf8 name.asStr) = some name := by
  simp [parseOptionalName, Except.toOption]

/-- Entries that hold exactly the values of some metadata are read as that metadata. -/
theorem fromTxtEntries_eq_ok {entries : List DiscoveryTxtEntry} {metadata : DiscoveryMetadata}
    (hsize : totalSize entries ≤ maxDiscoveryTxtBytes)
    (h : ∀ k, valuesOf k entries = (metadata.txtValue k).toList) :
    fromTxtEntries entries = .ok metadata := by
  have hloop : entries.foldlM readEntry (fun _ => none) = .ok metadata.txtValue := by
    rw [foldlM_readEntry]
    · refine congrArg Except.ok (funext fun k => ?_)
      rw [h k]
      cases metadata.txtValue k <;> rfl
    · intro k
      rw [h k]
      cases metadata.txtValue k <;> simp
  obtain ⟨protocols, name, platform⟩ := metadata
  simp only [fromTxtEntries, if_neg (Nat.not_lt.mpr hsize), hloop]
  simp only [bind, Except.bind, requiredDecimal, txtValue, parseRequiredDecimal_decimal, ne_eq,
    not_true, if_false, DiscoveryProtocolRange.new_self]
  cases name <;> cases platform <;> simp [parseOptionalName_asStr]

end DiscoveryMetadata

end LocalTransfer
