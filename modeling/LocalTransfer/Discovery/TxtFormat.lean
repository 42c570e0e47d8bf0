import LocalTransfer.Discovery.Metadata

/-!
# The TXT record of an advertisement

`DiscoveryMetadata::from_txt_entries` reads entries that the network chose.
`ReadsAs` says, without a loop, which records it accepts and as what metadata
(`fromTxtEntries_eq_ok_iff`). A name cut by `DiscoveryNameHint::from_device_name` is among
the names it keeps.
-/

namespace LocalTransfer

open Lib

/-! ## Known keys -/

/-- The values that entries give a key, whatever the case of its letters. -/
def valuesFor (key : Text) (entries : List DiscoveryTxtEntry) : List Bytes :=
  (entries.filter fun entry => eqIgnoreAsciiCase entry.key key).map DiscoveryTxtEntry.value

theorem knownKey_eq_some_iff {key : Text} {k : KnownKey} :
    knownKey key = some k ↔ eqIgnoreAsciiCase key k.text := by
  constructor
  · intro h
    unfold knownKey at h
    split at h
    · cases h
      assumption
    · split at h
      · cases h
        assumption
      · split at h
        · cases h
          assumption
        · split at h
          · cases h
            assumption
          · split at h
            · cases h
              assumption
            · cases h
  · intro h
    rw [knownKey_congr h, knownKey_text]

theorem valuesFor_text (k : KnownKey) (entries : List DiscoveryTxtEntry) :
    valuesFor k.text entries = valuesOf k entries := by
  unfold valuesFor valuesOf
  refine congrArg _ (List.filter_congr fun entry _ => ?_)
  rw [Bool.eq_iff_iff, decide_eq_true_iff, knownKey_eq_some_iff]

/-! ## The reader's loop -/

/-- A loop that succeeds met each known key at most once, and none that was set before. -/
theorem length_valuesOf_of_foldlM {entries : List DiscoveryTxtEntry} {fields fields' : KnownFields}
    (h : entries.foldlM readEntry fields = .ok fields') (k : KnownKey) :
    (fields k).toList.length + (valuesOf k entries).length ≤ 1 := by
  induction entries generalizing fields with
  | nil =>
      cases hk : fields k <;> simp [valuesOf]
  | cons entry entries ih =>
      rw [List.foldlM_cons] at h
      rw [valuesOf_cons]
      cases hkey : knownKey entry.key with
      | none =>
          have hread : readEntry fields entry = .ok fields := by simp [readEntry, hkey]
          rw [hread] at h
          rw [if_neg (by simp)]
          exact ih h
      | some k₀ =>
          cases hfree : fields k₀ with
          | some value =>
              -- the slot is taken, so the loop stopped here
              have hread : readEntry fields entry = .error (.duplicateKnownKey k₀.text) := by
                simp [readEntry, hkey, setOnce, hfree, bind, Except.bind]
              rw [hread] at h
              cases h
          | none =>
              have hread : readEntry fields entry =
                  .ok (Function.update fields k₀ (some entry.value)) := by
                simp [readEntry, hkey, setOnce, hfree, bind, Except.bind]
              rw [hread] at h
              have hrest := ih h
              by_cases hk : k = k₀
              · subst hk
                rw [Function.update_self] at hrest
                rw [if_pos rfl, hfree, List.length_cons]
                simp only [Option.toList_some, List.length_singleton, Option.toList_none,
                  List.length_nil] at hrest ⊢
                omega
              · rw [Function.update_of_ne hk] at hrest
                rw [if_neg (fun heq => hk (Option.some.inj heq).symm)]
                exact hrest

/-- Entries with unknown keys make no difference to the loop. -/
theorem foldlM_readEntry_filter (entries : List DiscoveryTxtEntry) (fields : KnownFields) :
    entries.foldlM readEntry fields =
      (entries.filter fun entry => (knownKey entry.key).isSome).foldlM readEntry fields := by
  induction entries generalizing fields with
  | nil => rfl
  | cons entry entries ih =>
      rw [List.foldlM_cons, List.filter_cons]
      cases hkey : knownKey entry.key with
      | none =>
          have hread : readEntry fields entry = .ok fields := by simp [readEntry, hkey]
          rw [hread]
          exact ih fields
      | some k =>
          rw [if_pos (by rfl), List.foldlM_cons]
          cases readEntry fields entry with
          | error error => rfl
          | ok fields' => exact ih fields'

/-! ## The reader -/

theorem parseRequiredDecimal_eq_ok_iff {value : Bytes} {key : Text} {n : UInt16} :
    parseRequiredDecimal value key = .ok n ↔ value = utf8 (decimal n.toNat) := by
  constructor
  · intro h
    unfold parseRequiredDecimal at h
    split at h
    · cases h
    · next text htext =>
        split at h
        · cases h
        · split at h
          · cases h
          · next hcanonical =>
              cases h
              rw [not_not.mp hcanonical]
              exact (fromUtf8_eq_some_iff.mp htext).symm
  · intro h
    rw [h]
    exact DiscoveryMetadata.parseRequiredDecimal_decimal n key

theorem requiredDecimal_eq_ok_iff {fields : KnownFields} {k : KnownKey} {n : UInt16} :
    requiredDecimal fields k = .ok n ↔ fields k = some (utf8 (decimal n.toNat)) := by
  unfold requiredDecimal
  cases fields k with
  | none => simp
  | some value => rw [parseRequiredDecimal_eq_ok_iff, Option.some.injEq]

theorem parseOptionalName_eq_some_iff {value : Bytes} {hint : DiscoveryNameHint} :
    parseOptionalName value = some hint ↔
      ∃ text, value = utf8 text ∧ DiscoveryNameHint.new text = .ok hint := by
  constructor
  · intro h
    unfold parseOptionalName at h
    split at h
    · cases h
    · next text htext =>
        refine ⟨text, (fromUtf8_eq_some_iff.mp htext).symm, ?_⟩
        cases hnew : DiscoveryNameHint.new text with
        | error error =>
            rw [hnew] at h
            cases h
        | ok hint' =>
            rw [hnew] at h
            cases h
            rfl
  · intro h
    obtain ⟨text, rfl, hnew⟩ := h
    simp [parseOptionalName, hnew, Except.toOption]

theorem DiscoveryNameHint.asStr_of_new {text : Text} {hint : DiscoveryNameHint}
    (h : new text = .ok hint) : hint.asStr = text := by
  unfold new at h
  split at h
  · cases h
  · split at h
    · cases h
    · split at h
      · cases h
      · cases h
        rfl

theorem DiscoveryPlatformHint.parse_eq_some_iff {value : Bytes} {hint : DiscoveryPlatformHint} :
    parse value = some hint ↔ value = utf8 hint.asStr := by
  constructor
  · intro h
    unfold parse at h
    split at h
    · cases h
      assumption
    · split at h
      · cases h
        assumption
      · split at h
        · cases h
          assumption
        · cases h
  · intro h
    rw [h, parse_asStr]

/-- What a record of TXT entries says: the required fields are there, in canonical decimal
and in order, and the optional ones are there as far as they are valid. -/
structure ReadsAs (entries : List DiscoveryTxtEntry) (metadata : DiscoveryMetadata) : Prop where
  size : totalSize entries ≤ maxDiscoveryTxtBytes
  once : ∀ k : KnownKey, (valuesFor k.text entries).length ≤ 1
  version : valuesFor keyDiscoveryVersion entries =
    [utf8 (decimal discoverySchemaVersion.toNat)]
  min : valuesFor keyProtocolMin entries = [utf8 (decimal metadata.protocols.min.toNat)]
  max : valuesFor keyProtocolMax entries = [utf8 (decimal metadata.protocols.max.toNat)]
  name : ∀ hint, metadata.name = some hint ↔
    ∃ text, valuesFor keyName entries = [utf8 text] ∧ DiscoveryNameHint.new text = .ok hint
  platform : ∀ hint, metadata.platform = some hint ↔
    valuesFor keyPlatform entries = [utf8 hint.asStr]

theorem head?_eq_some_iff_of_length {α : Type} {values : List α} (h : values.length ≤ 1) {a : α} :
    values.head? = some a ↔ values = [a] := by
  cases values with
  | nil => simp
  | cons b values =>
      have hnil : values = [] := List.length_eq_zero_iff.mp (by simpa using h)
      simp [hnil]

namespace DiscoveryMetadata

/-- What the reader makes of the values its loop collected. -/
def ofFields (fields : KnownFields) : Except DiscoveryMetadataError DiscoveryMetadata := do
  let version ← requiredDecimal fields .discoveryVersion
  if version ≠ discoverySchemaVersion then .error (.unsupportedSchemaVersion version)
  else
    let min ← requiredDecimal fields .protocolMin
    let max ← requiredDecimal fields .protocolMax
    match DiscoveryProtocolRange.new min max with
    | .error error => .error (.invalidProtocolRange error)
    | .ok protocols =>
        .ok {
          protocols
          name := (fields .name).bind parseOptionalName
          platform := (fields .platform).bind DiscoveryPlatformHint.parse }

theorem fromTxtEntries_eq (entries : List DiscoveryTxtEntry) :
    fromTxtEntries entries =
      if totalSize entries > maxDiscoveryTxtBytes then
        .error (.totalMetadataTooLarge (totalSize entries) maxDiscoveryTxtBytes)
      else (entries.foldlM readEntry fun _ => none) >>= ofFields := rfl

theorem ofFields_eq_ok_iff {fields : KnownFields} {metadata : DiscoveryMetadata} :
    ofFields fields = .ok metadata ↔
      fields .discoveryVersion = some (utf8 (decimal discoverySchemaVersion.toNat)) ∧
      fields .protocolMin = some (utf8 (decimal metadata.protocols.min.toNat)) ∧
      fields .protocolMax = some (utf8 (decimal metadata.protocols.max.toNat)) ∧
      metadata.name = (fields .name).bind parseOptionalName ∧
      metadata.platform = (fields .platform).bind DiscoveryPlatformHint.parse := by
  constructor
  · intro h
    unfold ofFields at h
    -- the reads fail in the order of the source; past them all fields are canonical decimals
    cases hversion : requiredDecimal fields .discoveryVersion with
    | error error => simp [hversion, bind, Except.bind] at h
    | ok version =>
        cases hmin : requiredDecimal fields .protocolMin with
        | error error =>
            simp only [hversion, hmin, bind, Except.bind] at h
            split at h <;> cases h
        | ok min =>
            cases hmax : requiredDecimal fields .protocolMax with
            | error error =>
                simp only [hversion, hmin, hmax, bind, Except.bind] at h
                split at h <;> cases h
            | ok max =>
                simp only [hversion, hmin, hmax, bind, Except.bind] at h
                split at h
                · cases h
                · next hv =>
                    split at h
                    · cases h
                    · next protocols hrange =>
                        cases h
                        obtain ⟨rfl, rfl⟩ : min = protocols.min ∧ max = protocols.max := by
                          unfold DiscoveryProtocolRange.new at hrange
                          split at hrange
                          · cases hrange
                          · cases hrange
                            exact ⟨rfl, rfl⟩
                        refine ⟨?_, requiredDecimal_eq_ok_iff.mp hmin,
                          requiredDecimal_eq_ok_iff.mp hmax, rfl, rfl⟩
                        rw [requiredDecimal_eq_ok_iff.mp hversion, not_not.mp hv]
  · intro h
    obtain ⟨hversion, hmin, hmax, hname, hplatform⟩ := h
    unfold ofFields
    rw [requiredDecimal_eq_ok_iff.mpr hversion, requiredDecimal_eq_ok_iff.mpr hmin,
      requiredDecimal_eq_ok_iff.mpr hmax]
    simp only [bind, Except.bind, ne_eq, not_true, if_false, DiscoveryProtocolRange.new_self]
    rw [← hname, ← hplatform]

/-! ### The value of a key that occurs at most once -/

section Once

variable {entries : List DiscoveryTxtEntry} {k : KnownKey} (honce : (valuesOf k entries).length ≤ 1)

include honce

theorem head?_valuesOf_eq_some_iff {value : Bytes} :
    (valuesOf k entries).head? = some value ↔ valuesFor k.text entries = [value] := by
  rw [valuesFor_text, head?_eq_some_iff_of_length honce]

theorem head?_bind_parseOptionalName {hint : DiscoveryNameHint} :
    (valuesOf k entries).head?.bind parseOptionalName = some hint ↔
      ∃ text, valuesFor k.text entries = [utf8 text] ∧ DiscoveryNameHint.new text = .ok hint := by
  rw [Option.bind_eq_some_iff]
  constructor
  · intro h
    obtain ⟨value, hvalue, hparse⟩ := h
    obtain ⟨text, rfl, hnew⟩ := parseOptionalName_eq_some_iff.mp hparse
    exact ⟨text, (head?_valuesOf_eq_some_iff honce).mp hvalue, hnew⟩
  · intro h
    obtain ⟨text, hvalue, hnew⟩ := h
    exact ⟨utf8 text, (head?_valuesOf_eq_some_iff honce).mpr hvalue,
      parseOptionalName_eq_some_iff.mpr ⟨text, rfl, hnew⟩⟩

theorem head?_bind_parse {hint : DiscoveryPlatformHint} :
    (valuesOf k entries).head?.bind DiscoveryPlatformHint.parse = some hint ↔
      valuesFor k.text entries = [utf8 hint.asStr] := by
  rw [Option.bind_eq_some_iff]
  constructor
  · intro h
    obtain ⟨value, hvalue, hparse⟩ := h
    rw [DiscoveryPlatformHint.parse_eq_some_iff.mp hparse] at hvalue
    exact (head?_valuesOf_eq_some_iff honce).mp hvalue
  · intro h
    exact ⟨_, (head?_valuesOf_eq_some_iff honce).mpr h, DiscoveryPlatformHint.parse_asStr hint⟩

end Once

/-! ### Acceptance -/

/-- The reader accepts exactly the records that say some metadata, and reads that. -/
theorem fromTxtEntries_eq_ok_iff {entries : List DiscoveryTxtEntry}
    {metadata : DiscoveryMetadata} :
    fromTxtEntries entries = .ok metadata ↔ ReadsAs entries metadata := by
  constructor
  · intro h
    rw [fromTxtEntries_eq] at h
    split at h
    · cases h
    · next hsize =>
        cases hloop : entries.foldlM readEntry (fun _ => none) with
        | error error =>
            rw [hloop] at h
            cases h
        | ok fields =>
            -- the loop has succeeded, so no known key came twice
            have honce : ∀ k, (valuesOf k entries).length ≤ 1 := by
              intro k
              have := length_valuesOf_of_foldlM hloop k
              simpa using this
            have hfields := foldlM_readEntry entries (fun _ => none)
              (fun k => by simpa using honce k)
            rw [hfields] at h
            obtain ⟨hversion, hmin, hmax, hname, hplatform⟩ := ofFields_eq_ok_iff.mp h
            simp only [Option.none_or] at hversion hmin hmax hname hplatform
            refine ⟨Nat.not_lt.mp hsize, ?_, ?_, ?_, ?_, ?_, ?_⟩
            · intro k
              rw [valuesFor_text]
              exact honce k
            · exact (head?_valuesOf_eq_some_iff (honce .discoveryVersion)).mp hversion
            · exact (head?_valuesOf_eq_some_iff (honce .protocolMin)).mp hmin
            · exact (head?_valuesOf_eq_some_iff (honce .protocolMax)).mp hmax
            · intro hint
              rw [hname]
              exact head?_bind_parseOptionalName (honce .name)
            · intro hint
              rw [hplatform]
              exact head?_bind_parse (honce .platform)
  · intro h
    have honce : ∀ k, (valuesOf k entries).length ≤ 1 := by
      intro k
      rw [← valuesFor_text]
      exact h.once k
    have hfields := foldlM_readEntry entries (fun _ => none) (fun k => by simpa using honce k)
    rw [fromTxtEntries_eq, if_neg (Nat.not_lt.mpr h.size), hfields]
    refine ofFields_eq_ok_iff.mpr ⟨?_, ?_, ?_, ?_, ?_⟩
    · exact (head?_valuesOf_eq_some_iff (honce .discoveryVersion)).mpr h.version
    · exact (head?_valuesOf_eq_some_iff (honce .protocolMin)).mpr h.min
    · exact (head?_valuesOf_eq_some_iff (honce .protocolMax)).mpr h.max
    · refine Option.ext fun hint => ?_
      rw [h.name]
      exact (head?_bind_parseOptionalName (honce .name)).symm
    · refine Option.ext fun hint => ?_
      rw [h.platform]
      exact (head?_bind_parse (honce .platform)).symm

theorem valuesFor_perm {entries entries' : List DiscoveryTxtEntry} (h : entries.Perm entries')
    (key : Text) : (valuesFor key entries).Perm (valuesFor key entries') :=
  (h.filter _).map _

/-- The order of the entries makes no difference to what is read. -/
theorem fromTxtEntries_perm {entries entries' : List DiscoveryTxtEntry} (h : entries.Perm entries')
    {metadata : DiscoveryMetadata} (hread : fromTxtEntries entries = .ok metadata) :
    fromTxtEntries entries' = .ok metadata := by
  have hmeans := fromTxtEntries_eq_ok_iff.mp hread
  have hsize : totalSize entries = totalSize entries' :=
    (h.map DiscoveryTxtEntry.encodedSize).sum_eq
  have hone : ∀ {key : Text} {value : Bytes},
      valuesFor key entries = [value] ↔ valuesFor key entries' = [value] := by
    intro key value
    have hperm := valuesFor_perm h key
    constructor
    · intro heq
      rw [heq] at hperm
      exact hperm.symm.eq_singleton
    · intro heq
      rw [heq] at hperm
      exact hperm.eq_singleton
  refine fromTxtEntries_eq_ok_iff.mpr ⟨hsize ▸ hmeans.size, ?_, hone.mp hmeans.version,
    hone.mp hmeans.min, hone.mp hmeans.max, ?_, ?_⟩
  · intro k
    rw [← (valuesFor_perm h k.text).length_eq]
    exact hmeans.once k
  · intro hint
    rw [hmeans.name]
    constructor
    · intro hname
      obtain ⟨text, hvalue, hnew⟩ := hname
      exact ⟨text, hone.mp hvalue, hnew⟩
    · intro hname
      obtain ⟨text, hvalue, hnew⟩ := hname
      exact ⟨text, hone.mpr hvalue, hnew⟩
  · intro hint
    rw [hmeans.platform]
    exact hone

/-- Unknown keys count toward the size of the record and toward nothing else. -/
theorem fromTxtEntries_filter (entries : List DiscoveryTxtEntry) :
    fromTxtEntries entries =
      if totalSize entries > maxDiscoveryTxtBytes then
        .error (.totalMetadataTooLarge (totalSize entries) maxDiscoveryTxtBytes)
      else fromTxtEntries (entries.filter fun entry => (knownKey entry.key).isSome) := by
  have hle : totalSize (entries.filter fun entry => (knownKey entry.key).isSome) ≤
      totalSize entries :=
    (List.filter_sublist.map DiscoveryTxtEntry.encodedSize).sum_le_sum (fun _ _ => Nat.zero_le _)
  rw [fromTxtEntries_eq, foldlM_readEntry_filter]
  split
  · rfl
  · rw [fromTxtEntries_eq, if_neg (by omega)]

/-- For every list of entries: the reader accepts it exactly when it fits, holds each known
key at most once, and has the schema version and an ordered range in canonical decimal. It
reads that range, the name if it is a valid hint, and the platform if it is a known one. -/
theorem fromTxtEntries_accepts (entries : List DiscoveryTxtEntry) :
    ((∃ metadata, fromTxtEntries entries = .ok metadata) ↔
      totalSize entries ≤ maxDiscoveryTxtBytes ∧
      (∀ k : KnownKey, (valuesFor k.text entries).length ≤ 1) ∧
      ∃ min max : UInt16,
        valuesFor keyDiscoveryVersion entries = [utf8 (decimal discoverySchemaVersion.toNat)] ∧
        valuesFor keyProtocolMin entries = [utf8 (decimal min.toNat)] ∧
        valuesFor keyProtocolMax entries = [utf8 (decimal max.toNat)] ∧ min ≤ max) ∧
    (∀ metadata, fromTxtEntries entries = .ok metadata →
      valuesFor keyProtocolMin entries = [utf8 (decimal metadata.protocols.min.toNat)] ∧
      valuesFor keyProtocolMax entries = [utf8 (decimal metadata.protocols.max.toNat)] ∧
      (∀ hint, metadata.name = some hint ↔
        ∃ text, valuesFor keyName entries = [utf8 text] ∧ DiscoveryNameHint.new text = .ok hint ∧
          hint.asStr = text) ∧
      (∀ hint, metadata.platform = some hint ↔
        valuesFor keyPlatform entries = [utf8 hint.asStr])) ∧
    fromTxtEntries entries =
      (if totalSize entries > maxDiscoveryTxtBytes then
        .error (.totalMetadataTooLarge (totalSize entries) maxDiscoveryTxtBytes)
      else fromTxtEntries (entries.filter fun entry => (knownKey entry.key).isSome)) := by
  refine ⟨⟨?_, ?_⟩, ?_, fromTxtEntries_filter entries⟩
  · intro h
    obtain ⟨metadata, hread⟩ := h
    have hmeans := fromTxtEntries_eq_ok_iff.mp hread
    exact ⟨hmeans.size, hmeans.once, metadata.protocols.min, metadata.protocols.max, hmeans.version,
      hmeans.min, hmeans.max, metadata.protocols.ordered⟩
  · intro h
    obtain ⟨hsize, honce, min, max, hversion, hmin, hmax, hordered⟩ := h
    have hlen : ∀ k, (valuesOf k entries).length ≤ 1 := by
      intro k
      rw [← valuesFor_text]
      exact honce k
    let metadata : DiscoveryMetadata := {
      protocols := ⟨min, max, hordered⟩
      name := (valuesOf .name entries).head?.bind parseOptionalName
      platform := (valuesOf .platform entries).head?.bind DiscoveryPlatformHint.parse }
    refine ⟨metadata, fromTxtEntries_eq_ok_iff.mpr ?_⟩
    exact ⟨hsize, honce, hversion, hmin, hmax,
      fun hint => head?_bind_parseOptionalName (hlen .name),
      fun hint => head?_bind_parse (hlen .platform)⟩
  · intro metadata hread
    have hmeans := fromTxtEntries_eq_ok_iff.mp hread
    refine ⟨hmeans.min, hmeans.max, ?_, hmeans.platform⟩
    intro hint
    rw [hmeans.name]
    constructor
    · intro h
      obtain ⟨text, hvalue, hnew⟩ := h
      exact ⟨text, hvalue, hnew, DiscoveryNameHint.asStr_of_new hnew⟩
    · intro h
      obtain ⟨text, hvalue, hnew, -⟩ := h
      exact ⟨text, hvalue, hnew⟩

end DiscoveryMetadata

/-! ## The name of a device as a hint -/

namespace DiscoveryNameHint

/-- The loop of `from_device_name`, `none` being the underflow of its counter. -/
def cutLoop (value : Text) : Nat → Option Nat
  | 0 => if isCharBoundary value 0 then some 0 else none
  | stop + 1 => if isCharBoundary value (stop + 1) then some (stop + 1) else cutLoop value stop

/-- The source of `from_device_name` step by step, `none` being a panic. -/
def fromDeviceNameSlicing (name : DeviceName) : Option Text := do
  let stop ← cutLoop name.asStr (Min.min (byteLen name.asStr) maxDiscoveryNameBytes)
  sliceTo name.asStr stop

/-- Every text has a boundary at zero, where the loop ends at the latest. -/
theorem cutLoop_eq (value : Text) (stop : Nat) :
    cutLoop value stop = some (floorCharBoundary value stop) := by
  induction stop with
  | zero => rw [cutLoop, if_pos (isCharBoundary_zero value), floorCharBoundary]
  | succ stop ih =>
      unfold cutLoop floorCharBoundary
      split
      · rfl
      · exact ih

theorem fromDeviceNameSlicing_eq (name : DeviceName) :
    fromDeviceNameSlicing name = some (fromDeviceName name).asStr := by
  have hb := isCharBoundary_floor name.asStr (Min.min (byteLen name.asStr) maxDiscoveryNameBytes)
  rw [isCharBoundary, Option.isSome_iff_exists] at hb
  obtain ⟨⟨before, after⟩, hsplit⟩ := hb
  have hcut : (fromDeviceName name).asStr = before := by
    show truncateBytes name.asStr maxDiscoveryNameBytes = before
    unfold truncateBytes
    rw [hsplit]
  rw [hcut]
  simp only [fromDeviceNameSlicing, cutLoop_eq, sliceTo, hsplit, bind, Option.bind, Option.map_some]

/-- For every device name: the source neither underflows nor slices inside a character, and
its hint is the longest prefix of whole characters within 96 bytes. `new` accepts that prefix
as it is, and so does a remote reader that accepts the record around it. -/
theorem fromDeviceName_longest_prefix (name : DeviceName) :
    fromDeviceNameSlicing name = some (fromDeviceName name).asStr ∧
    (fromDeviceName name).asStr <+: name.asStr ∧
    byteLen (fromDeviceName name).asStr ≤ maxDiscoveryNameBytes ∧
    (∀ cut, cut <+: name.asStr → byteLen cut ≤ maxDiscoveryNameBytes →
      cut <+: (fromDeviceName name).asStr) ∧
    (byteLen name.asStr ≤ maxDiscoveryNameBytes → (fromDeviceName name).asStr = name.asStr) ∧
    new (fromDeviceName name).asStr = .ok (fromDeviceName name) ∧
    (∀ entries metadata, DiscoveryMetadata.fromTxtEntries entries = .ok metadata →
      valuesFor keyName entries = [utf8 (fromDeviceName name).asStr] →
      metadata.name = some (fromDeviceName name)) := by
  obtain ⟨rest, hsplit, hlen, hmax⟩ := truncateBytes_spec name.asStr maxDiscoveryNameBytes
  have hprefix : (fromDeviceName name).asStr <+: name.asStr := ⟨rest, hsplit.symm⟩
  have hlongest : ∀ cut, cut <+: name.asStr → byteLen cut ≤ maxDiscoveryNameBytes →
      cut <+: (fromDeviceName name).asStr := by
    intro cut hcut hfits
    refine prefix_of_byteLen_le hcut hprefix ?_
    obtain ⟨after, hafter⟩ := hcut
    exact hmax cut after hafter.symm hfits
  refine ⟨fromDeviceNameSlicing_eq name, hprefix, hlen, hlongest, ?_, new_asStr _, ?_⟩
  · intro hfits
    exact hprefix.eq_of_length_le (hlongest name.asStr List.prefix_rfl hfits).length_le
  · intro entries metadata hread hvalue
    have hmeans := DiscoveryMetadata.fromTxtEntries_eq_ok_iff.mp hread
    exact (hmeans.name _).mpr ⟨_, hvalue, new_asStr _⟩

end DiscoveryNameHint

end LocalTransfer
