import LocalTransfer.Lib.Hex
import LocalTransfer.Persistence
import LocalTransfer.TrustedPeers.Record

/-!
# The trusted-peer file format

The line format of `trusted_peers.rs`: one header line, then one line per record
with its scheme, its material in hex and its label in hex. The reader accepts
exactly what the writer produces, in any line order, as long as there are at most
128 records and every label takes at most 128 bytes (`decode_eq_ok_iff`): the
label bound of 256 bytes is compared with the number of hex digits.
-/

namespace LocalTransfer

open Lib

/-! ## Errors -/

inductive MalformedStoreReason
  | notUtf8
  | header
  | recordSyntax
  | identityEncoding
  | identityBounds
  | labelEncoding
  | labelValue
  deriving DecidableEq, Repr

/-- Why the store cannot be used. -/
inductive TrustedPeerStoreError
  | io (operation : String) (path : FsPath) (source : IoError)
  | notRegularFile (path : FsPath)
  | symlinkNotAllowed (path : FsPath)
  | storeBusy
  | storeTooLarge (size maximum : Nat)
  | recordTooLarge (size maximum : Nat)
  | unsupportedVersion (version : UInt16)
  | capacityExceeded (count maximum : Nat)
  | duplicateIdentity
  | malformedStore (reason : MalformedStoreReason)
  deriving DecidableEq, Repr

def malformed (reason : MalformedStoreReason) : TrustedPeerStoreError := .malformedStore reason

/-- `Option::ok_or_else`. -/
def okOr {ε α : Type} (e : ε) : Option α → Except ε α
  | some a => .ok a
  | none => .error e

@[simp] theorem okOr_eq_ok_iff {ε α : Type} {e : ε} {o : Option α} {a : α} :
    okOr e o = .ok a ↔ o = some a := by
  cases o <;> simp [okOr]

namespace TrustedPeers

def storeFormatVersion : UInt16 := 1
def storeHeader : Text := "local-transfer-trusted-peers".toList

/-! ## Writing -/

def encodeLabel : Option TrustedPeerLabel → Text
  | none => ['-']
  | some label => pushHex (utf8 label.asStr)

/-- The line of one record, without its line feed. -/
def recordLine (record : TrustedPeerRecord) : Text :=
  decimal record.identity.scheme.toNat ++ ' ' :: pushHex record.identity.material ++
    ' ' :: encodeLabel record.label

def headerLine : Text := storeHeader ++ " v".toList ++ decimal storeFormatVersion.toNat

def encodeText (records : List TrustedPeerRecord) : Text :=
  headerLine ++ '\n' :: records.flatMap fun record => recordLine record ++ ['\n']

/-- `encode`. -/
def encode (records : List TrustedPeerRecord) : Bytes := utf8 (encodeText records)

/-! ## Reading -/

def parseHeader (line : Text) : Except TrustedPeerStoreError Unit := do
  let versionText ← okOr (malformed .header)
    ((line.dropPrefix? storeHeader).bind fun rest => rest.dropPrefix? " v".toList)
  let version ← okOr (malformed .header) (parseCanonicalU16 versionText)
  if version ≠ storeFormatVersion then .error (.unsupportedVersion version) else .ok ()

def parseIdentity (scheme : UInt16) (materialHex : Text) :
    Except TrustedPeerStoreError PeerKeyIdentity :=
  if byteLen materialHex > maxPeerIdentityBytes * 2 then .error (malformed .identityBounds)
  else do
    let material ← okOr (malformed .identityEncoding) (decodeHex materialHex)
    (PeerKeyIdentity.new scheme material).mapError fun _ => malformed .identityBounds

def parseLabel (labelHex : Text) : Except TrustedPeerStoreError (Option TrustedPeerLabel) :=
  if labelHex = ['-'] then .ok none
  else if byteLen labelHex > maxTrustedPeerLabelBytes then .error (malformed .labelValue)
  else do
    let labelBytes ← okOr (malformed .labelEncoding) (decodeHex labelHex)
    let labelText ← okOr (malformed .labelEncoding) (fromUtf8 labelBytes)
    let label ← (TrustedPeerLabel.new labelText).mapError fun _ => malformed .labelValue
    .ok (some label)

def parseRecord (line : Text) : Except TrustedPeerStoreError TrustedPeerRecord :=
  if byteLen line > maxRecordLineBytes then
    .error (.recordTooLarge (byteLen line) maxRecordLineBytes)
  else
    match line.splitOn ' ' with
    | [schemeText, materialHex, labelHex] => do
        let scheme ← okOr (malformed .recordSyntax) (parseCanonicalU16 schemeText)
        let identity ← parseIdentity scheme materialHex
        let label ← parseLabel labelHex
        .ok ⟨identity, label⟩
    | _ => .error (malformed .recordSyntax)

/-- Sorts the parsed records and rejects an identity bound twice. -/
def collect (records : List TrustedPeerRecord) : Except TrustedPeerStoreError TrustedPeers :=
  if hdup : hasAdjacentDuplicate TrustedPeerRecord.identity
      (sortByKey TrustedPeerRecord.identity records) then .error .duplicateIdentity
  else .ok ⟨sortByKey TrustedPeerRecord.identity records,
    (strictlyOrdered_iff_of_sorted (sortByKey_pairwise records)).mpr (by simpa using hdup)⟩

/-- The body of a store file: its text up to the last line feed. -/
def stripLineFeed (text : Text) : Option Text :=
  if text.getLast? = some '\n' then some text.dropLast else none

def decode (bytes : Bytes) : Except TrustedPeerStoreError TrustedPeers :=
  if bytes.length > maxTrustedPeersStoreBytes then
    .error (.storeTooLarge bytes.length maxTrustedPeersStoreBytes)
  else do
    let text ← okOr (malformed .notUtf8) (fromUtf8 bytes)
    let body ← okOr (malformed .header) (stripLineFeed text)
    match body.splitOn '\n' with
    | [] => .error (malformed .header)
    | header :: recordLines => do
        parseHeader header
        if recordLines.length > maxTrustedPeers then
          .error (.capacityExceeded recordLines.length maxTrustedPeers)
        else do
          let records ← recordLines.mapM parseRecord
          collect records

/-! ## One record -/

/-- The labels the reader accepts: at most 128 bytes, although the bound is 256. -/
def LabelFits : Option TrustedPeerLabel → Prop
  | none => True
  | some label => 2 * byteLen label.asStr ≤ maxTrustedPeerLabelBytes

instance (label : Option TrustedPeerLabel) : Decidable (LabelFits label) := by
  cases label <;> unfold LabelFits <;> infer_instance

theorem bind_eq_ok_iff {ε α β : Type} {x : Except ε α} {f : α → Except ε β} {b : β} :
    x >>= f = .ok b ↔ ∃ a, x = .ok a ∧ f a = .ok b := by
  cases x with
  | error e => simp [bind, Except.bind]
  | ok a => simp [bind, Except.bind]

theorem mapError_eq_ok_iff {ε ε' α : Type} {x : Except ε α} {f : ε → ε'} {a : α} :
    x.mapError f = .ok a ↔ x = .ok a := by
  cases x <;> simp [Except.mapError]

theorem parseIdentity_eq_ok_iff {scheme : UInt16} {materialHex : Text} {id : PeerKeyIdentity} :
    parseIdentity scheme materialHex = .ok id ↔
      id.scheme = scheme ∧ materialHex = pushHex id.material := by
  unfold parseIdentity
  constructor
  · intro h
    split at h
    · cases h
    · simp only [bind_eq_ok_iff, okOr_eq_ok_iff, decodeHex_eq_some_iff, mapError_eq_ok_iff,
        PeerKeyIdentity.new_eq_ok_iff] at h
      obtain ⟨material, ⟨-, hhex⟩, hscheme, hmaterial⟩ := h
      exact ⟨hscheme, by rw [hhex, hmaterial]⟩
  · rintro ⟨hscheme, rfl⟩
    have hbound := id.bounded
    rw [if_neg (by rw [byteLen_pushHex]; omega)]
    simp only [bind_eq_ok_iff, okOr_eq_ok_iff, decodeHex_eq_some_iff, mapError_eq_ok_iff,
      PeerKeyIdentity.new_eq_ok_iff]
    exact ⟨id.material, ⟨id.nonempty, rfl⟩, hscheme, rfl⟩

theorem pushHex_ne_dash (bytes : Bytes) : pushHex bytes ≠ ['-'] := by
  intro h
  have := length_pushHex bytes
  rw [h] at this
  simp only [List.length_cons, List.length_nil] at this
  omega

theorem utf8_label_ne_nil (label : TrustedPeerLabel) : utf8 label.asStr ≠ [] := by
  intro h
  exact label.valid.nonempty (utf8_injective h)

/-- The reader accepts the label field of the writer exactly when the label fits. -/
theorem parseLabel_encodeLabel (label : Option TrustedPeerLabel) :
    parseLabel (encodeLabel label) =
      if LabelFits label then .ok label else .error (malformed .labelValue) := by
  cases label with
  | none => rfl
  | some label =>
      have hdash : encodeLabel (some label) ≠ ['-'] := pushHex_ne_dash _
      have hlen : byteLen (encodeLabel (some label)) = 2 * byteLen label.asStr := by
        simp [encodeLabel]
      unfold parseLabel
      rw [if_neg hdash, hlen]
      by_cases hfits : 2 * byteLen label.asStr ≤ maxTrustedPeerLabelBytes
      · have hhex : decodeHex (encodeLabel (some label)) = some (utf8 label.asStr) :=
          decodeHex_eq_some_iff.mpr ⟨utf8_label_ne_nil label, rfl⟩
        rw [if_neg (Nat.not_lt.mpr hfits), if_pos (show LabelFits (some label) from hfits), hhex]
        simp [okOr, bind, Except.bind, Except.mapError]
      · rw [if_pos (Nat.lt_of_not_le hfits),
          if_neg (show ¬ LabelFits (some label) from hfits)]

/-- Whatever label is read fits. -/
theorem labelFits_of_parseLabel {labelHex : Text} {label : Option TrustedPeerLabel}
    (h : parseLabel labelHex = .ok label) : LabelFits label := by
  unfold parseLabel at h
  split at h
  · cases h
    trivial
  · split at h
    · cases h
    · rename_i hbound
      simp only [bind_eq_ok_iff, okOr_eq_ok_iff, decodeHex_eq_some_iff, mapError_eq_ok_iff,
        fromUtf8_eq_some_iff, TrustedPeerLabel.new_eq_ok_iff, Except.ok.injEq] at h
      obtain ⟨bytes, ⟨-, rfl⟩, text, rfl, label, ⟨-, htext⟩, rfl⟩ := h
      have hle : byteLen label.asStr ≤ byteLen text := htext ▸ byteLen_trim_le text
      rw [byteLen_pushHex, length_utf8] at hbound
      show 2 * byteLen label.asStr ≤ _
      omega

theorem separator_not_mem_decimal (n : Nat) {c : Char} (hc : c.isDigit = false) :
    c ∉ decimal n := by
  intro h
  rw [isDigit_of_mem_decimal h] at hc
  cases hc

theorem separator_not_mem_pushHex (bytes : Bytes) {c : Char} (hc : c ∉ hexDigits) :
    c ∉ pushHex bytes :=
  fun h => hc (mem_hexDigits_of_mem_pushHex h)

theorem separator_not_mem_encodeLabel (label : Option TrustedPeerLabel) {c : Char}
    (hc : c ∉ hexDigits) (hdash : c ≠ '-') : c ∉ encodeLabel label := by
  cases label with
  | none => simpa [encodeLabel] using hdash
  | some label => exact separator_not_mem_pushHex _ hc

theorem splitOn_recordLine (record : TrustedPeerRecord) :
    (recordLine record).splitOn ' ' = [decimal record.identity.scheme.toNat,
      pushHex record.identity.material, encodeLabel record.label] := by
  unfold recordLine
  rw [List.append_assoc, List.cons_append,
    List.splitOn_append_cons_self_of_not_mem (separator_not_mem_decimal _ (by decide)),
    List.splitOn_append_cons_self_of_not_mem (separator_not_mem_pushHex _ (by decide)),
    List.splitOn_eq_singleton (separator_not_mem_encodeLabel _ (by decide) (by decide))]

theorem lineFeed_not_mem_recordLine (record : TrustedPeerRecord) : '\n' ∉ recordLine record := by
  unfold recordLine
  simp only [List.mem_append, List.mem_cons, not_or]
  exact ⟨⟨separator_not_mem_decimal _ (by decide), by decide,
    separator_not_mem_pushHex _ (by decide)⟩, by decide,
    separator_not_mem_encodeLabel _ (by decide) (by decide)⟩

theorem byteLen_encodeLabel_le {label : Option TrustedPeerLabel} (h : LabelFits label) :
    byteLen (encodeLabel label) ≤ maxTrustedPeerLabelBytes := by
  cases label with
  | none => decide
  | some label =>
      rw [encodeLabel, byteLen_pushHex, length_utf8]
      exact h

/-- A record line takes at most 391 bytes when its label fits. -/
theorem byteLen_recordLine_le {record : TrustedPeerRecord} (h : LabelFits record.label) :
    byteLen (recordLine record) ≤ 391 := by
  have hscheme : byteLen (decimal record.identity.scheme.toNat) ≤ 5 := by
    rw [byteLen_of_isAscii (isAscii_decimal _)]
    exact length_decimal_le _
  have hmaterial := record.identity.bounded
  have hlabel := byteLen_encodeLabel_le h
  have hspace : Char.utf8Size ' ' = 1 := by decide
  simp only [recordLine, byteLen_append, byteLen_cons, byteLen_pushHex, hspace]
  simp only [maxPeerIdentityBytes, maxTrustedPeerLabelBytes] at hmaterial hlabel
  omega

/-- A written record line is read back as its record when the label fits, and
rejected otherwise. -/
theorem parseRecord_recordLine_eq_ok_iff {record record' : TrustedPeerRecord} :
    parseRecord (recordLine record) = .ok record' ↔ record' = record ∧ LabelFits record.label := by
  have hidentity : parseIdentity record.identity.scheme (pushHex record.identity.material) =
      .ok record.identity := parseIdentity_eq_ok_iff.mpr ⟨rfl, rfl⟩
  have hscheme : okOr (malformed .recordSyntax)
      (parseCanonicalU16 (decimal record.identity.scheme.toNat)) = .ok record.identity.scheme :=
    okOr_eq_ok_iff.mpr (parseCanonicalU16_eq_some_iff.mpr rfl)
  unfold parseRecord
  rw [splitOn_recordLine]
  by_cases hfits : LabelFits record.label
  · have hline := byteLen_recordLine_le hfits
    have hmax : maxRecordLineBytes = 512 := rfl
    rw [if_neg (by omega)]
    simp only [bind_eq_ok_iff, hscheme, Except.ok.injEq, exists_eq_left', hidentity,
      parseLabel_encodeLabel, if_pos hfits]
    exact ⟨fun h => ⟨h.symm, hfits⟩, fun h => h.1.symm⟩
  · split
    · simp [hfits]
    · simp [bind_eq_ok_iff, hscheme, parseLabel_encodeLabel, hfits]

/-- Whatever record is read has a label that fits. -/
theorem labelFits_of_parseRecord {line : Text} {record : TrustedPeerRecord}
    (h : parseRecord line = .ok record) : LabelFits record.label := by
  unfold parseRecord at h
  split at h
  · cases h
  · split at h
    · simp only [bind_eq_ok_iff, Except.ok.injEq] at h
      obtain ⟨scheme, -, identity, -, label, hlabel, rfl⟩ := h
      exact labelFits_of_parseLabel hlabel
    · cases h

/-! ## Whole files -/

theorem parseHeader_headerLine : parseHeader headerLine = .ok () := by
  have hheader : (headerLine.dropPrefix? storeHeader).bind
      (fun rest => rest.dropPrefix? " v".toList) = some (decimal storeFormatVersion.toNat) := by
    rw [headerLine, List.append_assoc, List.dropPrefix?_append_of_beq _ (beq_self_eq_true _),
      Option.bind_some, List.dropPrefix?_append_of_beq _ (beq_self_eq_true _)]
  have hversion : parseCanonicalU16 (decimal storeFormatVersion.toNat) = some storeFormatVersion :=
    parseCanonicalU16_eq_some_iff.mpr rfl
  unfold parseHeader
  rw [hheader]
  simp [okOr, bind, Except.bind, hversion]

/-- The text of a file is its lines, each ended by a line feed. -/
theorem encodeText_eq (records : List TrustedPeerRecord) :
    encodeText records =
      ['\n'].intercalate (headerLine :: records.map recordLine) ++ ['\n'] := by
  have hlines : ∀ (first : Text) (rest : List TrustedPeerRecord),
      first ++ '\n' :: rest.flatMap (fun record => recordLine record ++ ['\n']) =
        ['\n'].intercalate (first :: rest.map recordLine) ++ ['\n'] := by
    intro first rest
    induction rest generalizing first with
    | nil => simp
    | cons record rest ih =>
        rw [List.map_cons, List.intercalate_cons_cons, List.append_assoc, ← ih]
        simp
  exact hlines headerLine records

theorem stripLineFeed_append (body : Text) : stripLineFeed (body ++ ['\n']) = some body := by
  simp [stripLineFeed]

theorem splitOn_body (records : List TrustedPeerRecord) :
    (['\n'].intercalate (headerLine :: records.map recordLine)).splitOn '\n' =
      headerLine :: records.map recordLine := by
  refine List.splitOn_intercalate '\n' ?_ (by simp)
  intro line hline
  rcases List.mem_cons.mp hline with rfl | hmem
  · decide
  · obtain ⟨record, -, rfl⟩ := List.mem_map.mp hmem
    exact lineFeed_not_mem_recordLine record

/-- What a file can hold: at most 128 records, with labels that fit. -/
structure Storable (records : List TrustedPeerRecord) : Prop where
  count : records.length ≤ maxTrustedPeers
  labels : ∀ record ∈ records, LabelFits record.label

/-- Some of the records of a file are records of a file. -/
theorem Storable.of_subset {records kept : List TrustedPeerRecord} (h : Storable records)
    (hnodup : kept.Nodup) (hsub : kept ⊆ records) : Storable kept where
  count := (List.subperm_of_subset hnodup hsub).length_le.trans h.count
  labels record hrecord := h.labels record (hsub hrecord)

/-- The file of records that can be stored stays within the size limit. -/
theorem length_encode_le {records : List TrustedPeerRecord} (h : Storable records) :
    (encode records).length ≤ maxTrustedPeersStoreBytes := by
  have hheader : byteLen headerLine = 31 := by decide
  have hfeed : Char.utf8Size '\n' = 1 := by decide
  have hlines : ∀ l : List TrustedPeerRecord, (∀ record ∈ l, LabelFits record.label) →
      byteLen (l.flatMap fun record => recordLine record ++ ['\n']) ≤ 392 * l.length := by
    intro l hl
    induction l with
    | nil => simp
    | cons record l ih =>
        have hrecord := byteLen_recordLine_le (hl record List.mem_cons_self)
        have hrest := ih fun r hr => hl r (List.mem_cons_of_mem _ hr)
        simp only [List.flatMap_cons, byteLen_append, byteLen_cons, byteLen_nil, hfeed,
          List.length_cons]
        omega
  have hbody := hlines records h.labels
  have hcount := h.count
  simp only [encode, encodeText, length_utf8, byteLen_append, byteLen_cons, hheader, hfeed]
  simp only [maxTrustedPeers, maxTrustedPeersStoreBytes] at hcount ⊢
  omega

theorem mapM_parseRecord_eq_ok_iff {records records' : List TrustedPeerRecord} :
    (records.map recordLine).mapM parseRecord = .ok records' ↔
      records' = records ∧ ∀ record ∈ records, LabelFits record.label := by
  induction records generalizing records' with
  | nil => simp [pure, Except.pure, eq_comm]
  | cons record records ih =>
      simp only [List.map_cons, List.mapM_cons, bind_eq_ok_iff, parseRecord_recordLine_eq_ok_iff,
        ih, pure, Except.pure, Except.ok.injEq]
      constructor
      · rintro ⟨r, ⟨rfl, hfits⟩, rs, ⟨rfl, hrest⟩, rfl⟩
        exact ⟨rfl, by simpa using ⟨hfits, hrest⟩⟩
      · rintro ⟨rfl, hall⟩
        exact ⟨record, ⟨rfl, hall record List.mem_cons_self⟩, records,
          ⟨rfl, fun r hr => hall r (List.mem_cons_of_mem _ hr)⟩, rfl⟩

theorem collect_records (S : TrustedPeers) : collect S.records = .ok S := by
  have hsort := S.ordered.sortByKey_eq
  have hdup : hasAdjacentDuplicate TrustedPeerRecord.identity
      (sortByKey TrustedPeerRecord.identity S.records) = false :=
    (strictlyOrdered_iff_of_sorted (sortByKey_pairwise S.records)).mp (hsort.symm ▸ S.ordered)
  unfold collect
  rw [dif_neg (by simp [hdup])]
  exact congrArg _ (ext hsort)

/-- **A written file is read back as the set it was written from, or rejected.** It is
read exactly when it holds at most 128 records whose labels all fit. -/
theorem decode_encode_eq_ok_iff {S S' : TrustedPeers} :
    decode (encode S.records) = .ok S' ↔ S' = S ∧ Storable S.records := by
  have hread : ∀ h : (encode S.records).length ≤ maxTrustedPeersStoreBytes,
      decode (encode S.records) =
        if S.records.length > maxTrustedPeers then
          .error (.capacityExceeded S.records.length maxTrustedPeers)
        else (S.records.map recordLine).mapM parseRecord >>= collect := by
    intro h
    unfold decode
    rw [if_neg (Nat.not_lt.mpr h), encode, fromUtf8_utf8, encodeText_eq]
    simp only [okOr, bind, Except.bind, stripLineFeed_append, splitOn_body,
      parseHeader_headerLine, List.length_map]
  constructor
  · intro h
    have hsize : (encode S.records).length ≤ maxTrustedPeersStoreBytes := by
      by_contra hlarge
      unfold decode at h
      rw [if_pos (Nat.lt_of_not_le hlarge)] at h
      cases h
    rw [hread hsize] at h
    split at h
    · cases h
    · rename_i hcount
      obtain ⟨records, hrecords, hcollect⟩ := bind_eq_ok_iff.mp h
      obtain ⟨rfl, hlabels⟩ := mapM_parseRecord_eq_ok_iff.mp hrecords
      rw [collect_records, Except.ok.injEq] at hcollect
      exact ⟨hcollect.symm, Nat.le_of_not_lt hcount, hlabels⟩
  · rintro ⟨rfl, hstorable⟩
    rw [hread (length_encode_le hstorable), if_neg (Nat.not_lt.mpr hstorable.count),
      mapM_parseRecord_eq_ok_iff.mpr ⟨rfl, hstorable.labels⟩]
    exact collect_records S'

/-- Every set that is read can be stored again. -/
theorem storable_of_decode {bytes : Bytes} {S : TrustedPeers} (h : decode bytes = .ok S) :
    Storable S.records := by
  have hmapM : ∀ (lines : List Text) (records : List TrustedPeerRecord),
      lines.mapM parseRecord = .ok records →
        records.length = lines.length ∧ ∀ record ∈ records, LabelFits record.label := by
    intro lines
    induction lines with
    | nil => rintro records h; cases h; simp
    | cons line lines ih =>
        intro records h
        simp only [List.mapM_cons, bind_eq_ok_iff, pure, Except.pure, Except.ok.injEq] at h
        obtain ⟨record, hrecord, rest, hrest, rfl⟩ := h
        obtain ⟨hlen, hfits⟩ := ih rest hrest
        refine ⟨by simp [hlen], ?_⟩
        simpa using ⟨labelFits_of_parseRecord hrecord, hfits⟩
  unfold decode at h
  split at h
  · cases h
  · simp only [bind_eq_ok_iff] at h
    obtain ⟨text, -, body, -, h⟩ := h
    split at h
    · cases h
    · obtain ⟨-, -, h⟩ := bind_eq_ok_iff.mp h
      split at h
      · cases h
      · rename_i hcount
        obtain ⟨records, hrecords, hcollect⟩ := bind_eq_ok_iff.mp h
        obtain ⟨hlen, hfits⟩ := hmapM _ _ hrecords
        unfold collect at hcollect
        split at hcollect
        · cases hcollect
        · cases hcollect
          refine ⟨?_, ?_⟩
          · simp only [length_sortByKey]
            omega
          · exact fun record hr => hfits record (mem_sortByKey.mp hr)

end TrustedPeers

end LocalTransfer
