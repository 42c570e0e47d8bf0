import LocalTransfer.TrustedPeers.Codec

/-!
# The language of the store file

The grammar of store files, said without the parser: `LabelField`, `RecordLine` and
`StoreFile` describe the texts of a label, of a line and of a whole file, and what they
denote. The parser accepts exactly this language, and returns its records in order
(`decode_accepts_exactly`).
-/

namespace LocalTransfer

open Lib

namespace TrustedPeers

/-! ## The grammar -/

/-- The third field of a line: a dash, or the hex of a text that makes a label. -/
inductive LabelField : Text → Option TrustedPeerLabel → Prop
  | absent : LabelField ['-'] none
  | present {hex text label} : IsHex hex → 2 ≤ hex.length → hex.length ≤ 256 →
      utf8 text = bytesOfHex hex → TrustedPeerLabel.new text = .ok label →
      LabelField hex (some label)

/-- A line of three fields separated by single spaces, and its record. -/
inductive RecordLine : Text → TrustedPeerRecord → Prop
  | mk {identity label materialHex labelHex} : IsHex materialHex → 2 ≤ materialHex.length →
      materialHex.length ≤ 128 → identity.material = bytesOfHex materialHex →
      LabelField labelHex label →
      RecordLine (decimal identity.scheme.toNat ++ ' ' :: (materialHex ++ ' ' :: labelHex))
        ⟨identity, label⟩

/-- A file of a header and at most 128 record lines, each ended by a line feed, with
pairwise distinct identities. -/
structure StoreFile (bytes : Bytes) (lines : List Text) (records : List TrustedPeerRecord) :
    Prop where
  size : bytes.length ≤ 65536
  text : bytes = utf8 ("local-transfer-trusted-peers v1".toList ++
    '\n' :: lines.flatMap fun line => line ++ ['\n'])
  count : lines.length ≤ 128
  lines : List.Forall₂ RecordLine lines records
  distinct : (records.map TrustedPeerRecord.identity).Nodup

/-! ## Fields -/

theorem parseLabel_eq_ok_iff {labelHex : Text} {label : Option TrustedPeerLabel} :
    parseLabel labelHex = .ok label ↔ LabelField labelHex label := by
  unfold parseLabel
  constructor
  · intro h
    split at h
    · next hdash =>
        cases h
        rw [hdash]
        exact .absent
    split at h
    · cases h
    · next hbound =>
        simp only [bind_eq_ok_iff, okOr_eq_ok_iff, mapError_eq_ok_iff, fromUtf8_eq_some_iff,
          Except.ok.injEq] at h
        obtain ⟨bytes, hhex, text, htext, label, hlabel, rfl⟩ := h
        obtain ⟨hne, hishex, rfl⟩ := decodeHex_eq_some_iff_isHex.mp hhex
        rw [byteLen_of_isAscii (isAscii_of_isHex hishex), maxTrustedPeerLabelBytes] at hbound
        have hpos := List.length_pos_iff.mpr hne
        have heven := hishex.even
        exact .present hishex (by omega) (by omega) htext hlabel
  · intro h
    cases h with
    | absent => rfl
    | @present _ text label hishex hleast hmost htext hlabel =>
        have hdash : labelHex ≠ ['-'] := by
          rintro rfl
          simp at hleast
        have hne : labelHex ≠ [] := by
          rintro rfl
          simp at hleast
        have hbound : ¬ byteLen labelHex > maxTrustedPeerLabelBytes := by
          rw [byteLen_of_isAscii (isAscii_of_isHex hishex)]
          exact Nat.not_lt.mpr hmost
        rw [if_neg hdash, if_neg hbound]
        simp only [bind_eq_ok_iff, okOr_eq_ok_iff, mapError_eq_ok_iff, fromUtf8_eq_some_iff]
        exact ⟨_, decodeHex_eq_some_iff_isHex.mpr ⟨hne, hishex, rfl⟩, text, htext, label, hlabel,
          rfl⟩

theorem space_not_mem_of_isHex {text : Text} (h : IsHex text) : ' ' ∉ text := by
  intro hspace
  exact absurd (h.digits ' ' hspace) (by decide)

theorem LabelField.length_le {labelHex : Text} {label : Option TrustedPeerLabel}
    (h : LabelField labelHex label) : labelHex.length ≤ 256 := by
  cases h with
  | absent => decide
  | present _ _ hmost _ _ => exact hmost

theorem LabelField.isAscii {labelHex : Text} {label : Option TrustedPeerLabel}
    (h : LabelField labelHex label) : IsAscii labelHex := by
  cases h with
  | absent => decide
  | present hishex _ _ _ _ => exact isAscii_of_isHex hishex

theorem LabelField.not_mem {labelHex : Text} {label : Option TrustedPeerLabel} {c : Char}
    (h : LabelField labelHex label) (hc : c ∉ hexDigits) (hdash : c ≠ '-') : c ∉ labelHex := by
  cases h with
  | absent => simpa using hdash
  | present hishex _ _ _ _ => exact fun hmem => hc (hishex.digits c hmem)

/-! ## Lines -/

theorem splitOn_line {first second third : Text} (hfirst : ' ' ∉ first) (hsecond : ' ' ∉ second)
    (hthird : ' ' ∉ third) :
    (first ++ ' ' :: (second ++ ' ' :: third)).splitOn ' ' = [first, second, third] := by
  rw [List.splitOn_append_cons_self_of_not_mem hfirst,
    List.splitOn_append_cons_self_of_not_mem hsecond, List.splitOn_eq_singleton hthird]

theorem eq_of_splitOn {line first second third : Text}
    (h : line.splitOn ' ' = [first, second, third]) :
    line = first ++ ' ' :: (second ++ ' ' :: third) := by
  have hjoin : [' '].intercalate (line.splitOn ' ') = line := List.intercalate_splitOn ' '
  rw [h] at hjoin
  simpa using hjoin.symm

/-- The parser of a line accepts exactly the record lines. -/
theorem parseRecord_eq_ok_iff {line : Text} {record : TrustedPeerRecord} :
    parseRecord line = .ok record ↔ RecordLine line record := by
  unfold parseRecord
  constructor
  · intro h
    split at h
    · cases h
    split at h
    · next schemeText materialHex labelHex hsplit =>
        simp only [bind_eq_ok_iff, okOr_eq_ok_iff, parseCanonicalU16_eq_some_iff,
          Except.ok.injEq] at h
        obtain ⟨scheme, rfl, identity, hidentity, label, hlabel, rfl⟩ := h
        rw [eq_of_splitOn hsplit]
        obtain ⟨rfl, rfl⟩ := parseIdentity_eq_ok_iff.mp hidentity
        have hhex := isHex_pushHex identity.material
        have hpos := List.length_pos_iff.mpr identity.nonempty
        have hbound := identity.bounded
        simp only [maxPeerIdentityBytes] at hbound
        refine .mk hhex ?_ ?_ ?_ (parseLabel_eq_ok_iff.mp hlabel)
        · rw [length_pushHex]
          omega
        · rw [length_pushHex]
          omega
        · rw [bytesOfHex_pushHex]
    · cases h
  · intro h
    cases h with
    | @mk identity label materialHex labelHex hhex hleast hmost hvalue hlabel =>
        -- none of the three fields holds a space
        have hspace := splitOn_line (separator_not_mem_decimal identity.scheme.toNat (by decide))
          (space_not_mem_of_isHex hhex) (hlabel.not_mem (by decide) (by decide))
        have hidentity : parseIdentity identity.scheme materialHex = .ok identity :=
          parseIdentity_eq_ok_iff.mpr ⟨rfl, by rw [hvalue, pushHex_bytesOfHex hhex]⟩
        -- and the line stays within the limit that is checked before it is split
        have hlen : ¬ byteLen (decimal identity.scheme.toNat ++
            ' ' :: (materialHex ++ ' ' :: labelHex)) > maxRecordLineBytes := by
          have hdecimal := length_decimal_le identity.scheme
          have hfield := hlabel.length_le
          have hone : Char.utf8Size ' ' = 1 := by decide
          simp only [byteLen_append, byteLen_cons, hone, byteLen_of_isAscii (isAscii_decimal _),
            byteLen_of_isAscii (isAscii_of_isHex hhex), byteLen_of_isAscii hlabel.isAscii,
            maxRecordLineBytes]
          omega
        rw [if_neg hlen, hspace]
        simp only [bind_eq_ok_iff, okOr_eq_ok_iff, parseCanonicalU16_eq_some_iff]
        exact ⟨identity.scheme, rfl, identity, hidentity, label,
          parseLabel_eq_ok_iff.mpr hlabel, rfl⟩

theorem RecordLine.lineFeed_not_mem {line : Text} {record : TrustedPeerRecord}
    (h : RecordLine line record) : '\n' ∉ line := by
  cases h with
  | mk hhex _ _ _ hlabel =>
      simp only [List.mem_append, List.mem_cons, not_or]
      exact ⟨separator_not_mem_decimal _ (by decide), by decide,
        fun hmem => absurd (hhex.digits _ hmem) (by decide), by decide,
        hlabel.not_mem (by decide) (by decide)⟩

theorem lineFeed_not_mem_lines {lines : List Text} {records : List TrustedPeerRecord}
    (h : List.Forall₂ RecordLine lines records) : ∀ line ∈ lines, '\n' ∉ line := by
  induction h with
  | nil => simp
  | cons hline _ ih => exact List.forall_mem_cons.mpr ⟨hline.lineFeed_not_mem, ih⟩

theorem mapM_parseRecord_iff_forall₂ {lines : List Text} {records : List TrustedPeerRecord} :
    lines.mapM parseRecord = .ok records ↔ List.Forall₂ RecordLine lines records := by
  induction lines generalizing records with
  | nil => simp [pure, Except.pure, eq_comm]
  | cons line lines ih =>
      simp only [List.mapM_cons, bind_eq_ok_iff, parseRecord_eq_ok_iff, ih, pure, Except.pure,
        Except.ok.injEq, List.forall₂_cons_left_iff]
      constructor
      · rintro ⟨record, hrecord, rest, hrest, rfl⟩
        exact ⟨record, rest, hrecord, hrest, rfl⟩
      · rintro ⟨record, rest, hrecord, hrest, rfl⟩
        exact ⟨record, hrecord, rest, hrest, rfl⟩

/-! ## Files -/

theorem headerLine_eq : headerLine = "local-transfer-trusted-peers v1".toList := by decide

/-- Only the one header line is accepted. -/
theorem parseHeader_eq_ok_iff {line : Text} : parseHeader line = .ok () ↔ line = headerLine := by
  constructor
  · intro h
    unfold parseHeader at h
    simp only [bind_eq_ok_iff, okOr_eq_ok_iff, Option.bind_eq_some_iff,
      List.dropPrefix?_eq_some_iff, beq_iff_eq, parseCanonicalU16_eq_some_iff] at h
    obtain ⟨text, ⟨rest, ⟨_, rfl, rfl⟩, _, rfl, rfl⟩, version, rfl, hversion⟩ := h
    split at hversion
    · cases hversion
    · next heq =>
        rw [not_not] at heq
        rw [heq, headerLine, List.append_assoc]
  · rintro rfl
    exact parseHeader_headerLine

theorem stripLineFeed_eq_some_iff {text body : Text} :
    stripLineFeed text = some body ↔ text = body ++ ['\n'] := by
  constructor
  · intro h
    unfold stripLineFeed at h
    split at h
    · next hlast =>
        obtain ⟨front, hfront⟩ := List.getLast?_eq_some_iff.mp hlast
        rw [hfront, List.dropLast_concat, Option.some.injEq] at h
        rw [hfront, h]
    · cases h
  · rintro rfl
    exact stripLineFeed_append body

/-- Lines that are each ended by a line feed, and lines that are separated by one. -/
theorem lines_eq_intercalate (first : Text) (rest : List Text) :
    first ++ '\n' :: rest.flatMap (fun line => line ++ ['\n']) =
      ['\n'].intercalate (first :: rest) ++ ['\n'] := by
  induction rest generalizing first with
  | nil => simp
  | cons line rest ih =>
      rw [List.intercalate_cons_cons, List.append_assoc, ← ih]
      simp

theorem collect_eq_ok_iff {records : List TrustedPeerRecord} {S : TrustedPeers} :
    collect records = .ok S ↔
      (records.map TrustedPeerRecord.identity).Nodup ∧ S.records.Perm records := by
  have hperm : (sortByKey TrustedPeerRecord.identity records).Perm records := sortByKey_perm records
  unfold collect
  constructor
  · intro h
    split at h
    · cases h
    · cases h
      next hdup =>
      have hordered : StrictlyOrdered TrustedPeerRecord.identity
          (sortByKey TrustedPeerRecord.identity records) :=
        (strictlyOrdered_iff_of_sorted (sortByKey_pairwise records)).mpr (by simpa using hdup)
      exact ⟨((hperm.map _).nodup_iff).mp hordered.nodup_keys, hperm⟩
  · rintro ⟨hnodup, hS⟩
    have hordered := strictlyOrdered_sortByKey hnodup
    have hdup := (strictlyOrdered_iff_of_sorted (sortByKey_pairwise records)).mp hordered
    rw [dif_neg (by simp [hdup])]
    refine congrArg _ (ext ?_)
    exact hordered.ext S.ordered fun r => (hperm.mem_iff).trans hS.mem_iff.symm

/-- A file is read exactly when it is in the language, as its records in order. -/
theorem decode_eq_ok_iff {bytes : Bytes} {S : TrustedPeers} : decode bytes = .ok S ↔
    ∃ lines records, StoreFile bytes lines records ∧ S.records.Perm records := by
  unfold decode
  constructor
  · intro h
    split at h
    · cases h
    next hsize =>
    simp only [bind_eq_ok_iff, okOr_eq_ok_iff, fromUtf8_eq_some_iff,
      stripLineFeed_eq_some_iff] at h
    obtain ⟨text, htext, body, hbody, h⟩ := h
    split at h
    · cases h
    next header lines hsplit =>
    obtain ⟨⟨⟩, hheader, h⟩ := bind_eq_ok_iff.mp h
    split at h
    · cases h
    next hcount =>
    obtain ⟨records, hrecords, hcollect⟩ := bind_eq_ok_iff.mp h
    obtain ⟨hdistinct, hperm⟩ := collect_eq_ok_iff.mp hcollect
    refine ⟨lines, records, ⟨Nat.le_of_not_lt hsize, ?_, Nat.le_of_not_lt hcount,
      mapM_parseRecord_iff_forall₂.mp hrecords, hdistinct⟩, hperm⟩
    -- the lines are those of the text, so joining them gives it back
    have hjoin : ['\n'].intercalate (body.splitOn '\n') = body := List.intercalate_splitOn '\n'
    rw [hsplit, parseHeader_eq_ok_iff.mp hheader] at hjoin
    rw [← htext, hbody, ← headerLine_eq, lines_eq_intercalate, hjoin]
  · rintro ⟨lines, records, hfile, hperm⟩
    -- no line holds a line feed, so splitting the text gives the lines back
    have hlines : ∀ line ∈ headerLine :: lines, '\n' ∉ line := by
      intro line hline
      rcases List.mem_cons.mp hline with rfl | hmem
      · decide
      · exact lineFeed_not_mem_lines hfile.lines line hmem
    have hsize : ¬ bytes.length > maxTrustedPeersStoreBytes := Nat.not_lt.mpr hfile.size
    have hcount : ¬ lines.length > maxTrustedPeers := Nat.not_lt.mpr hfile.count
    rw [if_neg hsize]
    simp only [bind_eq_ok_iff, okOr_eq_ok_iff, fromUtf8_eq_some_iff, stripLineFeed_eq_some_iff]
    refine ⟨_, hfile.text.symm, ['\n'].intercalate (headerLine :: lines), ?_, ?_⟩
    · rw [← headerLine_eq, lines_eq_intercalate]
    · rw [List.splitOn_intercalate '\n' hlines (by simp)]
      dsimp only
      rw [parseHeader_headerLine]
      simp only [bind, Except.bind]
      rw [if_neg hcount, mapM_parseRecord_iff_forall₂.mpr hfile.lines]
      exact collect_eq_ok_iff.mpr ⟨hfile.distinct, hperm⟩

/-- A file in the language is read. -/
theorem StoreFile.decodes {bytes : Bytes} {lines : List Text} {records : List TrustedPeerRecord}
    (h : StoreFile bytes lines records) :
    ∃ S, decode bytes = .ok S ∧ S.records.Perm records := by
  let S : TrustedPeers := ⟨sortByKey TrustedPeerRecord.identity records,
    strictlyOrdered_sortByKey h.distinct⟩
  have hperm : S.records.Perm records := sortByKey_perm records
  exact ⟨S, decode_eq_ok_iff.mpr ⟨lines, records, h, hperm⟩, hperm⟩

/-- Searching the ordered set and searching the lines find the same record. -/
theorem get_eq_find? {S : TrustedPeers} {records : List TrustedPeerRecord}
    (hperm : S.records.Perm records) (id : PeerKeyIdentity) :
    S.get id = records.find? fun record => record.identity = id := by
  apply Option.ext
  intro record
  rw [get_eq_some_iff]
  constructor
  · rintro ⟨hmem, rfl⟩
    cases hfind : records.find? fun r => r.identity = record.identity with
    | none =>
        have hne := List.find?_eq_none.mp hfind record (hperm.mem_iff.mp hmem)
        simp at hne
    | some found =>
        have hkey : found.identity = record.identity := by simpa using List.find?_some hfind
        have hfound := hperm.mem_iff.mpr (List.mem_of_find?_eq_some hfind)
        rw [S.ordered.eq_of_key hfound hmem hkey]
  · intro hfind
    exact ⟨hperm.mem_iff.mpr (List.mem_of_find?_eq_some hfind),
      by simpa using List.find?_some hfind⟩

theorem contains_eq_any {S : TrustedPeers} {records : List TrustedPeerRecord}
    (hperm : S.records.Perm records) (id : PeerKeyIdentity) :
    S.contains id = records.any fun record => record.identity = id := by
  rw [contains, get_eq_find? hperm]
  exact List.isSome_find?

end TrustedPeers

open TrustedPeers in
/-- **The language of the store file.** A byte string is read exactly when it is a header
and at most 128 well-formed lines with distinct identities; the set read has one record a
line, in identity order, and is searched as the lines would be. Anything else is an error. -/
theorem decode_accepts_exactly (bytes : Bytes) :
    (∀ S, decode bytes = .ok S ↔
      ∃ lines records, StoreFile bytes lines records ∧ S.records.Perm records) ∧
    (∀ lines records, StoreFile bytes lines records → ∃ S, decode bytes = .ok S ∧
      S.records.Perm records ∧ StrictlyOrdered TrustedPeerRecord.identity S.records ∧
      ∀ id, S.get id = records.find? (fun record => record.identity = id) ∧
        S.contains id = records.any fun record => record.identity = id) ∧
    ((∃ e, decode bytes = .error e) ↔ ¬ ∃ lines records, StoreFile bytes lines records) := by
  refine ⟨fun S => decode_eq_ok_iff, fun lines records hfile => ?_, ?_⟩
  · obtain ⟨S, hS, hperm⟩ := hfile.decodes
    exact ⟨S, hS, hperm, S.ordered, fun id => ⟨get_eq_find? hperm id, contains_eq_any hperm id⟩⟩
  · constructor
    · rintro ⟨e, he⟩ ⟨lines, records, hfile⟩
      obtain ⟨S, hS, -⟩ := hfile.decodes
      rw [hS] at he
      cases he
    · intro hnone
      cases h : decode bytes with
      | error e => exact ⟨e, rfl⟩
      | ok S =>
          obtain ⟨lines, records, hfile, -⟩ := decode_eq_ok_iff.mp h
          exact absurd ⟨lines, records, hfile⟩ hnone

/-- A file with one line, whose label is written with a space on each side. -/
theorem decode_accepts_exactly_padded :
    ∃ S, TrustedPeers.decode
        (utf8 "local-transfer-trusted-peers v1\n7 0aff 206120\n".toList) = .ok S ∧
      S.records.length = 1 := by
  let identity : PeerKeyIdentity := ⟨7, [10, 255], by decide, by decide⟩
  let label : TrustedPeerLabel := ⟨"a".toList, by decide, by decide, by decide, by decide⟩
  have hlabel : TrustedPeers.LabelField "206120".toList (some label) :=
    .present (by decide) (by decide) (by decide)
      (show utf8 " a ".toList = bytesOfHex "206120".toList by decide) (by decide)
  have hline : TrustedPeers.RecordLine
      (decimal 7 ++ ' ' :: ("0aff".toList ++ ' ' :: "206120".toList)) ⟨identity, some label⟩ :=
    @TrustedPeers.RecordLine.mk identity (some label) "0aff".toList "206120".toList
      (by decide) (by decide) (by decide) (by decide) hlabel
  obtain ⟨S, hS, hperm, -, -⟩ := (decode_accepts_exactly
    (utf8 "local-transfer-trusted-peers v1\n7 0aff 206120\n".toList)).2.1
    [decimal 7 ++ ' ' :: ("0aff".toList ++ ' ' :: "206120".toList)] [⟨identity, some label⟩]
    ⟨by decide, by decide, by decide, .cons hline .nil, by simp⟩
  exact ⟨S, hS, hperm.length_eq⟩

end LocalTransfer
