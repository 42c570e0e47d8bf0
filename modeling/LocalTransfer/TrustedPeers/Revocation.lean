import LocalTransfer.TrustedPeers.Format
import LocalTransfer.TrustedPeers.RoundTrip
import Mathlib

/-!
# Removing from any file that loads

A record is never written longer than the line it was read from, so the file of a subset
of the records of a loadable file is no longer than that file. A removal can therefore
never be refused.
-/

namespace LocalTransfer

open Lib

namespace TrustedPeers

/-- A label is written no longer than it was read. -/
theorem LabelField.byteLen_encodeLabel_le {labelHex : Text} {label : Option TrustedPeerLabel}
    (h : LabelField labelHex label) : byteLen (encodeLabel label) ≤ byteLen labelHex := by
  cases h with
  | absent => exact le_refl _
  | @present _ text label hhex _ _ htext hlabel =>
      obtain ⟨-, htrim⟩ := TrustedPeerLabel.new_eq_ok_iff.mp hlabel
      have htrimmed : byteLen label.asStr ≤ byteLen text := htrim ▸ byteLen_trim_le text
      have hread : byteLen labelHex = 2 * byteLen text := by
        rw [← pushHex_bytesOfHex hhex, byteLen_pushHex, ← htext, length_utf8]
      rw [encodeLabel, byteLen_pushHex, length_utf8, hread]
      omega

/-- Nor is a line. -/
theorem RecordLine.byteLen_recordLine_le {line : Text} {record : TrustedPeerRecord}
    (h : RecordLine line record) : byteLen (recordLine record) ≤ byteLen line := by
  cases h with
  | @mk identity label materialHex labelHex hhex _ _ hvalue hlabel =>
      have hlabel := hlabel.byteLen_encodeLabel_le
      have hmaterial : pushHex identity.material = materialHex := by
        rw [hvalue, pushHex_bytesOfHex hhex]
      simp only [recordLine, hmaterial, byteLen_append, byteLen_cons]
      omega

/-- The bytes of lines, each with its line feed. -/
def linesLen (lines : List Text) : Nat := (lines.map fun line => byteLen line + 1).sum

theorem byteLen_lines (lines : List Text) :
    byteLen (lines.flatMap fun line => line ++ ['\n']) = linesLen lines := by
  have hfeed : Char.utf8Size '\n' = 1 := by decide
  induction lines with
  | nil => rfl
  | cons line lines ih =>
      simp only [List.flatMap_cons, byteLen_append, byteLen_cons, byteLen_nil, hfeed, ih, linesLen,
        List.map_cons, List.sum_cons]

theorem linesLen_records_le {lines : List Text} {records : List TrustedPeerRecord}
    (h : List.Forall₂ RecordLine lines records) :
    linesLen (records.map recordLine) ≤ linesLen lines := by
  induction h with
  | nil => exact le_refl _
  | cons hline _ ih =>
      have := hline.byteLen_recordLine_le
      simp only [linesLen, List.map_cons, List.sum_cons] at ih ⊢
      omega

theorem linesLen_le_of_subset {records records' : List TrustedPeerRecord}
    (hnodup : records.Nodup) (hsub : records ⊆ records') :
    linesLen (records.map recordLine) ≤ linesLen (records'.map recordLine) := by
  obtain ⟨middle, hperm, hsublist⟩ := List.subperm_of_subset hnodup hsub
  have heq : linesLen (middle.map recordLine) = linesLen (records.map recordLine) :=
    ((hperm.map recordLine).map _).sum_eq
  rw [← heq]
  exact (((hsublist.map recordLine).map _).sum_le_sum fun _ _ => Nat.zero_le _)

theorem length_encode (records : List TrustedPeerRecord) :
    (encode records).length = byteLen headerLine + 1 + linesLen (records.map recordLine) := by
  have hfeed : Char.utf8Size '\n' = 1 := by decide
  have hbody : (records.flatMap fun record => recordLine record ++ ['\n']) =
      (records.map recordLine).flatMap fun line => line ++ ['\n'] := by
    rw [List.flatMap_map]
  rw [encode, length_utf8, encodeText, byteLen_append, byteLen_cons, hbody, byteLen_lines, hfeed]
  omega

/-- The file of a subset of the records read from a file is no longer than that file, and
is read back. -/
theorem decode_encode_of_subset {bytes : Bytes} {S T : TrustedPeers} (hS : decode bytes = .ok S)
    (hsub : T.records ⊆ S.records) :
    (encode T.records).length ≤ bytes.length ∧ decode (encode T.records) = .ok T := by
  obtain ⟨lines, records, hfile, hperm⟩ := decode_eq_ok_iff.mp hS
  have hnodup : T.records.Nodup := T.ordered.nodup_keys.of_map _
  constructor
  · have hT := linesLen_le_of_subset hnodup fun r hr => hperm.subset (hsub hr)
    have hlines := linesLen_records_le hfile.lines
    have hfeed : Char.utf8Size '\n' = 1 := by decide
    rw [length_encode, hfile.text, length_utf8, byteLen_append, byteLen_cons, byteLen_lines, hfeed,
      ← headerLine_eq]
    omega
  · exact decode_encode_eq_ok_iff.mpr ⟨rfl, (storable_of_decode hS).of_subset hnodup hsub⟩

end TrustedPeers

open TrustedPeers in
/-- **Revocation is always possible.** On a file that loads, a removal without faults
succeeds: it takes the identity out if it is there and leaves the bytes alone if not. -/
theorem remove_always_possible {Pid : Type} [DecidableEq Pid] (self : TrustedPeerStore) (p : Pid)
    (s : Fs Pid) (bytes : Bytes) (S : TrustedPeers) (hs : AtRest s)
    (hfile : s.node .trustedPeers = .regular bytes) (hS : decode bytes = .ok S) :
    (∀ (id : PeerKeyIdentity) (oracle : Nat → Answer), (∀ n, (oracle n).Faultless) →
      let after := (Mutation.remove id).run self p oracle s
      (S.contains id = true → after.1 = .ok (.removal .removed) ∧
        ∃ bytes', after.2.node .trustedPeers = .regular bytes' ∧
          decode bytes' = .ok (S.without id) ∧
          (S.without id).toMap = Function.update S.toMap id none) ∧
      (S.contains id = false → after.1 = .ok (.removal .alreadyAbsent) ∧
        after.2.node .trustedPeers = .regular bytes)) ∧
    ∀ T : TrustedPeers, T.records ⊆ S.records →
      (encode T.records).length ≤ bytes.length ∧ decode (encode T.records) = .ok T := by
  have hload : loadNode (s.node .trustedPeers) = .ok S := by rw [hfile]; exact hS
  refine ⟨fun id oracle horacle => ?_, fun T hsub => decode_encode_of_subset hS hsub⟩
  have hok : ((Mutation.remove id).run self p oracle s).1 =
      .ok ((Mutation.remove id).replyOn S) := by
    have hfits : (Mutation.remove id).Fits := trivial
    rcases result_faultless hs hload horacle hfits with hok | ⟨-, -, record, hstore, -⟩
    · exact hok
    · cases hstore
  constructor
  · intro hcontains
    have hnext : (Mutation.remove id).next S = some (S.without id) := if_pos hcontains
    refine ⟨by rw [hok]; simp [Mutation.replyOn, hcontains], ?_⟩
    rcases node_of_ok hs hload hok with ⟨hnone, -⟩ | ⟨T, hT, -, -, hnode⟩
    · rw [hnext] at hnone
      cases hnone
    · rw [hnext] at hT
      cases hT
      have hsub : (S.without id).records ⊆ S.records := fun r hr => (mem_without.mp hr).1
      exact ⟨_, hnode, (decode_encode_of_subset hS hsub).2, toMap_without S id⟩
  · intro hcontains
    have hnext : (Mutation.remove id).next S = none := by
      simp [Mutation.next, hcontains]
    refine ⟨by rw [hok]; simp [Mutation.replyOn, hcontains], ?_⟩
    rcases node_of_ok hs hload hok with ⟨-, -, hnode⟩ | ⟨T, hT, -⟩
    · rw [hnode, hfile]
    · rw [hnext] at hT
      cases hT

/-- A file whose lines are not in order. -/
def unsortedFile : Bytes :=
  utf8 "local-transfer-trusted-peers v1\n2 01 -\n1 01 206120\n".toList

/-- It is read in order, and its first line can be removed. -/
theorem remove_always_possible_unsorted :
    ((Mutation.remove ⟨2, [1], by decide, by decide⟩).run ⟨false⟩ () calm
      ⟨Function.update (fun _ => .missing) .trustedPeers (.regular unsortedFile),
        fun _ => .missing, none⟩).1 = .ok (.removal .removed) := by
  let label : TrustedPeerLabel := ⟨"a".toList, by decide, by decide, by decide, by decide⟩
  have hS : TrustedPeers.decode unsortedFile = .ok ⟨[⟨⟨1, [1], by decide, by decide⟩, some label⟩,
      ⟨⟨2, [1], by decide, by decide⟩, none⟩], by decide⟩ := by decide
  have hs : AtRest (⟨Function.update (fun _ => .missing) .trustedPeers (.regular unsortedFile),
      fun _ => .missing, none⟩ : Fs Unit) := ⟨rfl, .inl rfl⟩
  obtain ⟨hremove, -⟩ := remove_always_possible ⟨false⟩ () _ _ _ hs rfl hS
  exact ((hremove ⟨2, [1], by decide, by decide⟩ calm calm_faultless).1 (by decide)).1

end LocalTransfer
