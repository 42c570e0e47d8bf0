import LocalTransfer.Lib.Text
import Mathlib.Data.Fintype.Basic

/-!
# Pairing messages

The three messages of the pairing-request phase and their wire form in `pairing.rs`:
a version byte, a kind byte, the 16-byte attempt identifier and, in a rejection, one
reason byte. `decode` indexes with the bounds its length checks have established;
`decodeIndexing` is the same code with indexing that may panic.
-/

namespace LocalTransfer

open Lib

def pairingProtocolVersion : UInt8 := 1
def versionOffset : Nat := 0
def kindOffset : Nat := 1
def attemptIdOffset : Nat := 2
def attemptIdLen : Nat := 16
def reasonOffset : Nat := attemptIdOffset + attemptIdLen
def baseMessageLen : Nat := attemptIdOffset + attemptIdLen
def rejectedMessageLen : Nat := baseMessageLen + 1
def maxPairingMessageBytes : Nat := rejectedMessageLen
def kindRequest : UInt8 := 1
def kindRequestAccepted : UInt8 := 2
def kindRequestRejected : UInt8 := 3
def reasonUnspecified : UInt8 := 0
def reasonBusy : UInt8 := 1
def reasonDeclined : UInt8 := 2

/-- A 16-byte token that correlates the messages of one attempt. -/
structure PairingAttemptId where
  toBytes : Bytes
  length_eq : toBytes.length = attemptIdLen
  deriving DecidableEq

theorem PairingAttemptId.ext {a b : PairingAttemptId} (h : a.toBytes = b.toBytes) : a = b := by
  cases a
  cases b
  cases h
  rfl

inductive PairingRejectionReason
  | unspecified
  | busy
  | declined
  deriving DecidableEq, Repr

namespace PairingRejectionReason

def toWire : PairingRejectionReason → UInt8
  | .unspecified => reasonUnspecified
  | .busy => reasonBusy
  | .declined => reasonDeclined

def fromWire (value : UInt8) : Option PairingRejectionReason :=
  if value = reasonUnspecified then some .unspecified
  else if value = reasonBusy then some .busy
  else if value = reasonDeclined then some .declined
  else none

@[simp] theorem fromWire_toWire (reason : PairingRejectionReason) :
    fromWire reason.toWire = some reason := by
  cases reason <;> decide

theorem eq_toWire_of_fromWire {value : UInt8} {reason : PairingRejectionReason}
    (h : fromWire value = some reason) : value = reason.toWire := by
  unfold fromWire at h
  split at h
  · next hvalue => cases h; exact hvalue
  · split at h
    · next hvalue => cases h; exact hvalue
    · split at h
      · next hvalue => cases h; exact hvalue
      · cases h

end PairingRejectionReason

inductive PairingMessage
  | request (attemptId : PairingAttemptId)
  | requestAccepted (attemptId : PairingAttemptId)
  | requestRejected (attemptId : PairingAttemptId) (reason : PairingRejectionReason)
  deriving DecidableEq

inductive PairingMessageError
  | invalidLength (len : Nat)
  | unsupportedVersion (version : UInt8)
  | unknownMessageKind (kind : UInt8)
  | unknownRejectionReason (reason : UInt8)
  | lengthKindMismatch (kind : UInt8) (len : Nat)
  deriving DecidableEq, Repr

namespace PairingMessage

def attemptId : PairingMessage → PairingAttemptId
  | .request id => id
  | .requestAccepted id => id
  | .requestRejected id _ => id

def encode : PairingMessage → Bytes
  | .request id => pairingProtocolVersion :: kindRequest :: id.toBytes
  | .requestAccepted id => pairingProtocolVersion :: kindRequestAccepted :: id.toBytes
  | .requestRejected id reason =>
      pairingProtocolVersion :: kindRequestRejected :: (id.toBytes ++ [reason.toWire])

def exactLen (bytes : Bytes) (expected : Nat) (kind : UInt8) :
    Except PairingMessageError (PLift (bytes.length = expected)) :=
  if h : bytes.length = expected then .ok ⟨h⟩ else .error (.lengthKindMismatch kind bytes.length)

/-- The identifier between the kind and the reason. -/
def attemptIdBytes (bytes : Bytes) (h : baseMessageLen ≤ bytes.length) : PairingAttemptId :=
  ⟨(bytes.drop attemptIdOffset).take attemptIdLen, by
    simp only [baseMessageLen, attemptIdOffset, attemptIdLen] at *
    simp only [List.length_take, List.length_drop]
    omega⟩

def decode (bytes : Bytes) : Except PairingMessageError PairingMessage :=
  if hlen : bytes.length < baseMessageLen ∨ bytes.length > maxPairingMessageBytes then
    .error (.invalidLength bytes.length)
  else
    have hbase : baseMessageLen ≤ bytes.length := Nat.le_of_not_lt fun h => hlen (.inl h)
    let version := bytes.get ⟨versionOffset, Nat.lt_of_lt_of_le (by decide) hbase⟩
    if version ≠ pairingProtocolVersion then .error (.unsupportedVersion version)
    else
      let kind := bytes.get ⟨kindOffset, Nat.lt_of_lt_of_le (by decide) hbase⟩
      let attemptId := attemptIdBytes bytes hbase
      if kind = kindRequest then do
        let _ ← exactLen bytes baseMessageLen kind
        .ok (.request attemptId)
      else if kind = kindRequestAccepted then do
        let _ ← exactLen bytes baseMessageLen kind
        .ok (.requestAccepted attemptId)
      else if kind = kindRequestRejected then do
        let ⟨hrejected⟩ ← exactLen bytes rejectedMessageLen kind
        let raw := bytes.get ⟨reasonOffset, hrejected ▸ (by decide)⟩
        match PairingRejectionReason.fromWire raw with
        | some reason => .ok (.requestRejected attemptId reason)
        | none => .error (.unknownRejectionReason raw)
      else .error (.unknownMessageKind kind)

/-- The identifier is read back whatever surrounds it. -/
theorem attemptIdBytes_cons {version kind : UInt8} {id : PairingAttemptId} {rest : Bytes}
    (h : baseMessageLen ≤ (version :: kind :: (id.toBytes ++ rest)).length) :
    attemptIdBytes (version :: kind :: (id.toBytes ++ rest)) h = id := by
  apply PairingAttemptId.ext
  simp [attemptIdBytes, attemptIdOffset, ← id.length_eq]

theorem attemptIdBytes_encode (m : PairingMessage) (h : baseMessageLen ≤ m.encode.length) :
    attemptIdBytes m.encode h = m.attemptId := by
  cases m with
  | request id | requestAccepted id =>
      have hid := fun kind => @attemptIdBytes_cons pairingProtocolVersion kind id []
      simp only [List.append_nil] at hid
      exact hid _ h
  | requestRejected id reason => exact attemptIdBytes_cons h

/-- What one party sends is what the other receives. -/
@[simp] theorem decode_encode (m : PairingMessage) : decode m.encode = .ok m := by
  have hid := attemptIdBytes_encode m
  have hlen := m.attemptId.length_eq
  cases m with
  | request id =>
      simp only [attemptId] at hlen hid
      simp [decode, encode, exactLen, hlen, versionOffset, kindOffset, baseMessageLen,
        maxPairingMessageBytes, rejectedMessageLen, attemptIdOffset, attemptIdLen, kindRequest]
      exact congrArg (fun i => Except.ok (request i)) (hid _)
  | requestAccepted id =>
      simp only [attemptId] at hlen hid
      simp [decode, encode, exactLen, hlen, versionOffset, kindOffset, baseMessageLen,
        maxPairingMessageBytes, rejectedMessageLen, attemptIdOffset, attemptIdLen, kindRequest,
        kindRequestAccepted]
      exact congrArg (fun i => Except.ok (requestAccepted i)) (hid _)
  | requestRejected id reason =>
      simp only [attemptId] at hlen hid
      simp [decode, encode, exactLen, hlen, versionOffset, kindOffset, baseMessageLen,
        maxPairingMessageBytes, rejectedMessageLen, attemptIdOffset, attemptIdLen, kindRequest,
        kindRequestAccepted, kindRequestRejected, reasonOffset]
      exact congrArg (fun i => Except.ok (requestRejected i reason)) (hid _)

/-! ## Nothing else is accepted -/

section Canonical

variable {bytes : Bytes}

/-- Bytes of the shortest length are the version, the kind and the identifier. -/
theorem eq_base_of_length (hlen : bytes.length = baseMessageLen) :
    ∃ h h₀ h₁, bytes = bytes.get ⟨versionOffset, h₀⟩ :: bytes.get ⟨kindOffset, h₁⟩ ::
      (attemptIdBytes bytes h).toBytes := by
  have hbase : baseMessageLen ≤ bytes.length := Nat.le_of_eq hlen.symm
  have hpos : kindOffset < bytes.length := Nat.lt_of_lt_of_le (by decide) hbase
  refine ⟨hbase, Nat.lt_of_le_of_lt (by decide) hpos, hpos, ?_⟩
  match bytes, hlen with
  | version :: kind :: rest, hlen =>
      have hrest : rest.length = attemptIdLen := by
        simp only [List.length_cons, baseMessageLen, attemptIdOffset, attemptIdLen] at hlen ⊢
        omega
      simp [versionOffset, kindOffset, attemptIdBytes, attemptIdOffset, ← hrest]

/-- Bytes of the other length have one more byte behind. -/
theorem eq_rejected_of_length (hlen : bytes.length = rejectedMessageLen) :
    ∃ h h₀ h₁ h₂, bytes = bytes.get ⟨versionOffset, h₀⟩ :: bytes.get ⟨kindOffset, h₁⟩ ::
      ((attemptIdBytes bytes h).toBytes ++ [bytes.get ⟨reasonOffset, h₂⟩]) := by
  have hreason : reasonOffset < bytes.length := hlen ▸ (by decide)
  have hbase : baseMessageLen ≤ bytes.length := Nat.le_of_lt hreason
  have hpos : kindOffset < bytes.length := Nat.lt_of_lt_of_le (by decide) hbase
  refine ⟨hbase, Nat.lt_of_le_of_lt (by decide) hpos, hpos, hreason, ?_⟩
  match bytes, hlen with
  | version :: kind :: rest, hlen =>
      have hrest : rest.length = attemptIdLen + 1 := by
        simp only [List.length_cons, rejectedMessageLen, baseMessageLen, attemptIdOffset,
          attemptIdLen] at hlen ⊢
        omega
      have hlast : rest.drop attemptIdLen = [rest.get ⟨attemptIdLen, by omega⟩] := by
        rw [List.drop_eq_getElem_cons (by omega), List.drop_of_length_le (by omega)]
        rfl
      have hsplit := (List.take_append_drop attemptIdLen rest).symm
      rw [hlast] at hsplit
      exact congrArg (version :: kind :: ·) hsplit

/-- What comes after the check of a length has the length. -/
theorem of_exactLen {expected : Nat} {kind : UInt8} {m : PairingMessage}
    {next : PLift (bytes.length = expected) → Except PairingMessageError PairingMessage}
    (h : exactLen bytes expected kind >>= next = .ok m) :
    ∃ hlen : bytes.length = expected, next ⟨hlen⟩ = .ok m := by
  by_cases hlen : bytes.length = expected
  · simp only [exactLen, dif_pos hlen, bind, Except.bind] at h
    exact ⟨hlen, h⟩
  · simp only [exactLen, dif_neg hlen, bind, Except.bind] at h
    cases h

/-- Accepted bytes are the encoding of what they were read as. -/
theorem eq_encode_of_decode {m : PairingMessage} (h : decode bytes = .ok m) :
    bytes = m.encode := by
  unfold decode at h
  split at h
  · cases h
  dsimp only at h
  split at h
  · cases h
  next hversion =>
  rw [not_not] at hversion
  -- each kind allows one length, and the bytes of that length are spelt out above
  split at h
  · next hkind =>
      obtain ⟨hlen, h⟩ := of_exactLen h
      cases h
      obtain ⟨_, _, _, hbytes⟩ := eq_base_of_length hlen
      rw [hversion, hkind] at hbytes
      exact hbytes
  split at h
  · next hkind =>
      obtain ⟨hlen, h⟩ := of_exactLen h
      cases h
      obtain ⟨_, _, _, hbytes⟩ := eq_base_of_length hlen
      rw [hversion, hkind] at hbytes
      exact hbytes
  split at h
  · next hkind =>
      obtain ⟨hlen, h⟩ := of_exactLen h
      split at h
      · next reason hreason =>
          cases h
          obtain ⟨_, _, _, _, hbytes⟩ := eq_rejected_of_length hlen
          rw [hversion, hkind, PairingRejectionReason.eq_toWire_of_fromWire hreason] at hbytes
          exact hbytes
      · cases h
  · cases h

end Canonical

/-! ## Indexing -/

/-- `copy_from_slice` of a range of sixteen bytes; `none` is a panic. -/
def copyAttemptId (bytes : Bytes) : Option PairingAttemptId :=
  let slice := (bytes.take (attemptIdOffset + attemptIdLen)).drop attemptIdOffset
  if h : slice.length = attemptIdLen then some ⟨slice, h⟩ else none

/-- `decode` with every index and slice checked where it is used; `none` is a panic. -/
def decodeIndexing (bytes : Bytes) : Option (Except PairingMessageError PairingMessage) :=
  if bytes.length < baseMessageLen ∨ bytes.length > maxPairingMessageBytes then
    some (.error (.invalidLength bytes.length))
  else do
    let version ← bytes[versionOffset]?
    if version ≠ pairingProtocolVersion then some (.error (.unsupportedVersion version))
    else
      let kind ← bytes[kindOffset]?
      let attemptId ← copyAttemptId bytes
      if kind = kindRequest then
        match exactLen bytes baseMessageLen kind with
        | .error error => some (.error error)
        | .ok _ => some (.ok (.request attemptId))
      else if kind = kindRequestAccepted then
        match exactLen bytes baseMessageLen kind with
        | .error error => some (.error error)
        | .ok _ => some (.ok (.requestAccepted attemptId))
      else if kind = kindRequestRejected then
        match exactLen bytes rejectedMessageLen kind with
        | .error error => some (.error error)
        | .ok _ => do
            let raw ← bytes[reasonOffset]?
            match PairingRejectionReason.fromWire raw with
            | some reason => some (.ok (.requestRejected attemptId reason))
            | none => some (.error (.unknownRejectionReason raw))
      else some (.error (.unknownMessageKind kind))

theorem copyAttemptId_eq {bytes : Bytes} (h : baseMessageLen ≤ bytes.length) :
    copyAttemptId bytes = some (attemptIdBytes bytes h) := by
  have hslice : (bytes.take (attemptIdOffset + attemptIdLen)).drop attemptIdOffset =
      (attemptIdBytes bytes h).toBytes := by
    rw [List.drop_take, Nat.add_sub_cancel_left]
    rfl
  have hlen := (attemptIdBytes bytes h).length_eq
  rw [← hslice] at hlen
  simp only [copyAttemptId, dif_pos hlen]
  exact congrArg some (PairingAttemptId.ext hslice)

/-- No index or slice is out of range. -/
theorem decodeIndexing_eq (bytes : Bytes) : decodeIndexing bytes = some (decode bytes) := by
  unfold decodeIndexing decode
  by_cases hlen : bytes.length < baseMessageLen ∨ bytes.length > maxPairingMessageBytes
  · rw [if_pos hlen, dif_pos hlen]
  rw [if_neg hlen, dif_neg hlen]
  have hbase : baseMessageLen ≤ bytes.length := Nat.le_of_not_lt fun h => hlen (.inl h)
  have hkind : kindOffset < bytes.length := Nat.lt_of_lt_of_le (by decide) hbase
  have hversion : versionOffset < bytes.length := Nat.lt_of_le_of_lt (by decide) hkind
  simp only [List.getElem?_eq_getElem hversion, List.getElem?_eq_getElem hkind,
    copyAttemptId_eq hbase, List.get_eq_getElem, Option.bind_eq_bind, Option.bind_some]
  split
  · rfl
  split
  · cases exactLen bytes baseMessageLen bytes[kindOffset] <;> rfl
  split
  · cases exactLen bytes baseMessageLen bytes[kindOffset] <;> rfl
  split
  · cases hexact : exactLen bytes rejectedMessageLen bytes[kindOffset] with
    | error error => rfl
    | ok hrejected =>
        have hreason : reasonOffset < bytes.length := hrejected.down ▸ (by decide)
        simp only [List.getElem?_eq_getElem hreason, Option.bind_some, bind, Except.bind]
        cases PairingRejectionReason.fromWire bytes[reasonOffset] <;> rfl
  · rfl

end PairingMessage

open PairingMessage in
/-- **One message, one wire form.** The decoder accepts exactly what the encoder writes,
and never reads out of range. -/
theorem decode_accepts_exactly_encodings :
    (∀ bytes m, decode bytes = .ok m ↔ bytes = m.encode) ∧
      Function.Injective encode ∧
      ∀ bytes, decodeIndexing bytes = some (decode bytes) := by
  have hiff : ∀ bytes m, decode bytes = .ok m ↔ bytes = m.encode := by
    intro bytes m
    constructor
    · exact eq_encode_of_decode
    · rintro rfl
      exact decode_encode m
  refine ⟨hiff, ?_, decodeIndexing_eq⟩
  intro m m' h
  have hm : decode m'.encode = .ok m := (hiff _ _).mpr h.symm
  rw [decode_encode] at hm
  exact (Except.ok.inj hm).symm

end LocalTransfer
