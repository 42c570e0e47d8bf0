import LocalTransfer.Lib.Text
import LocalTransfer.Lib.SortedKeys
import Mathlib.Data.List.Lex
import Mathlib.Data.Prod.Lex

/-!
# Trusted-peer records

The identities, labels and records of `trusted_peers.rs`, each carrying the bounds
its constructor enforces, and the loaded set `TrustedPeers` with its records in
strict identity order. `TrustedPeers.toMap` is what such a set is for: a finite map
from identities to optional labels, on which storing and removing a record are
single updates (`toMap_replace`, `toMap_without`).
-/

namespace LocalTransfer

open Lib

def maxTrustedPeers : Nat := 128
def maxPeerIdentityBytes : Nat := 64
def maxTrustedPeerLabelChars : Nat := 64
def maxTrustedPeersStoreBytes : Nat := 64 * 1024
def maxTrustedPeerLabelBytes : Nat := 256
def maxRecordLineBytes : Nat := 512

/-! ## Identities -/

/-- Authenticated key-identity material: a scheme and 1 to 64 opaque bytes. -/
structure PeerKeyIdentity where
  scheme : UInt16
  material : Bytes
  nonempty : material ≠ []
  bounded : material.length ≤ maxPeerIdentityBytes

inductive PeerKeyIdentityError
  | empty
  | tooLarge (size maximum : Nat)
  deriving DecidableEq, Repr

namespace PeerKeyIdentity

/-- `PeerKeyIdentity::new`. -/
def new (scheme : UInt16) (material : Bytes) : Except PeerKeyIdentityError PeerKeyIdentity :=
  if hempty : material = [] then .error .empty
  else if hsize : material.length > maxPeerIdentityBytes then
    .error (.tooLarge material.length maxPeerIdentityBytes)
  else .ok ⟨scheme, material, hempty, Nat.le_of_not_gt hsize⟩

/-- The constructor accepts exactly the material within its bounds, unchanged. -/
theorem new_eq_ok_iff {scheme : UInt16} {material : Bytes} {id : PeerKeyIdentity} :
    new scheme material = .ok id ↔ id.scheme = scheme ∧ id.material = material := by
  unfold new
  constructor
  · intro h
    split at h
    · cases h
    · split at h
      · cases h
      · cases h
        exact ⟨rfl, rfl⟩
  · rintro ⟨rfl, rfl⟩
    rw [dif_neg id.nonempty, dif_neg (Nat.not_lt.mpr id.bounded)]

/-- The derived order compares the scheme, then the material byte by byte. -/
def sortKey (id : PeerKeyIdentity) : Nat ×ₗ List Nat :=
  toLex (id.scheme.toNat, id.material.map UInt8.toNat)

theorem sortKey_injective : Function.Injective sortKey := by
  intro a b h
  simp only [sortKey, EmbeddingLike.apply_eq_iff_eq, Prod.mk.injEq] at h
  obtain ⟨hscheme, hmaterial⟩ := h
  have hs : a.scheme = b.scheme := UInt16.toNat_inj.mp hscheme
  have hm : a.material = b.material :=
    List.map_injective_iff.mpr (fun _ _ h => UInt8.toNat_inj.mp h) hmaterial
  cases a
  cases b
  simp_all

instance : LinearOrder PeerKeyIdentity := LinearOrder.lift' sortKey sortKey_injective

end PeerKeyIdentity

/-! ## Labels -/

inductive TrustedPeerLabelError
  | empty
  | controlCharacter
  | tooLong (chars maximum : Nat)
  deriving DecidableEq, Repr

/-- The texts a label can hold: no control character, trimmed, 1 to 64 scalar values. -/
structure LabelText (text : Text) : Prop where
  noControl : text.any isControl = false
  trimmed : trim text = text
  nonempty : text ≠ []
  bounded : text.length ≤ maxTrustedPeerLabelChars

/-- A validated presentation label. -/
structure TrustedPeerLabel where
  asStr : Text
  valid : LabelText asStr

theorem TrustedPeerLabel.ext {l l' : TrustedPeerLabel} (h : l.asStr = l'.asStr) : l = l' := by
  cases l
  cases l'
  cases h
  rfl

instance : DecidableEq TrustedPeerLabel := fun l l' =>
  decidable_of_iff (l.asStr = l'.asStr) ⟨TrustedPeerLabel.ext, congrArg _⟩

/-- `TrustedPeerLabel::new`: control characters are rejected before trimming. -/
def TrustedPeerLabel.new (value : Text) : Except TrustedPeerLabelError TrustedPeerLabel :=
  if hcontrol : value.any isControl then .error .controlCharacter
  else if hempty : trim value = [] then .error .empty
  else if hlong : (trim value).length > maxTrustedPeerLabelChars then
    .error (.tooLong (trim value).length maxTrustedPeerLabelChars)
  else .ok ⟨trim value, any_isControl_trim (by simpa using hcontrol), trim_trim value, hempty,
    Nat.le_of_not_gt hlong⟩

/-- An accepted label is the trimmed text of a value without control characters. -/
theorem TrustedPeerLabel.new_eq_ok_iff {value : Text} {label : TrustedPeerLabel} :
    TrustedPeerLabel.new value = .ok label ↔
      value.any isControl = false ∧ label.asStr = trim value := by
  unfold TrustedPeerLabel.new
  constructor
  · intro h
    split at h
    · cases h
    · rename_i hcontrol
      split at h
      · cases h
      · split at h
        · cases h
        · cases h
          exact ⟨by simpa using hcontrol, rfl⟩
  · rintro ⟨hcontrol, htext⟩
    rw [dif_neg (by simpa using hcontrol), dif_neg (htext ▸ label.valid.nonempty),
      dif_neg (htext ▸ Nat.not_lt.mpr label.valid.bounded)]
    exact congrArg _ (TrustedPeerLabel.ext htext.symm)

/-- A label is a fixed point of its constructor. -/
@[simp] theorem TrustedPeerLabel.new_asStr (label : TrustedPeerLabel) :
    TrustedPeerLabel.new label.asStr = .ok label :=
  TrustedPeerLabel.new_eq_ok_iff.mpr ⟨label.valid.noControl, label.valid.trimmed.symm⟩

/-! ## Records and record sets -/

/-- One trusted peer: an identity bound to an optional label. -/
structure TrustedPeerRecord where
  identity : PeerKeyIdentity
  label : Option TrustedPeerLabel
  deriving DecidableEq

/-- A validated record set: one record per identity, in identity order. -/
structure TrustedPeers where
  records : List TrustedPeerRecord
  ordered : StrictlyOrdered TrustedPeerRecord.identity records

namespace TrustedPeers

theorem ext {S S' : TrustedPeers} (h : S.records = S'.records) : S = S' := by
  cases S
  cases S'
  cases h
  rfl

instance : DecidableEq TrustedPeers := fun S S' =>
  decidable_of_iff (S.records = S'.records) ⟨ext, congrArg _⟩

def empty : TrustedPeers := ⟨[], StrictlyOrdered.nil⟩

def len (S : TrustedPeers) : Nat := S.records.length

/-- `get`: a binary search for the identity. -/
def get (S : TrustedPeers) (id : PeerKeyIdentity) : Option TrustedPeerRecord :=
  (binarySearchBy (fun r => compare r.identity id) S.records).bind fun i => S.records[i]?

def contains (S : TrustedPeers) (id : PeerKeyIdentity) : Bool := (S.get id).isSome

/-- Looking a record up is finding the one with that identity. -/
theorem get_eq_some_iff {S : TrustedPeers} {id : PeerKeyIdentity} {r : TrustedPeerRecord} :
    S.get id = some r ↔ r ∈ S.records ∧ r.identity = id := by
  unfold get
  rw [binarySearchBy_eq_find? S.ordered id]
  constructor
  · intro h
    exact ⟨List.mem_of_find?_eq_some h, by simpa using List.find?_some h⟩
  · rintro ⟨hmem, rfl⟩
    cases hfind : S.records.find? fun a => a.identity = r.identity with
    | none =>
        have hne := List.find?_eq_none.mp hfind r hmem
        simp at hne
    | some r' =>
        have hkey : r'.identity = r.identity := by simpa using List.find?_some hfind
        rw [S.ordered.eq_of_key (List.mem_of_find?_eq_some hfind) hmem hkey]

theorem contains_iff {S : TrustedPeers} {id : PeerKeyIdentity} :
    S.contains id = true ↔ ∃ r ∈ S.records, r.identity = id := by
  simp [contains, Option.isSome_iff_exists, get_eq_some_iff]

theorem contains_eq_false_iff {S : TrustedPeers} {id : PeerKeyIdentity} :
    S.contains id = false ↔ ∀ r ∈ S.records, r.identity ≠ id := by
  rw [← Bool.not_eq_true, contains_iff]
  push Not
  rfl

/-- The records `store` writes: those with another identity, and the new one. -/
def stored (S : TrustedPeers) (record : TrustedPeerRecord) : List TrustedPeerRecord :=
  S.records.filter (fun existing => existing.identity ≠ record.identity) ++ [record]

/-- The records `remove` writes. -/
def remaining (S : TrustedPeers) (id : PeerKeyIdentity) : List TrustedPeerRecord :=
  S.records.filter fun existing => existing.identity ≠ id

theorem nodup_stored (S : TrustedPeers) (record : TrustedPeerRecord) :
    ((S.stored record).map TrustedPeerRecord.identity).Nodup := by
  unfold stored
  rw [List.map_append, List.nodup_append]
  refine ⟨(S.ordered.filter _).nodup_keys, by simp, ?_⟩
  intro a ha b hb
  simp only [List.map_cons, List.map_nil, List.mem_singleton] at hb
  subst hb
  obtain ⟨r, hr, rfl⟩ := List.mem_map.mp ha
  simpa using (List.mem_filter.mp hr).2

/-- The set with the record's identity bound to the record. -/
def replace (S : TrustedPeers) (record : TrustedPeerRecord) : TrustedPeers :=
  ⟨sortByKey TrustedPeerRecord.identity (S.stored record),
    strictlyOrdered_sortByKey (S.nodup_stored record)⟩

/-- The set without an identity. -/
def without (S : TrustedPeers) (id : PeerKeyIdentity) : TrustedPeers :=
  ⟨S.remaining id, S.ordered.filter _⟩

theorem mem_stored {S : TrustedPeers} {record r : TrustedPeerRecord} :
    r ∈ S.stored record ↔ r = record ∨ (r ∈ S.records ∧ r.identity ≠ record.identity) := by
  simp [stored, or_comm]

theorem mem_replace {S : TrustedPeers} {record r : TrustedPeerRecord} :
    r ∈ (S.replace record).records ↔
      r = record ∨ (r ∈ S.records ∧ r.identity ≠ record.identity) := by
  simp [replace, mem_stored]

theorem mem_without {S : TrustedPeers} {id : PeerKeyIdentity} {r : TrustedPeerRecord} :
    r ∈ (S.without id).records ↔ r ∈ S.records ∧ r.identity ≠ id := by
  simp [without, remaining]

/-! ## The set as a finite map -/

/-- What a record set means: the label bound to each trusted identity. -/
def toMap (S : TrustedPeers) (id : PeerKeyIdentity) : Option (Option TrustedPeerLabel) :=
  (S.get id).map TrustedPeerRecord.label

theorem toMap_eq_some_iff {S : TrustedPeers} {id : PeerKeyIdentity}
    {label : Option TrustedPeerLabel} :
    S.toMap id = some label ↔ ⟨id, label⟩ ∈ S.records := by
  simp only [toMap, Option.map_eq_some_iff, get_eq_some_iff]
  constructor
  · rintro ⟨r, ⟨hr, rfl⟩, rfl⟩
    exact hr
  · intro h
    exact ⟨_, ⟨h, rfl⟩, rfl⟩

/-- A record set is determined by its map. -/
theorem toMap_injective : Function.Injective toMap := by
  intro S S' h
  apply ext
  apply S.ordered.ext S'.ordered
  rintro ⟨id, label⟩
  rw [← toMap_eq_some_iff, ← toMap_eq_some_iff, h]

@[simp] theorem toMap_empty : empty.toMap = fun _ => none := by
  funext id
  rw [Option.eq_none_iff_forall_ne_some]
  intro label h
  rw [toMap_eq_some_iff] at h
  exact absurd h List.not_mem_nil

/-- Storing a record binds its identity and leaves the others alone. -/
theorem toMap_replace (S : TrustedPeers) (record : TrustedPeerRecord) :
    (S.replace record).toMap = Function.update S.toMap record.identity (some record.label) := by
  funext id
  apply Option.ext
  intro label
  rw [toMap_eq_some_iff, mem_replace]
  by_cases hid : id = record.identity
  · subst hid
    rw [Function.update_self]
    cases record
    simp [eq_comm]
  · rw [Function.update_of_ne hid, toMap_eq_some_iff]
    cases record
    simp_all

/-- Removing an identity unbinds it and leaves the others alone. -/
theorem toMap_without (S : TrustedPeers) (id : PeerKeyIdentity) :
    (S.without id).toMap = Function.update S.toMap id none := by
  funext id'
  apply Option.ext
  intro label
  rw [toMap_eq_some_iff, mem_without]
  by_cases hid : id' = id
  · subst hid
    simp
  · rw [Function.update_of_ne hid, toMap_eq_some_iff]
    simp [hid]

theorem contains_eq_toMap (S : TrustedPeers) (id : PeerKeyIdentity) :
    S.contains id = (S.toMap id).isSome := by
  simp [contains, toMap]

end TrustedPeers

/-- A record of the identity with this one byte. -/
def recordOf (byte : UInt8) : TrustedPeerRecord :=
  ⟨⟨1, [byte], List.cons_ne_nil _ _, (show 1 ≤ 64 by decide)⟩, none⟩

end LocalTransfer
