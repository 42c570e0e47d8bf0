import LocalTransfer.Discovery.Metadata
import LocalTransfer.Lib.SortedKeys

/-!
# The browser

`browser.rs`: transient advertisement keys, resolved snapshots, and the translation of
raw backend events into domain events by `BrowserState`. A hash map of the source is an
extensional tree map here; nothing depends on its iteration order.
-/

namespace LocalTransfer

open Lib

def maxDiscoveredEndpoints : Nat := 16
def maxTransientDiscoveryKeyBytes : Nat := 255
def transientKeySuffix : Text := "._local-transfer._tcp.local.".toList

/-! ## Keys and endpoints -/

/-- A service fullname: an instance label and the canonical suffix. -/
structure TransientDiscoveryKey where
  asStr : Text
  suffixed : ∃ label, label ≠ [] ∧ asStr = label ++ transientKeySuffix
  bounded : byteLen asStr ≤ maxTransientDiscoveryKeyBytes
  noControl : asStr.any isControl = false

theorem TransientDiscoveryKey.ext {a b : TransientDiscoveryKey} (h : a.asStr = b.asStr) :
    a = b := by
  cases a
  cases b
  cases h
  rfl

instance : DecidableEq TransientDiscoveryKey := fun _ _ =>
  decidable_of_iff _ ⟨TransientDiscoveryKey.ext, congrArg TransientDiscoveryKey.asStr⟩

/-- Keys are ordered as strings are: byte by byte. -/
def TransientDiscoveryKey.sortKey (key : TransientDiscoveryKey) : List Nat :=
  (utf8 key.asStr).map UInt8.toNat

theorem TransientDiscoveryKey.sortKey_injective : Function.Injective sortKey := fun _ _ h =>
  ext (utf8_injective (List.map_injective_iff.mpr (fun _ _ h => UInt8.toNat_inj.mp h) h))

instance : LinearOrder TransientDiscoveryKey :=
  LinearOrder.lift' TransientDiscoveryKey.sortKey TransientDiscoveryKey.sortKey_injective

instance : Std.LawfulEqOrd TransientDiscoveryKey := ⟨fun h => compare_eq_iff_eq.mp h⟩

instance : Std.TransOrd TransientDiscoveryKey := inferInstance

inductive IpAddr
  | v4 (bits : BitVec 32)
  | v6 (bits : BitVec 128)
  deriving DecidableEq

structure DiscoveryEndpoint where
  address : IpAddr
  scopeId : Option UInt32
  deriving DecidableEq

/-- The derived order: IPv4 before IPv6, then by address, then by scope. -/
def DiscoveryEndpoint.sortKey (endpoint : DiscoveryEndpoint) : Nat ×ₗ Nat ×ₗ Nat :=
  let scope := match endpoint.scopeId with
    | none => 0
    | some id => id.toNat + 1
  match endpoint.address with
  | .v4 bits => toLex (0, toLex (bits.toNat, scope))
  | .v6 bits => toLex (1, toLex (bits.toNat, scope))

/-- The endpoints of an ordered set built from a list. -/
def endpointSet (endpoints : List DiscoveryEndpoint) : List DiscoveryEndpoint :=
  sortByKey DiscoveryEndpoint.sortKey endpoints.dedup

abbrev NonZeroU16 := { port : UInt16 // port ≠ 0 }

/-- A compatible, resolved service. -/
structure DiscoveredPeer where
  key : TransientDiscoveryKey
  metadata : DiscoveryMetadata
  port : NonZeroU16
  endpoints : List DiscoveryEndpoint
  protocolMajor : UInt16
  deriving DecidableEq

/-! ## Errors and events -/

inductive DiscoveryBrowserErrorKind
  | initialization
  | browse
  | invalidTransientKey
  | malformedResolution
  | invalidPort
  | endpointLimit
  | metadata
  | incompatibleProtocol
  | daemon
  | stopBrowse
  | shutdown
  deriving DecidableEq, Repr

/-- An error of the mDNS library, which the code only passes on. -/
structure MdnsError where
  message : Text
  deriving DecidableEq, Repr

/-- Why no acknowledgement came in time. -/
inductive RecvTimeoutError
  | timeout
  | disconnected
  deriving DecidableEq, Repr

/-- What an error of the mDNS daemon is caused by: an error of the library, a channel that is
gone, or an acknowledgement that did not come. -/
inductive DaemonErrorSource
  | mdns (error : MdnsError)
  | disconnected
  | recvTimeout (error : RecvTimeoutError)
  deriving DecidableEq, Repr

/-- The cause of an error: rejected metadata, or a failure of the mDNS daemon. -/
inductive DiscoveryBrowserErrorSource
  | metadata (error : DiscoveryMetadataError)
  | infrastructure (error : DaemonErrorSource)
  deriving DecidableEq, Repr

structure DiscoveryBrowserError where
  kind : DiscoveryBrowserErrorKind
  key : Option TransientDiscoveryKey
  source : Option DiscoveryBrowserErrorSource
  deriving DecidableEq

namespace DiscoveryBrowserError

def withoutSource (kind : DiscoveryBrowserErrorKind) : DiscoveryBrowserError := ⟨kind, none, none⟩

def withSource (kind : DiscoveryBrowserErrorKind) (source : DaemonErrorSource) :
    DiscoveryBrowserError := ⟨kind, none, some (.infrastructure source)⟩

def forKey (kind : DiscoveryBrowserErrorKind) (key : TransientDiscoveryKey) :
    DiscoveryBrowserError := ⟨kind, some key, none⟩

def forKeyWithSource (kind : DiscoveryBrowserErrorKind) (key : TransientDiscoveryKey)
    (source : DiscoveryMetadataError) : DiscoveryBrowserError :=
  ⟨kind, some key, some (.metadata source)⟩

end DiscoveryBrowserError

inductive DiscoveryBrowserEvent
  | added (peer : DiscoveredPeer)
  | updated (peer : DiscoveredPeer)
  | refreshed (peer : DiscoveredPeer)
  | removed (key : TransientDiscoveryKey)
  | error (error : DiscoveryBrowserError)
  deriving DecidableEq

namespace TransientDiscoveryKey

/-- Validates a fullname and gives its suffix the canonical case. -/
def new (value : Text) : Except DiscoveryBrowserError TransientDiscoveryKey :=
  if byteLen value < byteLen transientKeySuffix then
    .error (.withoutSource .invalidTransientKey)
  else
    match hsplit : splitAtByte value (byteLen value - byteLen transientKeySuffix) with
    | none => .error (.withoutSource .invalidTransientKey)
    | some (label, suffix) =>
        if hbad : byteLen value > maxTransientDiscoveryKeyBytes ∨
            ¬ eqIgnoreAsciiCase suffix transientKeySuffix ∨ label = [] ∨ value.any isControl then
          .error (.withoutSource .invalidTransientKey)
        else
          .ok {
            asStr := label ++ transientKeySuffix
            suffixed := ⟨label, fun h => hbad (.inr (.inr (.inl h))), rfl⟩
            bounded := by
              simp only [not_or, not_not] at hbad
              obtain ⟨rfl, -⟩ := splitAtByte_eq_some_iff.mp hsplit
              have := byteLen_of_eqIgnoreAsciiCase hbad.2.1
              rw [byteLen_append] at hbad ⊢
              omega
            noControl := by
              simp only [not_or, Bool.not_eq_true] at hbad
              obtain ⟨rfl, -⟩ := splitAtByte_eq_some_iff.mp hsplit
              have hlabel := hbad.2.2.2
              rw [List.any_append, Bool.or_eq_false_iff] at hlabel
              rw [List.any_append, hlabel.1]
              decide }

/-- A label followed by the suffix, in any case, is a key if it is short and clean. -/
theorem new_append {label suffix : Text} (hlabel : label ≠ [])
    (hsuffix : eqIgnoreAsciiCase suffix transientKeySuffix)
    (hlen : byteLen (label ++ suffix) ≤ maxTransientDiscoveryKeyBytes)
    (hcontrol : (label ++ suffix).any isControl = false) :
    ∃ key, new (label ++ suffix) = .ok key ∧ key.asStr = label ++ transientKeySuffix := by
  have hsize := byteLen_of_eqIgnoreAsciiCase hsuffix
  have hoffset : byteLen (label ++ suffix) - byteLen transientKeySuffix = byteLen label := by
    rw [byteLen_append]
    omega
  have hsplit := splitAtByte_append label suffix
  rw [← hoffset] at hsplit
  unfold new
  rw [if_neg (by rw [byteLen_append]; omega)]
  split
  · next hnone =>
      rw [hnone] at hsplit
      cases hsplit
  · next label' suffix' hsome =>
      rw [hsome] at hsplit
      cases hsplit
      have hgood : ¬ (byteLen (label ++ suffix) > maxTransientDiscoveryKeyBytes ∨
          ¬ eqIgnoreAsciiCase suffix transientKeySuffix ∨ label = [] ∨
          (label ++ suffix).any isControl) := by
        simp only [hsuffix, hlabel, hcontrol, not_true, or_false, Bool.false_eq_true]
        exact Nat.not_lt.mpr hlen
      exact ⟨_, dif_neg hgood, rfl⟩

end TransientDiscoveryKey

/-! ## Translation of raw events -/

structure RawResolvedService where
  fullname : Text
  port : UInt16
  endpoints : List DiscoveryEndpoint
  txt : List DiscoveryTxtEntry

inductive RawBrowserEvent
  | resolved (service : RawResolvedService)
  | removed (fullname : Text)
  | error (error : DiscoveryBrowserError)

/-- The snapshot a resolution describes, if it is valid and compatible. -/
def RawResolvedService.peer (resolved : RawResolvedService) :
    Except DiscoveryBrowserError DiscoveredPeer := do
  let key ← TransientDiscoveryKey.new resolved.fullname
  let port ← if h : resolved.port = 0 then .error (.forKey .invalidPort key)
    else .ok (⟨resolved.port, h⟩ : NonZeroU16)
  let endpoints := endpointSet resolved.endpoints
  if endpoints.isEmpty then .error (.forKey .malformedResolution key)
  else if endpoints.length > maxDiscoveredEndpoints then .error (.forKey .endpointLimit key)
  else
    let metadata ← (DiscoveryMetadata.fromTxtEntries resolved.txt).mapError fun source =>
      .forKeyWithSource .metadata key source
    match DiscoveryProtocolRange.initial.highestCompatibleVersion metadata.protocols with
    | none => .error (.forKey .incompatibleProtocol key)
    | some protocolMajor => .ok { key, metadata, port, endpoints, protocolMajor }

/-- The snapshots of the advertisements resolved and not removed since. -/
structure BrowserState where
  peers : Std.ExtTreeMap TransientDiscoveryKey DiscoveredPeer

namespace BrowserState

def default : BrowserState := ⟨∅⟩

def resolve (self : BrowserState) (resolved : RawResolvedService) :
    Except DiscoveryBrowserError (Option DiscoveryBrowserEvent × BrowserState) := do
  let peer ← resolved.peer
  match self.peers[peer.key]? with
  | some previous =>
      if previous = peer then .ok (some (.refreshed peer), self)
      else .ok (some (.updated peer), ⟨self.peers.insert peer.key peer⟩)
  | none => .ok (some (.added peer), ⟨self.peers.insert peer.key peer⟩)

def translate (self : BrowserState) :
    RawBrowserEvent → Option DiscoveryBrowserEvent × BrowserState
  | .resolved resolved =>
      match self.resolve resolved with
      | .ok (some event, self) => (some event, self)
      | .ok (none, self) => (none, self)
      | .error error => (some (.error error), self)
  | .removed fullname =>
      match TransientDiscoveryKey.new fullname with
      | .error error => (some (.error error), self)
      | .ok key =>
          match self.peers[key]? with
          | some _ => (some (.removed key), ⟨self.peers.erase key⟩)
          | none => (none, ⟨self.peers.erase key⟩)
  | .error error => (some (.error error), self)

end BrowserState

end LocalTransfer
