import LocalTransfer.Discovery.Translation
import LocalTransfer.Lib.Hex

/-!
# Advertising

`ServiceSpec` of `advertisement.rs`: the record that a device publishes of itself. It is
built without the validation that the browser makes of every record, through a map that
forgets the order of the entries. Whatever a device advertises, a browser reads back
(`advertised_is_discovered`).
-/

namespace LocalTransfer

open Lib

def localDomainSuffix : Text := ".local.".toList

inductive DiscoveryAdvertisementErrorKind
  | invalidPort
  | metadataEncoding
  | daemonStartup
  | serviceConstruction
  | registration
  | daemon
  | unregister
  | shutdown
  deriving DecidableEq, Repr

/-- The cause of an error: a value that is not UTF-8, or a failure of the mDNS daemon. -/
inductive DiscoveryAdvertisementErrorSource
  | fromUtf8 (value : Bytes)
  | infrastructure (error : DaemonErrorSource)
  deriving DecidableEq, Repr

structure DiscoveryAdvertisementError where
  kind : DiscoveryAdvertisementErrorKind
  source : Option DiscoveryAdvertisementErrorSource
  deriving DecidableEq, Repr

namespace DiscoveryAdvertisementError

def withoutSource (kind : DiscoveryAdvertisementErrorKind) : DiscoveryAdvertisementError :=
  ⟨kind, none⟩

def withSource (kind : DiscoveryAdvertisementErrorKind)
    (source : DiscoveryAdvertisementErrorSource) : DiscoveryAdvertisementError :=
  ⟨kind, some source⟩

end DiscoveryAdvertisementError

structure DiscoveryAdvertisementConfig where
  metadata : DiscoveryMetadata
  port : UInt16
  nonZero : port ≠ 0

def DiscoveryAdvertisementConfig.new (metadata : DiscoveryMetadata) (port : UInt16) :
    Except DiscoveryAdvertisementError DiscoveryAdvertisementConfig :=
  if h : port = 0 then .error (.withoutSource .invalidPort) else .ok ⟨metadata, port, h⟩

/-- Every configuration comes from its metadata and its port, and a zero port from none. -/
theorem DiscoveryAdvertisementConfig.new_eq_ok_iff {metadata : DiscoveryMetadata} {port : UInt16}
    {config : DiscoveryAdvertisementConfig} :
    new metadata port = .ok config ↔ config.metadata = metadata ∧ config.port = port := by
  unfold new
  constructor
  · intro h
    split at h
    · cases h
    · cases h
      exact ⟨rfl, rfl⟩
  · intro h
    obtain ⟨rfl, rfl⟩ := h
    exact dif_neg config.nonZero

structure SessionIdentity where
  label : Text

/-- The identity of a session with a random UUID. -/
def SessionIdentity.random (uuid : Uuid) : SessionIdentity := ⟨"lt-".toList ++ uuid.hyphenated⟩

structure ServiceSpec where
  serviceType : Text
  instanceName : Text
  hostname : Text
  port : UInt16
  properties : Std.ExtTreeMap Text Text

namespace ServiceSpec

/-- An entry as a pair of texts. -/
def property (entry : DiscoveryTxtEntry) : Except DiscoveryAdvertisementError (Text × Text) :=
  match fromUtf8 entry.value with
  | none => .error (.withSource .metadataEncoding (.fromUtf8 entry.value))
  | some value => .ok (entry.key, value)

def new (config : DiscoveryAdvertisementConfig) (identity : SessionIdentity) :
    Except DiscoveryAdvertisementError ServiceSpec :=
  let entries := config.metadata.toTxtEntries
  if totalSize entries > maxDiscoveryTxtBytes then .error (.withoutSource .metadataEncoding)
  else do
    let properties ← entries.mapM property
    .ok {
      serviceType := discoveryServiceType ++ localDomainSuffix
      instanceName := identity.label
      hostname := identity.label ++ localDomainSuffix
      port := config.port
      properties := .ofList properties }

def fullname (self : ServiceSpec) : Text := self.instanceName ++ '.' :: self.serviceType

end ServiceSpec

/-! ## The entries of a device -/

namespace DiscoveryMetadata

/-- The keys and texts of the entries. -/
def properties (self : DiscoveryMetadata) : List (Text × Text) :=
  [(keyDiscoveryVersion, decimal discoverySchemaVersion.toNat),
    (keyProtocolMin, decimal self.protocols.min.toNat),
    (keyProtocolMax, decimal self.protocols.max.toNat)] ++
  (self.name.map fun name => (keyName, name.asStr)).toList ++
  (self.platform.map fun platform => (keyPlatform, platform.asStr)).toList

theorem toTxtEntries_eq (self : DiscoveryMetadata) :
    self.toTxtEntries = self.properties.map fun pair => ⟨pair.1, utf8 pair.2⟩ := by
  obtain ⟨protocols, name, platform⟩ := self
  cases name <;> cases platform <;> rfl

theorem nodup_properties (self : DiscoveryMetadata) : (self.properties.map Prod.fst).Nodup := by
  obtain ⟨protocols, name, platform⟩ := self
  cases name <;> cases platform <;> simp only [properties, Option.map_some, Option.map_none,
    Option.toList_some, Option.toList_none, List.append_nil, List.cons_append, List.nil_append,
    List.map_cons, List.map_nil] <;> decide

/-- A record never takes more than 140 of its 512 bytes. -/
theorem totalSize_toTxtEntries (self : DiscoveryMetadata) : totalSize self.toTxtEntries ≤ 140 := by
  obtain ⟨protocols, name, platform⟩ := self
  have hdecimal : ∀ n : UInt16, byteLen (decimal n.toNat) ≤ 5 := fun n => by
    rw [byteLen_of_isAscii (isAscii_decimal _)]
    exact length_decimal_le n
  have hmin := hdecimal protocols.min
  have hmax := hdecimal protocols.max
  have hname : ∀ hint : DiscoveryNameHint, byteLen hint.asStr ≤ 96 := fun hint => hint.bounded
  have hplatform := DiscoveryPlatformHint.byteLen_asStr_le
  have hversion : byteLen (decimal discoverySchemaVersion.toNat) = 1 := by decide
  have hkeys : byteLen keyDiscoveryVersion = 2 ∧ byteLen keyProtocolMin = 4 ∧
      byteLen keyProtocolMax = 4 ∧ byteLen keyName = 4 ∧ byteLen keyPlatform = 2 := by decide
  cases name <;> cases platform <;>
    simp only [totalSize, toTxtEntries, DiscoveryTxtEntry.emitted, DiscoveryTxtEntry.encodedSize,
      List.append_nil, List.cons_append, List.nil_append, List.map_cons, List.map_nil,
      List.sum_cons, List.sum_nil, length_utf8] <;> grind

theorem valuesOf_toTxtEntries (self : DiscoveryMetadata) (k : KnownKey) :
    valuesOf k self.toTxtEntries = (self.txtValue k).toList := by
  obtain ⟨protocols, name, platform⟩ := self
  have hknown : knownKey keyDiscoveryVersion = some .discoveryVersion ∧
      knownKey keyProtocolMin = some .protocolMin ∧ knownKey keyProtocolMax = some .protocolMax ∧
      knownKey keyName = some .name ∧ knownKey keyPlatform = some .platform := by decide
  obtain ⟨h₁, h₂, h₃, h₄, h₅⟩ := hknown
  cases name <;> cases platform <;> cases k <;>
    simp [valuesOf, toTxtEntries, DiscoveryTxtEntry.emitted, txtValue, h₁, h₂, h₃, h₄, h₅]

end DiscoveryMetadata

/-! ## The published record -/

theorem byteLen_hyphenated (uuid : Uuid) : byteLen uuid.hyphenated = 36 := by
  have hdash : ('-' : Char).utf8Size = 1 := by decide
  simp only [Uuid.hyphenated, byteLen_append, byteLen_cons, byteLen_pushHex, List.length_take,
    List.length_drop, uuid.size, hdash]
  omega

theorem any_isControl_hyphenated (uuid : Uuid) : uuid.hyphenated.any isControl = false := by
  have hdash : isControl '-' = false := by decide
  have hdigits : hexDigits.any isControl = false := by decide +kernel
  have hgroup : ∀ bytes : Bytes, (pushHex bytes).any isControl = false := by
    intro bytes
    rw [List.any_eq_false]
    intro c hc
    exact List.any_eq_false.mp hdigits c (mem_hexDigits_of_mem_pushHex hc)
  simp only [Uuid.hyphenated, List.any_append, List.any_cons, hgroup, hdash, Bool.or_false]

namespace ServiceSpec

theorem mapM_property (pairs : List (Text × Text)) :
    (pairs.map fun pair => (⟨pair.1, utf8 pair.2⟩ : DiscoveryTxtEntry)).mapM property =
      .ok pairs := by
  induction pairs with
  | nil => rfl
  | cons pair pairs ih =>
      have hfirst : property ⟨pair.1, utf8 pair.2⟩ = .ok pair := by
        simp only [property, fromUtf8_utf8]
      rw [List.map_cons, List.mapM_cons, hfirst]
      simp only [bind, Except.bind, ih]
      rfl

/-- The specification of a session, which always exists. -/
theorem new_eq_ok (config : DiscoveryAdvertisementConfig) (identity : SessionIdentity) :
    new config identity = .ok {
      serviceType := discoveryServiceType ++ localDomainSuffix
      instanceName := identity.label
      hostname := identity.label ++ localDomainSuffix
      port := config.port
      properties := .ofList config.metadata.properties } := by
  have hsize := config.metadata.totalSize_toTxtEntries
  have hroom : ¬ totalSize config.metadata.toTxtEntries > maxDiscoveryTxtBytes := by
    simp only [maxDiscoveryTxtBytes]
    omega
  unfold new
  simp only [if_neg hroom]
  rw [DiscoveryMetadata.toTxtEntries_eq, mapM_property]
  rfl

end ServiceSpec

/-- The fullname of a session is a canonical key. -/
theorem SessionIdentity.new_fullname (uuid : Uuid) :
    ∃ key, TransientDiscoveryKey.new ((random uuid).label ++ transientKeySuffix) = .ok key ∧
      key.asStr = (random uuid).label ++ transientKeySuffix := by
  have hlabel : (random uuid).label = "lt-".toList ++ uuid.hyphenated := rfl
  have hstart : byteLen "lt-".toList = 3 ∧ "lt-".toList.any isControl = false := by decide
  have hsuffix : byteLen transientKeySuffix = 28 ∧ transientKeySuffix.any isControl = false := by
    decide
  refine TransientDiscoveryKey.new_append ?_ ?_ ?_ ?_
  · rw [hlabel]
    simp
  · exact eqIgnoreAsciiCase_iff.mpr rfl
  · rw [hlabel, byteLen_append, byteLen_append, byteLen_hyphenated uuid, hstart.1, hsuffix.1]
    decide
  · rw [hlabel, List.any_append, List.any_append, any_isControl_hyphenated uuid, hstart.2,
      hsuffix.2]
    rfl

/-! ## What a browser receives -/

/-- An entry carries a property, whatever the case of its key. -/
def Carries (entry : DiscoveryTxtEntry) (property : Text × Text) : Prop :=
  eqIgnoreAsciiCase entry.key property.1 ∧ entry.value = utf8 property.2

/-- A resolution of a published record: its entries in any order and any case, among entries
of unknown keys as long as the record fits, with up to 16 distinct endpoints. -/
structure Delivers (spec : ServiceSpec) (resolved : RawResolvedService) : Prop where
  fullname : resolved.fullname = spec.fullname
  port : resolved.port = spec.port
  txt : ∃ known extra, resolved.txt.Perm (known ++ extra) ∧
    List.Forall₂ Carries known spec.properties.toList ∧
    ∀ entry ∈ extra, ∀ k : KnownKey, ¬ eqIgnoreAsciiCase entry.key k.text
  size : totalSize resolved.txt ≤ maxDiscoveryTxtBytes
  reachable : 1 ≤ resolved.endpoints.dedup.length
  bounded : resolved.endpoints.dedup.length ≤ maxDiscoveredEndpoints

/-- Entries have the values of the properties they carry. -/
theorem valuesOf_of_carries {known : List DiscoveryTxtEntry} {properties : List (Text × Text)}
    (h : List.Forall₂ Carries known properties) (k : KnownKey) :
    valuesOf k known = valuesOf k (properties.map fun pair => ⟨pair.1, utf8 pair.2⟩) := by
  induction h with
  | nil => rfl
  | cons hcarries hrest ih =>
      rw [List.map_cons, valuesOf_cons, valuesOf_cons, ih, knownKey_congr hcarries.1, hcarries.2]

/-- A delivered record reads as the metadata that was advertised. -/
theorem Delivers.fromTxtEntries_eq {config : DiscoveryAdvertisementConfig} {spec : ServiceSpec}
    {resolved : RawResolvedService} (hspec : spec.properties = .ofList config.metadata.properties)
    (h : Delivers spec resolved) :
    DiscoveryMetadata.fromTxtEntries resolved.txt = .ok config.metadata := by
  obtain ⟨known, extra, hperm, hcarries, hextra⟩ := h.txt
  refine DiscoveryMetadata.fromTxtEntries_eq_ok h.size fun k => ?_
  have hunknown : valuesOf k extra = [] := by
    refine valuesOf_unknown (fun entry hentry => ?_) k
    cases hknown : knownKey entry.key with
    | none => rfl
    | some k' => exact absurd (knownKey_eq_some_iff.mp hknown) (hextra entry hentry k')
  -- the map forgets the order of the entries, which have distinct keys
  have hentries : (spec.properties.toList.map fun pair =>
      (⟨pair.1, utf8 pair.2⟩ : DiscoveryTxtEntry)).Perm config.metadata.toTxtEntries := by
    rw [hspec, DiscoveryMetadata.toTxtEntries_eq]
    exact (toList_ofList_perm config.metadata.nodup_properties).map _
  have hvalues : (valuesOf k resolved.txt).Perm (config.metadata.txtValue k).toList := by
    calc (valuesOf k resolved.txt).Perm (valuesOf k (known ++ extra)) := valuesOf_perm hperm k
      _ = valuesOf k known := by rw [valuesOf_append, hunknown, List.append_nil]
      _ = valuesOf k (spec.properties.toList.map fun pair => ⟨pair.1, utf8 pair.2⟩) :=
        valuesOf_of_carries hcarries k
      List.Perm _ (valuesOf k config.metadata.toTxtEntries) := valuesOf_perm hentries k
      _ = (config.metadata.txtValue k).toList := config.metadata.valuesOf_toTxtEntries k
  cases hvalue : config.metadata.txtValue k with
  | none =>
      rw [hvalue] at hvalues
      exact hvalues.eq_nil
  | some value =>
      rw [hvalue] at hvalues
      exact hvalues.eq_singleton

theorem length_endpointSet (endpoints : List DiscoveryEndpoint) :
    (endpointSet endpoints).length = endpoints.dedup.length :=
  length_sortByKey _

/-- Letters are allowed in keys. -/
theorem all_isKeyByte {key : Text} (h : ∀ c ∈ key, 65 ≤ c.toNat ∧ c.toNat ≤ 122) :
    (utf8 key).all DiscoveryTxtEntry.isKeyByte = true := by
  rw [List.all_eq_true]
  intro byte hbyte
  obtain ⟨c, hc, hmem⟩ := List.mem_flatMap.mp hbyte
  have hrange := h c hc
  rw [String.utf8EncodeChar_eq_singleton (utf8Size_eq_one (by omega)), List.mem_singleton] at hmem
  have hval : byte.toNat = c.toNat := by
    rw [hmem, UInt32.toNat_toUInt8]
    exact Nat.mod_eq_of_lt (show c.toNat < 256 by omega)
  simp only [DiscoveryTxtEntry.isKeyByte, Bool.and_eq_true, decide_eq_true_eq,
    UInt8.le_iff_toNat_le, bne_iff_ne, ne_eq, ← UInt8.toNat_inj, hval]
  exact ⟨⟨Nat.le_trans (by decide) hrange.1, Nat.le_trans hrange.2 (by decide)⟩,
    fun heq => by rw [heq] at hrange; exact absurd hrange.1 (by decide)⟩

namespace DiscoveryMetadata

/-- Every property is a known field of the metadata, under its key. -/
theorem exists_of_mem_properties (self : DiscoveryMetadata) {property : Text × Text}
    (h : property ∈ self.properties) :
    ∃ k : KnownKey, property.1 = k.text ∧ self.txtValue k = some (utf8 property.2) := by
  simp only [properties, List.cons_append, List.nil_append, List.mem_cons, List.mem_append,
    Option.mem_toList, Option.map_eq_some_iff] at h
  rcases h with rfl | rfl | rfl | hname | hplatform
  · exact ⟨.discoveryVersion, rfl, rfl⟩
  · exact ⟨.protocolMin, rfl, rfl⟩
  · exact ⟨.protocolMax, rfl, rfl⟩
  · obtain ⟨name, hsome, rfl⟩ := hname
    exact ⟨.name, rfl, by rw [txtValue, hsome]; rfl⟩
  · obtain ⟨platform, hsome, rfl⟩ := hplatform
    exact ⟨.platform, rfl, by rw [txtValue, hsome]; rfl⟩

theorem length_le_of_txtValue (self : DiscoveryMetadata) {k : KnownKey} {value : Bytes}
    (h : self.txtValue k = some value) : value.length ≤ maxDiscoveryNameBytes := by
  have hdecimal : ∀ n : UInt16, byteLen (decimal n.toNat) ≤ maxDiscoveryNameBytes := by
    intro n
    rw [byteLen_of_isAscii (isAscii_decimal _)]
    exact Nat.le_trans (length_decimal_le n) (by decide)
  cases k with
  | discoveryVersion =>
      cases h
      exact hdecimal discoverySchemaVersion
  | protocolMin =>
      cases h
      exact hdecimal self.protocols.min
  | protocolMax =>
      cases h
      exact hdecimal self.protocols.max
  | name =>
      obtain ⟨name, -, rfl⟩ := Option.map_eq_some_iff.mp h
      exact name.bounded
  | platform =>
      obtain ⟨platform, -, rfl⟩ := Option.map_eq_some_iff.mp h
      exact Nat.le_trans platform.byteLen_asStr_le (by decide)

/-- The browser's own check of an entry admits the entries of this release, in any case. -/
theorem new_of_carries (self : DiscoveryMetadata) {entry : DiscoveryTxtEntry}
    {property : Text × Text} (hproperty : property ∈ self.properties)
    (h : Carries entry property) : DiscoveryTxtEntry.new entry.key entry.value = .ok entry := by
  obtain ⟨k, hkey, hvalue⟩ := self.exists_of_mem_properties hproperty
  have hcase : eqIgnoreAsciiCase entry.key k.text := hkey ▸ h.1
  have hlower : ∀ k : KnownKey, k.text.all (fun c =>
      97 ≤ c.toLower.toNat && c.toLower.toNat ≤ 122) = true := by
    intro k
    cases k <;> decide
  have hletters : ∀ c ∈ entry.key, 65 ≤ c.toNat ∧ c.toNat ≤ 122 := by
    intro c hc
    refine isAlpha_of_eqIgnoreAsciiCase hcase (fun d hd => ?_) hc
    have := List.all_eq_true.mp (hlower k) d hd
    simpa using this
  have hkeySize : ∀ k : KnownKey, 1 ≤ byteLen k.text ∧ byteLen k.text ≤ 4 := by
    intro k
    cases k <;> decide
  have hsize := byteLen_of_eqIgnoreAsciiCase hcase
  have hfield := self.length_le_of_txtValue hvalue
  have hnonempty : entry.key ≠ [] := by
    intro hnil
    have := hkeySize k
    rw [← hsize, hnil, byteLen_nil] at this
    omega
  have hroom : ¬ byteLen entry.key + 1 + entry.value.length > maxDiscoveryTxtEntryBytes := by
    have := hkeySize k
    rw [hsize, h.2]
    simp only [maxDiscoveryNameBytes] at hfield
    simp only [maxDiscoveryTxtEntryBytes]
    omega
  unfold DiscoveryTxtEntry.new
  rw [if_neg (by rw [all_isKeyByte hletters]; simpa using hnonempty)]
  exact if_neg hroom

end DiscoveryMetadata

/-! ## Both ends -/

section Published

variable {config : DiscoveryAdvertisementConfig} {spec : ServiceSpec}
  {resolved : RawResolvedService} {key : TransientDiscoveryKey}

/-- The peer that a delivered record describes. -/
def deliveredPeer (config : DiscoveryAdvertisementConfig) (key : TransientDiscoveryKey)
    (resolved : RawResolvedService) : DiscoveredPeer where
  key := key
  metadata := config.metadata
  port := ⟨config.port, config.nonZero⟩
  endpoints := endpointSet resolved.endpoints
  protocolMajor := initialProtocolMajor

theorem Delivers.resolvesTo (h : Delivers spec resolved)
    (hproperties : spec.properties = .ofList config.metadata.properties)
    (hport : spec.port = config.port) (hkey : TransientDiscoveryKey.new spec.fullname = .ok key)
    (hsupports : config.metadata.protocols.Supports initialProtocolMajor) :
    ResolvesTo resolved (deliveredPeer config key resolved) where
  key := h.fullname ▸ hkey
  port := h.port.trans hport
  endpoints := rfl
  reachable := List.length_pos_iff.mp (length_endpointSet _ ▸ h.reachable)
  bounded := length_endpointSet _ ▸ h.bounded
  metadata := h.fromTxtEntries_eq hproperties
  compatible := by
    apply DiscoveryProtocolRange.highestCompatibleVersion_eq_some_iff.mp
    show DiscoveryProtocolRange.initial.highestCompatibleVersion config.metadata.protocols = _
    rw [DiscoveryProtocolRange.initial_highestCompatibleVersion]
    exact if_pos hsupports

/-- Every validation but the last passes, whatever the range. -/
theorem Delivers.peer_eq_error (h : Delivers spec resolved)
    (hproperties : spec.properties = .ofList config.metadata.properties)
    (hport : spec.port = config.port) (hkey : TransientDiscoveryKey.new spec.fullname = .ok key)
    (hsupports : ¬ config.metadata.protocols.Supports initialProtocolMajor) :
    resolved.peer = .error (.forKey .incompatibleProtocol key) := by
  have hport' : resolved.port ≠ 0 := by
    rw [h.port, hport]
    exact config.nonZero
  have hreachable : ¬ (endpointSet resolved.endpoints).isEmpty := by
    intro hempty
    have hnone := length_endpointSet resolved.endpoints
    rw [List.isEmpty_iff.mp hempty, List.length_nil] at hnone
    have := h.reachable
    omega
  have hbounded : ¬ (endpointSet resolved.endpoints).length > maxDiscoveredEndpoints := by
    rw [length_endpointSet]
    exact Nat.not_lt.mpr h.bounded
  have hmajor : DiscoveryProtocolRange.initial.highestCompatibleVersion
      config.metadata.protocols = none := by
    rw [DiscoveryProtocolRange.initial_highestCompatibleVersion]
    exact if_neg hsupports
  unfold RawResolvedService.peer
  rw [h.fullname, hkey]
  simp only [bind, Except.bind]
  rw [dif_neg hport', if_neg hreachable, if_neg hbounded, h.fromTxtEntries_eq hproperties]
  simp only [Except.mapError, hmajor]

/-- A record delivered as it was published, from one endpoint. -/
def ServiceSpec.delivery (spec : ServiceSpec) (endpoint : DiscoveryEndpoint) :
    RawResolvedService where
  fullname := spec.fullname
  port := spec.port
  endpoints := [endpoint]
  txt := spec.properties.toList.map fun pair => ⟨pair.1, utf8 pair.2⟩

theorem ServiceSpec.delivers_delivery
    (hproperties : spec.properties = .ofList config.metadata.properties)
    (endpoint : DiscoveryEndpoint) : Delivers spec (spec.delivery endpoint) := by
  refine ⟨rfl, rfl, ?_, ?_, ?_, ?_⟩
  · refine ⟨(spec.delivery endpoint).txt, [], by simp, ?_, by simp⟩
    show List.Forall₂ Carries (spec.properties.toList.map _) spec.properties.toList
    rw [List.forall₂_map_left_iff, List.forall₂_same]
    intro pair _
    exact ⟨eqIgnoreAsciiCase_refl _, rfl⟩
  · have hperm : (spec.delivery endpoint).txt.Perm config.metadata.toTxtEntries := by
      rw [delivery, hproperties, DiscoveryMetadata.toTxtEntries_eq]
      exact (toList_ofList_perm config.metadata.nodup_properties).map _
    have hsize : totalSize (spec.delivery endpoint).txt = totalSize config.metadata.toTxtEntries :=
      (hperm.map DiscoveryTxtEntry.encodedSize).sum_eq
    have := config.metadata.totalSize_toTxtEntries
    rw [hsize, maxDiscoveryTxtBytes]
    omega
  · exact Nat.le_refl 1
  · show 1 ≤ 16
    omega

end Published

/-- For every configuration and every session: the record is published, its entries pass the
checks of any receiver, and every browser that receives it, with its entries in any order and
case and among unknown ones, finds the peer that was configured, or reports that no protocol
major is shared. -/
theorem advertised_is_discovered (config : DiscoveryAdvertisementConfig) (uuid : Uuid) :
    ∃ spec key, ServiceSpec.new config (.random uuid) = .ok spec ∧
      TransientDiscoveryKey.new spec.fullname = .ok key ∧
      (∀ property ∈ spec.properties.toList, ∀ entry, Carries entry property →
        DiscoveryTxtEntry.new entry.key entry.value = .ok entry) ∧
      (∀ endpoint, Delivers spec (spec.delivery endpoint)) ∧
      ∀ resolved, Delivers spec resolved → ∀ browser : BrowserState,
        (config.metadata.protocols.Supports initialProtocolMajor →
          ∃ peer : DiscoveredPeer, peer.key = key ∧ peer.metadata = config.metadata ∧
            peer.port.1 = config.port ∧
            ((browser.translate (.resolved resolved)).1 = some (.added peer) ∨
              (browser.translate (.resolved resolved)).1 = some (.updated peer) ∨
              (browser.translate (.resolved resolved)).1 = some (.refreshed peer))) ∧
        (¬ config.metadata.protocols.Supports initialProtocolMajor →
          (browser.translate (.resolved resolved)).1 =
            some (.error (.forKey .incompatibleProtocol key))) := by
  obtain ⟨key, hnew, -⟩ := SessionIdentity.new_fullname uuid
  refine ⟨_, key, ServiceSpec.new_eq_ok config _, hnew, ?_, ?_, ?_⟩
  · intro property hproperty entry hcarries
    refine config.metadata.new_of_carries ?_ hcarries
    exact (toList_ofList_perm config.metadata.nodup_properties).mem_iff.mp hproperty
  · intro endpoint
    exact ServiceSpec.delivers_delivery rfl endpoint
  · intro resolved hdelivers browser
    constructor
    · intro hsupports
      have hvalid := hdelivers.resolvesTo rfl rfl hnew hsupports
      exact ⟨deliveredPeer config key resolved, rfl, rfl, rfl,
        (BrowserState.announced_of_resolvesTo hvalid).1⟩
    · intro hsupports
      have hinvalid := hdelivers.peer_eq_error rfl rfl hnew hsupports
      exact BrowserState.emitted_eq_iff.mpr ⟨_, .invalid hinvalid⟩

end LocalTransfer
