import LocalTransfer.Discovery.Keys
import LocalTransfer.Discovery.TxtFormat
import LocalTransfer.Lib.TreeMap

/-!
# Translating raw events

`BrowserState::translate` over whole runs. A resolution is valid when it describes a peer
(`ResolvesTo`), and only a valid one is stored; the emitted events say exactly how the map
changes (`translateAll_explained`). What a resolution describes depends neither on the order
or repetition of its parts nor on the case of its suffix (`translate_sameResolution`).
-/

namespace LocalTransfer

open Lib

/-! ## Protocol ranges -/

namespace DiscoveryProtocolRange

/-- A protocol major within the range. -/
def Supports (range : DiscoveryProtocolRange) (major : UInt16) : Prop :=
  range.min ≤ major ∧ major ≤ range.max

/-- The greatest of the majors that both ranges support. -/
def IsHighestShared (range other : DiscoveryProtocolRange) (major : UInt16) : Prop :=
  range.Supports major ∧ other.Supports major ∧
    ∀ m, range.Supports m → other.Supports m → m ≤ major

theorem highestCompatibleVersion_eq_some_iff {range other : DiscoveryProtocolRange}
    {major : UInt16} :
    range.highestCompatibleVersion other = some major ↔ IsHighestShared range other major := by
  have hdef : range.highestCompatibleVersion other =
      if (if range.min ≤ other.min then other.min else range.min) ≤
          (if range.max ≤ other.max then range.max else other.max)
      then some (if range.max ≤ other.max then range.max else other.max) else none := rfl
  have hself := UInt16.le_iff_toNat_le.mp range.ordered
  have hother := UInt16.le_iff_toNat_le.mp other.ordered
  rw [hdef]
  simp only [IsHighestShared, Supports, UInt16.le_iff_toNat_le]
  constructor
  · intro h
    obtain ⟨hle, hsome⟩ := Option.ite_none_right_eq_some.mp h
    cases hsome
    refine ⟨?_, ?_, ?_⟩
    · split_ifs at hle ⊢ <;> omega
    · split_ifs at hle ⊢ <;> omega
    · intro m hm hm'
      split_ifs <;> omega
  · intro h
    obtain ⟨hmem, hmem', hbound⟩ := h
    -- the smaller maximum is supported too, because `major` is
    have htop := hbound (if range.max.toNat ≤ other.max.toNat then range.max else other.max)
      (by split_ifs <;> omega) (by split_ifs <;> omega)
    have heq : (if range.max.toNat ≤ other.max.toNat then range.max else other.max) = major := by
      rw [← UInt16.toNat_inj]
      split_ifs at htop ⊢ <;> omega
    rw [heq, if_pos (by split_ifs <;> omega)]

end DiscoveryProtocolRange

/-! ## Endpoint sets -/

theorem DiscoveryEndpoint.sortKey_injective : Function.Injective DiscoveryEndpoint.sortKey := by
  intro a b h
  obtain ⟨address, scope⟩ := a
  obtain ⟨address', scope'⟩ := b
  cases address <;> cases address' <;> cases scope <;> cases scope' <;>
    simp_all [DiscoveryEndpoint.sortKey, BitVec.toNat_inj, UInt32.toNat_inj]

theorem mem_endpointSet {endpoints : List DiscoveryEndpoint} {endpoint : DiscoveryEndpoint} :
    endpoint ∈ endpointSet endpoints ↔ endpoint ∈ endpoints := by
  rw [endpointSet, mem_sortByKey, List.mem_dedup]

theorem strictlyOrdered_endpointSet (endpoints : List DiscoveryEndpoint) :
    StrictlyOrdered DiscoveryEndpoint.sortKey (endpointSet endpoints) :=
  strictlyOrdered_sortByKey
    ((List.nodup_dedup endpoints).map DiscoveryEndpoint.sortKey_injective)

/-- The set depends on the members of the list only. -/
theorem endpointSet_congr {endpoints endpoints' : List DiscoveryEndpoint}
    (h : ∀ endpoint, endpoint ∈ endpoints ↔ endpoint ∈ endpoints') :
    endpointSet endpoints = endpointSet endpoints' := by
  refine (strictlyOrdered_endpointSet endpoints).ext (strictlyOrdered_endpointSet endpoints') ?_
  intro endpoint
  rw [mem_endpointSet, mem_endpointSet, h endpoint]

/-! ## Valid resolutions -/

/-- The resolution passes the five validations, and this is the peer it describes. -/
structure ResolvesTo (resolved : RawResolvedService) (peer : DiscoveredPeer) : Prop where
  key : TransientDiscoveryKey.new resolved.fullname = .ok peer.key
  port : resolved.port = peer.port.1
  endpoints : peer.endpoints = endpointSet resolved.endpoints
  reachable : peer.endpoints ≠ []
  bounded : peer.endpoints.length ≤ maxDiscoveredEndpoints
  metadata : DiscoveryMetadata.fromTxtEntries resolved.txt = .ok peer.metadata
  compatible : DiscoveryProtocolRange.IsHighestShared .initial peer.metadata.protocols
    peer.protocolMajor

theorem RawResolvedService.peer_eq_ok_iff {resolved : RawResolvedService} {peer : DiscoveredPeer} :
    resolved.peer = .ok peer ↔ ResolvesTo resolved peer := by
  constructor
  · intro h
    unfold RawResolvedService.peer at h
    cases hkey : TransientDiscoveryKey.new resolved.fullname with
    | error error =>
        rw [hkey] at h
        cases h
    | ok key =>
        rw [hkey] at h
        simp only [bind, Except.bind] at h
        by_cases hport : resolved.port = 0
        · rw [dif_pos hport] at h
          cases h
        · rw [dif_neg hport] at h
          by_cases hempty : (endpointSet resolved.endpoints).isEmpty
          · rw [if_pos hempty] at h
            cases h
          · rw [if_neg hempty] at h
            by_cases hmany : (endpointSet resolved.endpoints).length > maxDiscoveredEndpoints
            · rw [if_pos hmany] at h
              cases h
            · rw [if_neg hmany] at h
              cases hread : DiscoveryMetadata.fromTxtEntries resolved.txt with
              | error source =>
                  rw [hread] at h
                  cases h
              | ok metadata =>
                  rw [hread] at h
                  simp only [Except.mapError] at h
                  split at h
                  · cases h
                  · next major hmajor =>
                      cases h
                      exact ⟨hkey, rfl, rfl, fun hnil => hempty (List.isEmpty_iff.mpr hnil),
                        Nat.not_lt.mp hmany, hread,
                        DiscoveryProtocolRange.highestCompatibleVersion_eq_some_iff.mp hmajor⟩
  · intro h
    obtain ⟨key, metadata, port, endpoints, major⟩ := peer
    obtain ⟨hkey, hport, rfl, hreachable, hbounded, hread, hshared⟩ := h
    have hmajor := DiscoveryProtocolRange.highestCompatibleVersion_eq_some_iff.mpr hshared
    simp only at hkey hport hreachable hbounded hread hmajor
    have hport' : resolved.port ≠ 0 := hport ▸ port.2
    unfold RawResolvedService.peer
    rw [hkey]
    simp only [bind, Except.bind]
    rw [dif_neg hport', if_neg (fun hempty => hreachable (List.isEmpty_iff.mp hempty)),
      if_neg (Nat.not_lt.mpr hbounded), hread]
    simp only [Except.mapError, hmajor]
    simp only [hport]

theorem ResolvesTo.unique {resolved : RawResolvedService} {peer peer' : DiscoveredPeer}
    (h : ResolvesTo resolved peer) (h' : ResolvesTo resolved peer') : peer = peer' :=
  Except.ok.inj ((RawResolvedService.peer_eq_ok_iff.mpr h).symm.trans
    (RawResolvedService.peer_eq_ok_iff.mpr h'))

/-! ## One event -/

namespace BrowserState

variable {self : BrowserState} {event : RawBrowserEvent}

/-- What `translate` can do with an event. -/
inductive Translates (self : BrowserState) :
    RawBrowserEvent → Option DiscoveryBrowserEvent → BrowserState → Prop
  | added {resolved : RawResolvedService} {peer : DiscoveredPeer}
      (hvalid : ResolvesTo resolved peer)
      (habsent : self.peers[peer.key]? = none) :
      Translates self (.resolved resolved) (some (.added peer)) ⟨self.peers.insert peer.key peer⟩
  | updated {resolved : RawResolvedService} {peer previous : DiscoveredPeer}
      (hvalid : ResolvesTo resolved peer)
      (hstored : self.peers[peer.key]? = some previous) (hne : previous ≠ peer) :
      Translates self (.resolved resolved) (some (.updated peer)) ⟨self.peers.insert peer.key peer⟩
  | refreshed {resolved : RawResolvedService} {peer : DiscoveredPeer}
      (hvalid : ResolvesTo resolved peer)
      (hstored : self.peers[peer.key]? = some peer) :
      Translates self (.resolved resolved) (some (.refreshed peer)) self
  | invalid {resolved : RawResolvedService} {error : DiscoveryBrowserError}
      (hinvalid : resolved.peer = .error error) :
      Translates self (.resolved resolved) (some (.error error)) self
  | removed {fullname : Text} {key : TransientDiscoveryKey} {peer : DiscoveredPeer}
      (hkey : TransientDiscoveryKey.new fullname = .ok key)
      (hstored : self.peers[key]? = some peer) :
      Translates self (.removed fullname) (some (.removed key)) ⟨self.peers.erase key⟩
  | absent {fullname : Text} {key : TransientDiscoveryKey}
      (hkey : TransientDiscoveryKey.new fullname = .ok key)
      (habsent : self.peers[key]? = none) :
      Translates self (.removed fullname) none self
  | malformed {fullname : Text} {error : DiscoveryBrowserError}
      (hkey : TransientDiscoveryKey.new fullname = .error error) :
      Translates self (.removed fullname) (some (.error error)) self
  | failed {error : DiscoveryBrowserError} :
      Translates self (.error error) (some (.error error)) self

theorem translate_spec (self : BrowserState) (event : RawBrowserEvent) :
    Translates self event (self.translate event).1 (self.translate event).2 := by
  cases event with
  | resolved resolved =>
      cases hpeer : resolved.peer with
      | error error =>
          have hstep : self.translate (.resolved resolved) = (some (.error error), self) := by
            simp [translate, resolve, hpeer, bind, Except.bind]
          rw [hstep]
          exact .invalid hpeer
      | ok peer =>
          have hvalid := RawResolvedService.peer_eq_ok_iff.mp hpeer
          cases hstored : self.peers[peer.key]? with
          | none =>
              have hstep : self.translate (.resolved resolved) =
                  (some (.added peer), ⟨self.peers.insert peer.key peer⟩) := by
                simp [translate, resolve, hpeer, hstored, bind, Except.bind]
              rw [hstep]
              exact .added hvalid hstored
          | some previous =>
              by_cases heq : previous = peer
              · have hstep : self.translate (.resolved resolved) =
                    (some (.refreshed peer), self) := by
                  simp [translate, resolve, hpeer, hstored, heq, bind, Except.bind]
                rw [hstep]
                exact .refreshed hvalid (heq ▸ hstored)
              · have hstep : self.translate (.resolved resolved) =
                    (some (.updated peer), ⟨self.peers.insert peer.key peer⟩) := by
                  simp [translate, resolve, hpeer, hstored, heq, bind, Except.bind]
                rw [hstep]
                exact .updated hvalid hstored heq
  | removed fullname =>
      cases hkey : TransientDiscoveryKey.new fullname with
      | error error =>
          have hstep : self.translate (.removed fullname) = (some (.error error), self) := by
            simp [translate, hkey]
          rw [hstep]
          exact .malformed hkey
      | ok key =>
          cases hstored : self.peers[key]? with
          | none =>
              have hstep : self.translate (.removed fullname) = (none, self) := by
                simp [translate, hkey, hstored, erase_of_absent hstored]
              rw [hstep]
              exact .absent hkey hstored
          | some peer =>
              have hstep : self.translate (.removed fullname) =
                  (some (.removed key), ⟨self.peers.erase key⟩) := by
                simp [translate, hkey, hstored]
              rw [hstep]
              exact .removed hkey hstored
  | error error => exact .failed

/-- The cases exclude one another. -/
theorem Translates.unique {e e' : Option DiscoveryBrowserEvent}
    {s s' : BrowserState} (h : Translates self event e s) (h' : Translates self event e' s') :
    e = e' ∧ s = s' := by
  have hdiff : ∀ {resolved peer error}, ResolvesTo resolved peer → resolved.peer ≠ .error error :=
    fun hpeer herror => by
      rw [RawResolvedService.peer_eq_ok_iff.mpr hpeer] at herror
      cases herror
  cases h <;> cases h' <;> grind [ResolvesTo.unique]

theorem translate_eq_iff {emitted : Option DiscoveryBrowserEvent}
    {next : BrowserState} :
    self.translate event = (emitted, next) ↔ Translates self event emitted next := by
  constructor
  · intro h
    have := translate_spec self event
    rw [h] at this
    exact this
  · intro h
    obtain ⟨hemitted, hnext⟩ := (translate_spec self event).unique h
    exact Prod.ext hemitted hnext

/-! ## Whole runs -/

/-- The events a run emits, and the state it ends in. -/
def translateAll (self : BrowserState) :
    List RawBrowserEvent → List DiscoveryBrowserEvent × BrowserState
  | [] => ([], self)
  | event :: events =>
      let (emitted, next) := self.translate event
      let (rest, last) := next.translateAll events
      (emitted.toList ++ rest, last)

/-- What an emitted event says about the stored peers. -/
def replay (peers : Std.ExtTreeMap TransientDiscoveryKey DiscoveredPeer) :
    DiscoveryBrowserEvent → Std.ExtTreeMap TransientDiscoveryKey DiscoveredPeer
  | .added peer | .updated peer | .refreshed peer => peers.insert peer.key peer
  | .removed key => peers.erase key
  | .error _ => peers

theorem replay_translate (self : BrowserState) (event : RawBrowserEvent) :
    (self.translate event).1.toList.foldl replay self.peers = (self.translate event).2.peers := by
  have hspec := translate_spec self event
  generalize (self.translate event).1 = emitted at hspec ⊢
  generalize (self.translate event).2 = next at hspec ⊢
  cases hspec with
  | added hvalid habsent => rfl
  | updated hvalid hstored hne => rfl
  | refreshed hvalid hstored => exact insert_of_stored hstored
  | invalid hinvalid => rfl
  | removed hkey hstored => rfl
  | absent hkey habsent => rfl
  | malformed hkey => rfl
  | failed => rfl

theorem replay_translateAll (self : BrowserState) (events : List RawBrowserEvent) :
    (self.translateAll events).1.foldl replay self.peers = (self.translateAll events).2.peers := by
  induction events generalizing self with
  | nil => rfl
  | cons event events ih =>
      rw [translateAll, List.foldl_append, replay_translate]
      exact ih _

/-- What holds of every peer the browser stores. -/
structure StoredPeer (key : TransientDiscoveryKey) (peer : DiscoveredPeer) : Prop where
  key : peer.key = key
  port : peer.port.1 ≠ 0
  reachable : 1 ≤ peer.endpoints.length
  bounded : peer.endpoints.length ≤ maxDiscoveredEndpoints
  ordered : StrictlyOrdered DiscoveryEndpoint.sortKey peer.endpoints
  range : peer.metadata.protocols.min ≤ peer.metadata.protocols.max
  major : peer.metadata.protocols.Supports peer.protocolMajor
  highest : DiscoveryProtocolRange.IsHighestShared .initial peer.metadata.protocols
    peer.protocolMajor

theorem storedPeer_of_resolvesTo {resolved : RawResolvedService} {peer : DiscoveredPeer}
    (h : ResolvesTo resolved peer) : StoredPeer peer.key peer := by
  refine ⟨rfl, peer.port.2, List.length_pos_iff.mpr h.reachable, h.bounded, ?_,
    peer.metadata.protocols.ordered, h.compatible.2.1, h.compatible⟩
  rw [h.endpoints]
  exact strictlyOrdered_endpointSet resolved.endpoints

/-- Every stored peer is well formed. -/
def WellFormed (self : BrowserState) : Prop :=
  ∀ (key : TransientDiscoveryKey) peer, self.peers[key]? = some peer → StoredPeer key peer

theorem wellFormed_default : WellFormed default := by
  intro key peer h
  simp [default] at h

theorem wellFormed_insert (h : WellFormed self) {peer : DiscoveredPeer}
    (hpeer : StoredPeer peer.key peer) : WellFormed ⟨self.peers.insert peer.key peer⟩ := by
  intro key peer' hstored
  rw [Std.ExtTreeMap.getElem?_insert] at hstored
  split at hstored
  · next heq =>
      cases hstored
      rw [← compare_eq_iff_eq.mp heq]
      exact hpeer
  · exact h key peer' hstored

theorem WellFormed.translate (h : WellFormed self) (event : RawBrowserEvent) :
    WellFormed (self.translate event).2 := by
  have hspec := translate_spec self event
  generalize (self.translate event).1 = emitted at hspec
  generalize (self.translate event).2 = next at hspec ⊢
  cases hspec with
  | added hvalid habsent => exact wellFormed_insert h (storedPeer_of_resolvesTo hvalid)
  | updated hvalid hstored hne => exact wellFormed_insert h (storedPeer_of_resolvesTo hvalid)
  | refreshed hvalid hstored => exact h
  | invalid hinvalid => exact h
  | removed hkey hstored =>
      intro key peer hrest
      rw [Std.ExtTreeMap.getElem?_erase] at hrest
      split at hrest
      · cases hrest
      · exact h key peer hrest
  | absent hkey habsent => exact h
  | malformed hkey => exact h
  | failed => exact h

theorem WellFormed.translateAll (h : WellFormed self) (events : List RawBrowserEvent) :
    WellFormed (self.translateAll events).2 := by
  induction events generalizing self with
  | nil => exact h
  | cons event events ih => exact ih (h.translate event)

/-- A valid resolution announces its peer and leaves it stored. -/
theorem announced_of_resolvesTo {resolved : RawResolvedService} {peer : DiscoveredPeer}
    (h : ResolvesTo resolved peer) :
    ((self.translate (.resolved resolved)).1 = some (.added peer) ∨
      (self.translate (.resolved resolved)).1 = some (.updated peer) ∨
      (self.translate (.resolved resolved)).1 = some (.refreshed peer)) ∧
    (self.translate (.resolved resolved)).2.peers[peer.key]? = some peer := by
  cases hstored : self.peers[peer.key]? with
  | none =>
      rw [translate_eq_iff.mpr (.added h hstored)]
      exact ⟨.inl rfl, Std.ExtTreeMap.getElem?_insert_self⟩
  | some previous =>
      by_cases heq : previous = peer
      · have hsame : self.peers[peer.key]? = some peer := heq ▸ hstored
        rw [translate_eq_iff.mpr (.refreshed h hsame)]
        exact ⟨.inr (.inr rfl), hsame⟩
      · rw [translate_eq_iff.mpr (.updated h hstored heq)]
        exact ⟨.inr (.inl rfl), Std.ExtTreeMap.getElem?_insert_self⟩

theorem emitted_eq_iff {emitted : Option DiscoveryBrowserEvent} :
    (self.translate event).1 = emitted ↔ ∃ next, Translates self event emitted next := by
  constructor
  · intro h
    exact ⟨_, h ▸ translate_spec self event⟩
  · intro h
    obtain ⟨next, hstep⟩ := h
    rw [translate_eq_iff.mpr hstep]

/-- When each event is emitted, and when the map stays as it is. -/
structure EmitsExactly (self : BrowserState) (event : RawBrowserEvent) : Prop where
  added : ∀ peer, (self.translate event).1 = some (.added peer) ↔
    ∃ resolved, event = .resolved resolved ∧ ResolvesTo resolved peer ∧
      self.peers[peer.key]? = none
  updated : ∀ peer, (self.translate event).1 = some (.updated peer) ↔
    ∃ resolved previous, event = .resolved resolved ∧ ResolvesTo resolved peer ∧
      self.peers[peer.key]? = some previous ∧ previous ≠ peer
  refreshed : ∀ peer, (self.translate event).1 = some (.refreshed peer) ↔
    ∃ resolved, event = .resolved resolved ∧ ResolvesTo resolved peer ∧
      self.peers[peer.key]? = some peer
  removed : ∀ key, (self.translate event).1 = some (.removed key) ↔
    ∃ fullname peer, event = .removed fullname ∧ TransientDiscoveryKey.new fullname = .ok key ∧
      self.peers[key]? = some peer
  error : ∀ error, (self.translate event).1 = some (.error error) →
    (self.translate event).2 = self
  silent : (self.translate event).1 = none → (self.translate event).2 = self

theorem translate_emitsExactly (self : BrowserState) (event : RawBrowserEvent) :
    EmitsExactly self event where
  added peer := by
    constructor
    · intro h
      obtain ⟨next, hstep⟩ := emitted_eq_iff.mp h
      cases hstep with
      | added hvalid habsent => exact ⟨_, rfl, hvalid, habsent⟩
    · intro h
      obtain ⟨resolved, rfl, hvalid, habsent⟩ := h
      exact emitted_eq_iff.mpr ⟨_, .added hvalid habsent⟩
  updated peer := by
    constructor
    · intro h
      obtain ⟨next, hstep⟩ := emitted_eq_iff.mp h
      cases hstep with
      | updated hvalid hstored hne => exact ⟨_, _, rfl, hvalid, hstored, hne⟩
    · intro h
      obtain ⟨resolved, previous, rfl, hvalid, hstored, hne⟩ := h
      exact emitted_eq_iff.mpr ⟨_, .updated hvalid hstored hne⟩
  refreshed peer := by
    constructor
    · intro h
      obtain ⟨next, hstep⟩ := emitted_eq_iff.mp h
      cases hstep with
      | refreshed hvalid hstored => exact ⟨_, rfl, hvalid, hstored⟩
    · intro h
      obtain ⟨resolved, rfl, hvalid, hstored⟩ := h
      exact emitted_eq_iff.mpr ⟨_, .refreshed hvalid hstored⟩
  removed key := by
    constructor
    · intro h
      obtain ⟨next, hstep⟩ := emitted_eq_iff.mp h
      cases hstep with
      | removed hkey hstored => exact ⟨_, _, rfl, hkey, hstored⟩
    · intro h
      obtain ⟨fullname, peer, rfl, hkey, hstored⟩ := h
      exact emitted_eq_iff.mpr ⟨_, .removed hkey hstored⟩
  error error h := by
    obtain ⟨next, hstep⟩ := emitted_eq_iff.mp h
    rw [translate_eq_iff.mpr hstep]
    cases hstep <;> rfl
  silent h := by
    obtain ⟨next, hstep⟩ := emitted_eq_iff.mp h
    rw [translate_eq_iff.mpr hstep]
    cases hstep
    rfl

/-- For every sequence of raw events: the peers stored after it are well formed, the next
event is announced exactly as it changes them, and replaying what was emitted from the empty
map gives them. -/
theorem translateAll_explained (events : List RawBrowserEvent) :
    WellFormed (default.translateAll events).2 ∧
    (∀ event, EmitsExactly (default.translateAll events).2 event) ∧
    (default.translateAll events).1.foldl replay ∅ = (default.translateAll events).2.peers := by
  refine ⟨wellFormed_default.translateAll events, ?_, replay_translateAll default events⟩
  intro event
  exact translate_emitsExactly _ event

/-- A device as the backend resolves it. -/
def deskMetadata : DiscoveryMetadata := ⟨.initial, none, none⟩

def desk : RawResolvedService where
  fullname := "Desk".toList ++ transientKeySuffix
  port := 4242
  endpoints := [⟨.v4 1, none⟩, ⟨.v4 2, none⟩]
  txt := deskMetadata.toTxtEntries

/-- A device appears, changes, goes away and appears again. -/
theorem translateAll_explained_desk :
    let events : List RawBrowserEvent := [.resolved desk, .resolved { desk with port := 4243 },
      .removed desk.fullname, .resolved desk]
    (default.translateAll events).1.length = 4 ∧
      WellFormed (default.translateAll events).2 ∧
      EmitsExactly (default.translateAll events).2 (.removed desk.fullname) ∧
      (default.translateAll events).1.foldl replay ∅ = (default.translateAll events).2.peers := by
  intro events
  obtain ⟨hformed, hexact, hreplay⟩ := translateAll_explained events
  exact ⟨by decide +kernel, hformed, hexact _, hreplay⟩

/-! ## Variants of a resolution -/

/-- Two resolutions that differ in the case of the suffix, the order and repetition of the
endpoints and the order of the TXT entries. -/
structure SameResolution (resolved other : RawResolvedService) : Prop where
  fullname : resolved.fullname = other.fullname ∨ SameServiceName resolved.fullname other.fullname
  port : resolved.port = other.port
  endpoints : ∀ endpoint, endpoint ∈ resolved.endpoints ↔ endpoint ∈ other.endpoints
  txt : resolved.txt.Perm other.txt

/-- An error's kind and key. -/
def outlineError (error : DiscoveryBrowserError) : DiscoveryBrowserError :=
  { error with source := none }

/-- An event with the cause of an error left out. -/
def outline : DiscoveryBrowserEvent → DiscoveryBrowserEvent
  | .error error => .error (outlineError error)
  | event => event

theorem SameResolution.symm {resolved other : RawResolvedService}
    (h : SameResolution resolved other) : SameResolution other resolved :=
  ⟨h.fullname.imp Eq.symm SameServiceName.symm, h.port.symm, fun endpoint =>
    (h.endpoints endpoint).symm, h.txt.symm⟩

theorem SameResolution.new_eq {resolved other : RawResolvedService}
    (h : SameResolution resolved other) :
    TransientDiscoveryKey.new resolved.fullname = TransientDiscoveryKey.new other.fullname := by
  rcases h.fullname with heq | hsame
  · rw [heq]
  · by_cases hname : IsServiceName resolved.fullname
    · obtain ⟨key, hkey⟩ := TransientDiscoveryKey.new_isOk_iff.mpr hname
      obtain ⟨key', hkey'⟩ := TransientDiscoveryKey.new_isOk_iff.mpr (hsame.isServiceName hname)
      rw [hkey, hkey', (TransientDiscoveryKey.eq_iff_of_new hkey hkey').mpr hsame]
    · rw [TransientDiscoveryKey.new_eq_error_of_not hname,
        TransientDiscoveryKey.new_eq_error_of_not fun h' => hname (hsame.symm.isServiceName h')]

/-- Variants describe the same peer, or are invalid for the same reason. -/
theorem SameResolution.peer_eq {resolved other : RawResolvedService}
    (h : SameResolution resolved other) :
    resolved.peer.mapError outlineError = other.peer.mapError outlineError := by
  have hkey := h.new_eq
  have hset := endpointSet_congr h.endpoints
  have hread : ∀ metadata, DiscoveryMetadata.fromTxtEntries resolved.txt = .ok metadata →
      DiscoveryMetadata.fromTxtEntries other.txt = .ok metadata :=
    fun _ => DiscoveryMetadata.fromTxtEntries_perm h.txt
  have hread' : ∀ metadata, DiscoveryMetadata.fromTxtEntries other.txt = .ok metadata →
      DiscoveryMetadata.fromTxtEntries resolved.txt = .ok metadata :=
    fun _ => DiscoveryMetadata.fromTxtEntries_perm h.txt.symm
  obtain ⟨fullname, port, endpoints, txt⟩ := resolved
  obtain ⟨fullname', port', endpoints', txt'⟩ := other
  obtain rfl : port = port' := h.port
  simp only at hkey hset hread hread'
  simp only [RawResolvedService.peer, hkey, hset]
  cases TransientDiscoveryKey.new fullname' with
  | error error => rfl
  | ok key =>
      simp only [bind, Except.bind]
      by_cases hport : port = 0
      · simp only [dif_pos hport]
      · simp only [dif_neg hport]
        split
        · rfl
        · split
          · rfl
          · -- the two readers accept alike, and every rejection has the same kind
            cases haccept : DiscoveryMetadata.fromTxtEntries txt with
            | ok metadata => rw [hread metadata haccept]
            | error source =>
                cases haccept' : DiscoveryMetadata.fromTxtEntries txt' with
                | ok metadata =>
                    rw [hread' metadata haccept'] at haccept
                    cases haccept
                | error source' => rfl

/-- For every state and every two variants of a resolution: the emitted events agree in their
variant, their peer, and the kind and key of their error, and the next states are equal. After
a valid resolution, a variant of it is a refresh and changes nothing. -/
theorem translate_sameResolution (self : BrowserState) (resolved other : RawResolvedService)
    (h : SameResolution resolved other) :
    (self.translate (.resolved resolved)).1.map outline =
      (self.translate (.resolved other)).1.map outline ∧
    (self.translate (.resolved resolved)).2 = (self.translate (.resolved other)).2 ∧
    (∀ peer, ResolvesTo resolved peer →
      (self.translate (.resolved resolved)).2.translate (.resolved other) =
        (some (.refreshed peer), (self.translate (.resolved resolved)).2)) := by
  have hpeer := h.peer_eq
  cases hresolved : resolved.peer with
  | error error =>
      cases hother : other.peer with
      | ok peer =>
          rw [hresolved, hother] at hpeer
          cases hpeer
      | error error' =>
          rw [hresolved, hother] at hpeer
          rw [translate_eq_iff.mpr (.invalid hresolved), translate_eq_iff.mpr (.invalid hother)]
          refine ⟨congrArg (fun e => some (DiscoveryBrowserEvent.error e)) (Except.error.inj hpeer),
            rfl, ?_⟩
          intro peer hvalid
          rw [RawResolvedService.peer_eq_ok_iff.mpr hvalid] at hresolved
          cases hresolved
  | ok peer =>
      have hother : other.peer = .ok peer := by
        cases hother : other.peer with
        | ok peer' =>
            rw [hresolved, hother] at hpeer
            exact congrArg Except.ok (Except.ok.inj hpeer).symm
        | error error' =>
            rw [hresolved, hother] at hpeer
            cases hpeer
      have hvalid := RawResolvedService.peer_eq_ok_iff.mp hresolved
      have hvalid' := RawResolvedService.peer_eq_ok_iff.mp hother
      -- `translate` sees the resolution through the peer it describes
      have hsame : self.translate (.resolved resolved) = self.translate (.resolved other) := by
        simp only [translate, resolve, hresolved, hother]
      refine ⟨by rw [hsame], by rw [hsame], ?_⟩
      intro peer' hresolves
      obtain rfl : peer = peer' := by
        rw [RawResolvedService.peer_eq_ok_iff.mpr hresolves] at hresolved
        exact (Except.ok.inj hresolved).symm
      refine translate_eq_iff.mpr (.refreshed hvalid' ?_)
      exact (announced_of_resolvesTo hvalid).2

/-- The same device with everything said another way. -/
def deskAgain : RawResolvedService where
  fullname := "Desk".toList ++ transientKeySuffix.map Char.toUpper
  port := 4242
  endpoints := [⟨.v4 2, none⟩, ⟨.v4 1, none⟩, ⟨.v4 2, none⟩]
  txt := deskMetadata.toTxtEntries.reverse

theorem desk_sameResolution : SameResolution desk deskAgain := by
  refine ⟨.inr ⟨_, _, _, rfl, rfl, eqIgnoreAsciiCase_refl _, by decide⟩, rfl, ?_,
    (List.reverse_perm _).symm⟩
  intro endpoint
  simp only [desk, deskAgain, List.mem_cons, List.not_mem_nil, or_false]
  tauto

theorem desk_resolvesTo : ∃ peer, ResolvesTo desk peer := by
  obtain ⟨key, hkey⟩ : ∃ key, TransientDiscoveryKey.new desk.fullname = .ok key :=
    TransientDiscoveryKey.new_isOk_iff.mpr ⟨by decide, by decide, "Desk".toList, transientKeySuffix,
      by decide, rfl, eqIgnoreAsciiCase_refl _⟩
  have hread : DiscoveryMetadata.fromTxtEntries deskMetadata.toTxtEntries = .ok deskMetadata := by
    refine DiscoveryMetadata.fromTxtEntries_eq_ok (by decide) ?_
    intro k
    cases k <;> decide
  refine ⟨⟨key, deskMetadata, ⟨4242, by decide⟩, endpointSet desk.endpoints, 1⟩, hkey, rfl, rfl,
    ?_, ?_, hread, ?_⟩
  · show endpointSet desk.endpoints ≠ []
    decide
  · show (endpointSet desk.endpoints).length ≤ maxDiscoveredEndpoints
    decide
  · show DiscoveryProtocolRange.IsHighestShared .initial .initial 1
    exact DiscoveryProtocolRange.highestCompatibleVersion_eq_some_iff.mp (by decide)

theorem translate_sameResolution_desk : ∃ peer,
    (default.translate (.resolved desk)).2.translate (.resolved deskAgain) =
      (some (.refreshed peer), (default.translate (.resolved desk)).2) := by
  obtain ⟨peer, hpeer⟩ := desk_resolvesTo
  exact ⟨peer, (translate_sameResolution default desk deskAgain desk_sameResolution).2.2 peer hpeer⟩

end BrowserState

end LocalTransfer
