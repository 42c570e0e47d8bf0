import LocalTransfer.Discovery.Advertisement
import LocalTransfer.Discovery.NetworkView

/-!
# From one device to the other's report

What one device advertises is what the other prints of it: a record that reaches a pass, and
that nothing in the pass takes back, is one card of its report, with the configured name,
platform and port (`advertised_device_listed`).
-/

namespace LocalTransfer

open Lib DiscoveredPeerState

/-! ## The last word on a key -/

/-- The service an event names. -/
def RawBrowserEvent.fullname? : RawBrowserEvent → Option Text
  | .resolved service => some service.fullname
  | .removed fullname => some fullname
  | .error _ => none

/-- The event names a service of this key. -/
def RawBrowserEvent.About (event : RawBrowserEvent) (key : TransientDiscoveryKey) : Prop :=
  ∃ fullname, event.fullname? = some fullname ∧ TransientDiscoveryKey.new fullname = .ok key

/-- The resolution is the last event about its key. -/
def LastWord (events : List RawBrowserEvent) (resolved : RawResolvedService)
    (key : TransientDiscoveryKey) : Prop :=
  ∃ earlier later, events = earlier ++ .resolved resolved :: later ∧
    ∀ event ∈ later, ¬ event.About key

namespace BrowserState

variable {self : BrowserState} {event : RawBrowserEvent} {key : TransientDiscoveryKey}

/-- An event about other keys. -/
theorem translate_other (h : ¬ event.About key) :
    (self.translate event).2.peers[key]? = self.peers[key]? := by
  have hspec := translate_spec self event
  generalize (self.translate event).1 = emitted at hspec
  generalize (self.translate event).2 = next at hspec ⊢
  have hresolved : ∀ {resolved peer}, event = .resolved resolved → ResolvesTo resolved peer →
      (self.peers.insert peer.key peer)[key]? = self.peers[key]? := by
    intro resolved peer hevent hvalid
    rw [Pipeline.getElem?_insert_peer, if_neg]
    intro heq
    exact h ⟨resolved.fullname, by rw [hevent]; rfl, heq ▸ hvalid.key⟩
  cases hspec with
  | added hvalid habsent => exact hresolved rfl hvalid
  | updated hvalid hstored hne => exact hresolved rfl hvalid
  | removed hkey hstored =>
      rw [Pipeline.getElem?_erase_key, if_neg]
      intro heq
      exact h ⟨_, rfl, heq ▸ hkey⟩
  | refreshed | invalid | absent | malformed | failed => rfl

theorem translateAll_other {events : List RawBrowserEvent}
    (h : ∀ event ∈ events, ¬ event.About key) :
    (self.translateAll events).2.peers[key]? = self.peers[key]? := by
  induction events generalizing self with
  | nil => rfl
  | cons event events ih =>
      obtain ⟨hfirst, hrest⟩ := List.forall_mem_cons.mp h
      exact (ih hrest).trans (translate_other hfirst)

theorem translateAll_append (events events' : List RawBrowserEvent) :
    (self.translateAll (events ++ events')).2 =
      ((self.translateAll events).2.translateAll events').2 := by
  induction events generalizing self with
  | nil => rfl
  | cons event events ih => exact ih

/-- The peer of the last word is stored. -/
theorem stored_of_lastWord {events : List RawBrowserEvent} {resolved : RawResolvedService}
    {peer : DiscoveredPeer} (hvalid : ResolvesTo resolved peer)
    (hlast : LastWord events resolved peer.key) :
    (self.translateAll events).2.peers[peer.key]? = some peer := by
  obtain ⟨earlier, later, rfl, hlater⟩ := hlast
  rw [translateAll_append]
  exact (translateAll_other hlater).trans (announced_of_resolvesTo hvalid).2

end BrowserState

/-! ## The card of a peer -/

/-- The report has the peer once, as its one device with this key, and prints its card. -/
structure Lists (report : Report) (peer : DiscoveredPeer) : Prop where
  once : report.devices.filter (fun other => other.key = peer.key) = [peer]
  printed : (DeviceCard.fromPeer peer).lines <:+: report.lines

theorem card_infix {report : Report} {peer : DiscoveredPeer} (h : peer ∈ report.devices) :
    (DeviceCard.fromPeer peer).lines <:+: report.lines := by
  have hcard : DeviceCard.fromPeer peer ∈
      sortByKey DeviceCard.sortKey (report.devices.map DeviceCard.fromPeer) :=
    mem_sortByKey.mpr (List.mem_map_of_mem h)
  have hsome : (report.devices.map DeviceCard.fromPeer).isEmpty = false := by
    rw [List.isEmpty_eq_false_iff]
    exact List.ne_nil_of_mem (List.mem_map_of_mem h)
  have hsnapshot : (DeviceCard.fromPeer peer).lines <:+:
      snapshotLines (report.devices.map DeviceCard.fromPeer) := by
    rw [snapshotLines, hsome]
    obtain ⟨before, after, hsplit⟩ := List.append_of_mem hcard
    refine List.IsInfix.trans ?_ (List.suffix_cons _ _).isInfix
    rw [hsplit, List.flatMap_append, List.flatMap_cons, ← List.append_assoc]
    exact List.infix_append _ _ _
  rw [Report.lines, reportOf, reportLines]
  refine hsnapshot.trans (List.IsSuffix.isInfix ?_)
  exact (List.suffix_cons _ _).trans ((List.suffix_append _ _).trans (List.suffix_cons _ _))

/-! ## Both ends -/

/-- A sweep that took nothing of this key out. -/
def Spares (key : TransientDiscoveryKey) : Happening → Prop
  | .swept sweep => .removed key .expired ∉ sweep.transitions
  | .took _ _ _ | .gaveUp _ | .stopped _ | .wrote _ => True

theorem Pass.Refines.not_expiredSince {world : Surroundings} {pass : Pass}
    {history : List PipelineStep} {key : TransientDiscoveryKey}
    (h : pass.Refines world history) (hspared : ∀ happening ∈ pass.happened, Spares key happening) :
    ¬ ExpiredSince history key := by
  intro hexpired
  obtain ⟨before, step, after, rfl, ⟨⟨now, staleAfter, hinput⟩, hremoved⟩, -⟩ := hexpired
  have hexpiry : step.expiry = some (now, staleAfter, step.transitions) := by
    rw [PipelineStep.expiry, hinput]
    rfl
  have hmem : (now, staleAfter, step.transitions) ∈
      pass.happened.filterMap Happening.expiry := by
    rw [← h.swept]
    exact List.mem_filterMap.mpr ⟨step, by simp, hexpiry⟩
  obtain ⟨happening, hhappened, hswept⟩ := List.mem_filterMap.mp hmem
  cases happening with
  | swept sweep =>
      have hspare : .removed key .expired ∉ sweep.transitions := hspared _ hhappened
      obtain ⟨-, -, heq⟩ : sweep.now = now ∧ sweep.staleAfter = staleAfter ∧
          sweep.transitions = step.transitions := by simpa [Happening.expiry] using hswept
      exact hspare (heq ▸ hremoved)
  | took | gaveUp | stopped | wrote => cases hswept

theorem ListsNetwork.lists {world : Surroundings} {pass : Pass} {report : Report}
    {resolved : RawResolvedService} {peer : DiscoveredPeer} (h : ListsNetwork world pass report)
    (hvalid : ResolvesTo resolved peer)
    (hlast : LastWord (world.arrived pass.polls) resolved peer.key)
    (hspared : ∀ happening ∈ pass.happened, Spares peer.key happening) : Lists report peer := by
  obtain ⟨history, hrefines, hdevices⟩ := h.view
  have hstored : (BrowserState.default.translateAll (world.arrived pass.polls)).2.peers[peer.key]? =
      some peer := BrowserState.stored_of_lastWord hvalid hlast
  have hlisted := (hdevices peer).mpr ⟨hstored, hrefines.not_expiredSince hspared⟩
  refine ⟨?_, card_infix hlisted⟩
  refine (h.distinct.filter _).ext (List.pairwise_singleton _ _) ?_
  intro other
  rw [List.mem_filter, List.mem_singleton, decide_eq_true_iff]
  constructor
  · rintro ⟨hother, hkey⟩
    exact h.distinct.eq_of_key hother hlisted hkey
  · rintro rfl
    exact ⟨hlisted, rfl⟩

/-- For every configuration whose range has the major of this release: a session is published
under a key, and whenever its record reaches a pass, in any form that DNS-SD may give it, is
the last word on that key and is not swept out, the report of the pass has that device once,
with the name, the platform and the port of the configuration. -/
theorem advertised_device_listed (config : DiscoveryAdvertisementConfig) (uuid : Uuid)
    (hsupports : config.metadata.protocols.Supports initialProtocolMajor) :
    ∃ spec key, ServiceSpec.new config (.random uuid) = .ok spec ∧
      TransientDiscoveryKey.new spec.fullname = .ok key ∧
      ∀ resolved, Delivers spec resolved →
      ∀ world : Surroundings, world.Ticks → ∀ accepts args fuel deadline report,
        .wrote report ∈
          ((Pass.start deadline).observe (world.printing accepts) args fuel).2.happened →
        LastWord (world.arrived
          ((Pass.start deadline).observe (world.printing accepts) args fuel).2.polls)
          resolved key →
        (∀ happening ∈
          ((Pass.start deadline).observe (world.printing accepts) args fuel).2.happened,
          Spares key happening) →
        Lists report (deliveredPeer config key resolved) := by
  obtain ⟨key, hnew, -⟩ := SessionIdentity.new_fullname uuid
  refine ⟨_, key, ServiceSpec.new_eq_ok config _, hnew, ?_⟩
  intro resolved hdelivers world hticks accepts args fuel deadline report hwrote hlast hspared
  obtain ⟨later, showEvents, hfollows, rfl⟩ := Pass.reported hticks hwrote
  have hvalid := hdelivers.resolvesTo rfl rfl hnew hsupports
  exact (hfollows.lists showEvents).lists hvalid hlast hspared

/-- The configuration of a desk. -/
def deskConfig : DiscoveryAdvertisementConfig :=
  ⟨BrowserState.deskMetadata, 5000, by decide⟩

/-- The session of the desk, as it is published. -/
def deskSpec : ServiceSpec where
  serviceType := discoveryServiceType ++ localDomainSuffix
  instanceName := (SessionIdentity.random ⟨List.replicate 16 0, rfl⟩).label
  hostname := (SessionIdentity.random ⟨List.replicate 16 0, rfl⟩).label ++ localDomainSuffix
  port := 5000
  properties := .ofList BrowserState.deskMetadata.properties

/-- The desk as the network resolves it. -/
def deskService : RawResolvedService := deskSpec.delivery ⟨.v4 1, none⟩

/-- The desk is found in a pass without sweeps, and printed. -/
theorem advertised_device_listed_desk : ∃ key report,
    .wrote report ∈ ((Pass.start 100).observe ((foundOnce deskService).printing fun _ => true)
      ⟨false, none⟩ 2).2.happened ∧
    Lists report (deliveredPeer deskConfig key deskService) := by
  have hends : ((Pass.start 100).observe ((foundOnce deskService).printing fun _ => true)
      ⟨false, none⟩ 2).1.toOption.isSome = true := by decide +kernel
  have hpolls : ((Pass.start 100).observe ((foundOnce deskService).printing fun _ => true)
      ⟨false, none⟩ 2).2.polls = 1 := by decide +kernel
  have hcalm : (((Pass.start 100).observe ((foundOnce deskService).printing fun _ => true)
      ⟨false, none⟩ 2).2.happened.all fun happening => happening.expiry.isNone) = true := by
    decide +kernel
  obtain ⟨report, hmem⟩ := Pass.exists_report hends
  obtain ⟨spec, key, hspec, hkey, hall⟩ := advertised_device_listed deskConfig
    ⟨List.replicate 16 0, rfl⟩ ⟨by decide, by decide⟩
  rw [ServiceSpec.new_eq_ok] at hspec
  obtain rfl : deskSpec = spec := Except.ok.inj hspec
  refine ⟨key, report, hmem, hall deskService ?_ _ (ticks_foundOnce _) _ _ _ _ report hmem ?_ ?_⟩
  · have hproperties : deskSpec.properties = .ofList deskConfig.metadata.properties := rfl
    exact ServiceSpec.delivers_delivery hproperties _
  · rw [hpolls]
    exact ⟨[], [], rfl, by simp⟩
  · intro happening hhappened
    have hnone := List.all_eq_true.mp hcalm happening hhappened
    cases happening with
    | swept sweep => cases hnone
    | took | gaveUp | stopped | wrote => trivial

end LocalTransfer
