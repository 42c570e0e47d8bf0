import LocalTransfer.Discovery.OneKey
import LocalTransfer.Lib.LastWriter

/-!
# Events in any order

To one key the lifecycle is a last-writer register: an observation sets the peer, a removal
clears it. While no tombstone is past its retention and there is room for all of them,
pruning does nothing, so events of one window lead to the same visible peers in whatever
order they are applied.
-/

namespace LocalTransfer

open Lib DiscoveredPeerState

abbrev TimedEvent := DiscoveryBrowserEvent × Duration

/-- The key an event is about, if it changes anything. -/
def DiscoveryBrowserEvent.subject : DiscoveryBrowserEvent → Option TransientDiscoveryKey
  | .added peer | .updated peer | .refreshed peer => some peer.key
  | .removed key => some key
  | .error _ => none

/-- Applies events one after the other. -/
def DiscoveredPeerState.applyAll (prune : Pruning) (self : DiscoveredPeerState) :
    List TimedEvent → Except LifecyclePanic DiscoveredPeerState
  | [] => .ok self
  | event :: events => do
      let (_, next) ← self.apply prune event.1 event.2
      next.applyAll prune events

/-- The peer of the latest observation of a key, if it is later than every removal of it. -/
def Latest (events : List TimedEvent) (key : TransientDiscoveryKey) (peer : DiscoveredPeer) :
    Prop :=
  peer.key = key ∧ ∃ t, (∃ e ∈ events, e.1.peer = some peer ∧ e.2 = t) ∧
    (∀ e ∈ events, ∀ peer', e.1.peer = some peer' → peer'.key = key → e.2 ≤ t) ∧
    ∀ e ∈ events, e.1 = .removed key → e.2 < t

/-! ## One key as a register -/

section Register

variable {key : TransientDiscoveryKey} {record : Option PeerRecord} {event : TimedEvent}

def register (record : Option PeerRecord) : Register Duration DiscoveredPeer :=
  record.map fun r => (visiblePeer r, r.lastTransitionAt)

/-- What an event writes to the register of a key. -/
def TimedEvent.write (key : TransientDiscoveryKey) (event : TimedEvent) :
    Option (Write DiscoveredPeer × Duration) :=
  match event.1 with
  | .added peer | .updated peer | .refreshed peer =>
      if peer.key = key then some (.set peer, event.2) else none
  | .removed k => if k = key then some (.clear, event.2) else none
  | .error _ => none

theorem register_observeRecord (peer : DiscoveredPeer) (at' : Duration) :
    register (some (observeRecord peer at' record).2) =
      (register record).write (.set peer) at' := by
  cases record with
  | none => rfl
  | some r =>
      obtain ⟨visible, last⟩ := r
      have hnone : (visiblePeer ⟨visible, last⟩).isNone = visible.isNone := by
        cases visible <;> rfl
      simp only [observeRecord, register, Option.map_some, Register.write, hnone]
      split <;> rfl

theorem register_removeRecord (at' : Duration) :
    register (some (removeRecord key at' record).2) = (register record).write .clear at' := by
  cases record with
  | none => rfl
  | some r =>
      simp only [removeRecord, register, Option.map_some, Register.write]
      split
      · rfl
      · next hlate =>
          have hmax : max r.lastTransitionAt at' = at' := Nat.max_eq_right (Nat.not_lt.mp hlate)
          simp only [hmax]
          rfl

/-- An event is a write to the register of its key. -/
theorem register_keyStep : register (keyStep key (.apply event.1 event.2) record).2 =
    (register record).writes (event.write key).toList := by
  obtain ⟨event, at'⟩ := event
  cases event with
  | added peer | updated peer | refreshed peer =>
      simp only [keyStep, TimedEvent.write]
      split
      · exact register_observeRecord peer at'
      · rfl
  | removed k =>
      simp only [keyStep, TimedEvent.write]
      split
      · exact register_removeRecord at'
      · rfl
  | error error => rfl

/-- A record is as it was, or of the time and the key of the event. -/
theorem keyStep_record {r : PeerRecord}
    (h : (keyStep key (.apply event.1 event.2) record).2 = some r) :
    record = some r ∨ (r.lastTransitionAt = event.2 ∧ event.1.subject = some key) := by
  obtain ⟨event, at'⟩ := event
  cases event with
  | added peer | updated peer | refreshed peer =>
      simp only [keyStep] at h
      split at h
      · next hkey =>
          have hsubject : some peer.key = some key := congrArg some hkey
          cases record with
          | none =>
              cases h
              exact .inr ⟨rfl, hsubject⟩
          | some r' =>
              simp only [observeRecord] at h
              split at h
              · exact .inl h
              · cases h
                exact .inr ⟨rfl, hsubject⟩
      · exact .inl h
  | removed k =>
      simp only [keyStep] at h
      split at h
      · next hkey =>
          have hsubject : some k = some key := congrArg some hkey
          cases record with
          | none =>
              cases h
              exact .inr ⟨rfl, hsubject⟩
          | some r' =>
              simp only [removeRecord] at h
              split at h
              · exact .inl h
              -- not older, so the time of the event is the later of the two
              · next hlate =>
                  cases h
                  exact .inr ⟨Nat.max_eq_right (Nat.not_lt.mp hlate), hsubject⟩
      · exact .inl h
  | error error => exact .inl h

theorem write_eq_set_iff {peer : DiscoveredPeer} {t : Duration} :
    event.write key = some (.set peer, t) ↔
      event.1.peer = some peer ∧ peer.key = key ∧ event.2 = t := by
  obtain ⟨event, at'⟩ := event
  cases event with
  | added seen | updated seen | refreshed seen =>
      simp only [TimedEvent.write, DiscoveryBrowserEvent.peer]
      constructor
      · intro h
        split at h
        · next hkey =>
            cases h
            exact ⟨rfl, hkey, rfl⟩
        · cases h
      · intro ⟨hseen, hkey, ht⟩
        cases hseen
        cases ht
        exact if_pos hkey
  | removed k => simp [TimedEvent.write, DiscoveryBrowserEvent.peer]
  | error error => simp [TimedEvent.write, DiscoveryBrowserEvent.peer]

theorem write_eq_clear_iff {t : Duration} :
    event.write key = some (.clear, t) ↔ event.1 = .removed key ∧ event.2 = t := by
  obtain ⟨event, at'⟩ := event
  cases event <;> simp [TimedEvent.write]

/-- The writes of events say which peer is the latest. -/
theorem latest_iff_write {events : List TimedEvent} {peer : DiscoveredPeer} :
    Latest events key peer ↔ ∃ t, (.set peer, t) ∈ events.filterMap (TimedEvent.write key) ∧
      (∀ peer' t', (.set peer', t') ∈ events.filterMap (TimedEvent.write key) → t' ≤ t) ∧
      ∀ t', (.clear, t') ∈ events.filterMap (TimedEvent.write key) → t' < t := by
  simp only [List.mem_filterMap, write_eq_set_iff, write_eq_clear_iff]
  constructor
  · intro ⟨hkey, t, ⟨e, he, hpeer, ht⟩, hsets, hclears⟩
    refine ⟨t, ⟨e, he, hpeer, hkey, ht⟩, ?_, ?_⟩
    · intro peer' t' ⟨e', he', hpeer', hkey', ht'⟩
      exact ht' ▸ hsets e' he' peer' hpeer' hkey'
    · intro t' ⟨e', he', hremoved, ht'⟩
      exact ht' ▸ hclears e' he' hremoved
  · intro ⟨t, ⟨e, he, hpeer, hkey, ht⟩, hsets, hclears⟩
    refine ⟨hkey, t, ⟨e, he, hpeer, ht⟩, ?_, ?_⟩
    · intro e' he' peer' hpeer' hkey'
      exact hsets peer' e'.2 ⟨e', he', hpeer', hkey', rfl⟩
    · intro e' he' hremoved
      exact hclears e'.2 ⟨e', he', hremoved, rfl⟩

end Register

/-! ## Within a window -/

section Window

variable {key : TransientDiscoveryKey} {keys : Finset TransientDiscoveryKey}
  {start now : Duration} {s : DiscoveredPeerState} {event : TimedEvent}

/-- All records are of a window that began at `start`, and of these keys. -/
structure InWindow (keys : Finset TransientDiscoveryKey) (start : Duration)
    (s : DiscoveredPeerState) : Prop where
  counted : Counted s
  records : ∀ (key : TransientDiscoveryKey) r, s.records[key]? = some r →
    key ∈ keys ∧ start ≤ r.lastTransitionAt

/-- Within the window there is nothing to prune. -/
theorem InWindow.prune (hkeys : keys.card ≤ maxRetainedTombstones) (h : InWindow keys start s)
    (hnow : now ≤ start + tombstoneRetention) (key : TransientDiscoveryKey) :
    (s.pruneTombstones now).records[key]? = s.records[key]? := by
  rcases pruneTombstones_cases s now key with
    heq | ⟨-, last, hrecord, hold | ⟨tombs, hcard, htombs⟩⟩
  · exact heq
  · have hlast : start ≤ last := (h.records key _ hrecord).2
    have hyoung : now ≤ last + tombstoneRetention :=
      hnow.trans (Nat.add_le_add_right hlast _)
    exact absurd hold (Nat.not_lt.mpr hyoung)
  · have hsub : tombs ⊆ keys := by
      intro k hk
      obtain ⟨last', hrecord', -⟩ := htombs k hk
      exact (h.records k _ hrecord').1
    exact absurd ((Finset.card_le_card hsub).trans hkeys) (Nat.not_le.mpr hcard)

theorem InWindow.pruneWhen (hkeys : keys.card ≤ maxRetainedTombstones) (h : InWindow keys start s)
    (hnow : now ≤ start + tombstoneRetention) (due : Bool) :
    InWindow keys start (pruneWhen pruneTombstones due s now) ∧ ∀ key : TransientDiscoveryKey,
      (DiscoveredPeerState.pruneWhen pruneTombstones due s now).records[key]? =
        s.records[key]? := by
  cases due with
  | false => exact ⟨h, fun key => rfl⟩
  | true =>
      have hsame := h.prune hkeys hnow
      refine ⟨⟨pruneTombstones_safe.counted now h.counted, fun key r hr => ?_⟩, hsame⟩
      exact h.records key r ((hsame key).symm.trans hr)

/-- An event of the window writes the register of its key, and nothing is forgotten. -/
theorem InWindow.apply (hkeys : keys.card ≤ maxRetainedTombstones) (h : InWindow keys start s)
    (hevent : start ≤ event.2 ∧ event.2 ≤ start + tombstoneRetention)
    (hsubject : ∀ key, event.1.subject = some key → key ∈ keys) :
    ∃ t s', s.apply .pruneTombstones event.1 event.2 = .ok (t, s') ∧ InWindow keys start s' ∧
      ∀ key : TransientDiscoveryKey, register s'.records[key]? =
        (register s.records[key]?).writes (event.write key).toList := by
  let c : LifecycleCall := .apply event.1 event.2
  obtain ⟨hbefore, hsame⟩ := h.pruneWhen hkeys hevent.2 c.prunesBefore
  obtain ⟨next, hcall, hcounted, hstep⟩ := call_keepAll_spec hbefore.counted c
  have hnext : InWindow keys start next := by
    refine ⟨hcounted, fun key r hr => ?_⟩
    rw [hstep] at hr
    rcases keyStep_record hr with hold | ⟨htime, hkey⟩
    · exact hbefore.records key r hold
    · exact ⟨hsubject key hkey, htime ▸ hevent.1⟩
  obtain ⟨hafter, hsame'⟩ := hnext.pruneWhen hkeys hevent.2 c.prunesAfter
  have hwhole : ∃ ts, s.call pruneTombstones c = .ok (ts,
      DiscoveredPeerState.pruneWhen pruneTombstones c.prunesAfter next event.2) := by
    rw [call_eq, show c.time = event.2 from rfl, hcall]
    exact ⟨_, rfl⟩
  obtain ⟨ts, hwhole⟩ := hwhole
  obtain ⟨t, happly, -⟩ := apply_of_call hwhole
  refine ⟨t, _, happly, hafter, fun key => ?_⟩
  rw [hsame', hstep, register_keyStep, hsame]

/-- Events of the window, in the order in which they are applied. -/
theorem InWindow.applyAll (hkeys : keys.card ≤ maxRetainedTombstones) (h : InWindow keys start s)
    {events : List TimedEvent}
    (hevents : ∀ e ∈ events, start ≤ e.2 ∧ e.2 ≤ start + tombstoneRetention)
    (hsubjects : ∀ e ∈ events, ∀ key, e.1.subject = some key → key ∈ keys) :
    ∃ s', s.applyAll .pruneTombstones events = .ok s' ∧ InWindow keys start s' ∧
      ∀ key : TransientDiscoveryKey, register s'.records[key]? =
        (register s.records[key]?).writes (events.filterMap (TimedEvent.write key)) := by
  induction events generalizing s with
  | nil => exact ⟨s, rfl, h, fun key => rfl⟩
  | cons e events ih =>
      obtain ⟨hevent, hevents⟩ := List.forall_mem_cons.mp hevents
      obtain ⟨hsubject, hsubjects⟩ := List.forall_mem_cons.mp hsubjects
      obtain ⟨t, next, happly, hnext, hwrite⟩ := h.apply hkeys hevent hsubject
      obtain ⟨s', hrun, hs', hwrites⟩ := ih hnext hevents hsubjects
      refine ⟨s', ?_, hs', fun key => ?_⟩
      · simp only [DiscoveredPeerState.applyAll, happly, bind, Except.bind]
        exact hrun
      · rw [hwrites, hwrite]
        cases hw : e.write key with
        | none => rw [List.filterMap_cons_none hw]; rfl
        | some w => rw [List.filterMap_cons_some hw]; rfl

end Window

/-- No two different observations of one key at the same time. -/
def Unambiguous (events : List TimedEvent) : Prop :=
  ∀ e ∈ events, ∀ e' ∈ events, ∀ peer peer', e.1.peer = some peer → e'.1.peer = some peer' →
    peer.key = peer'.key → e.2 = e'.2 → peer = peer'

/-- Events of one window lead to the latest peers. -/
theorem applyAll_spec {events : List TimedEvent} {start : Duration}
    (hkeys : (events.filterMap fun e => e.1.subject).toFinset.card ≤ maxRetainedTombstones)
    (hwindow : ∀ e ∈ events, start ≤ e.2 ∧ e.2 ≤ start + tombstoneRetention)
    (hsame : Unambiguous events) :
    ∃ s, DiscoveredPeerState.new.applyAll .pruneTombstones events = .ok s ∧ Counted s ∧
      ∀ key peer, s.get key = some peer ↔ Latest events key peer := by
  have hstart : InWindow (events.filterMap fun e => e.1.subject).toFinset start .new :=
    ⟨counted_new, fun key r hr => by simp [DiscoveredPeerState.new] at hr⟩
  obtain ⟨s, hrun, hs, hregister⟩ := hstart.applyAll hkeys hwindow fun e he key hkey =>
    List.mem_toFinset.mpr (List.mem_filterMap.mpr ⟨e, he, hkey⟩)
  refine ⟨s, hrun, hs.counted, fun key peer => ?_⟩
  have hvalue : s.get key = (register s.records[key]?).bind Prod.fst := by
    rw [get_eq_visibleMap, getElem?_visibleMap]
    cases s.records[key]? <;> rfl
  have hempty : register DiscoveredPeerState.new.records[key]? = none := by
    simp [DiscoveredPeerState.new, register]
  rw [hvalue, hregister, hempty, latest_iff_write]
  apply Register.value_writes_iff
  intro p p' t hp hp'
  obtain ⟨e, he, hset⟩ := List.mem_filterMap.mp hp
  obtain ⟨e', he', hset'⟩ := List.mem_filterMap.mp hp'
  obtain ⟨hpeer, hkey, ht⟩ := write_eq_set_iff.mp hset
  obtain ⟨hpeer', hkey', ht'⟩ := write_eq_set_iff.mp hset'
  exact hsame e he e' he' p p' hpeer hpeer' (hkey.trans hkey'.symm) (ht.trans ht'.symm)

theorem latest_congr {order order' : List TimedEvent} (horder : order.Perm order')
    (key : TransientDiscoveryKey) (peer : DiscoveredPeer) :
    Latest order key peer ↔ Latest order' key peer := by
  simp only [Latest, horder.mem_iff]

/-- **Events in any order.** Timestamped events over at most 256 keys and within one
window of 300 s, with no two different observations of a key at one time, lead to the
same visible peers in whatever order they are applied: for each key the peer of its latest
observation, if that is later than every removal of the key. -/
theorem orders_converge (order order' : List TimedEvent) (start : Duration)
    (horder : order.Perm order')
    (hkeys : (order.filterMap fun e => e.1.subject).toFinset.card ≤ maxRetainedTombstones)
    (hwindow : ∀ e ∈ order, start ≤ e.2 ∧ e.2 ≤ start + tombstoneRetention)
    (hsame : Unambiguous order) :
    ∃ s s', DiscoveredPeerState.new.applyAll .pruneTombstones order = .ok s ∧
      DiscoveredPeerState.new.applyAll .pruneTombstones order' = .ok s' ∧
      (∀ key peer, s.get key = some peer ↔ Latest order key peer) ∧
      (∀ key, s.get key = s'.get key) ∧ s.len = s'.len ∧ s.iter.Perm s'.iter := by
  -- each order settles every key on its latest write, and that is read off the events alone
  obtain ⟨s, hrun, hs, hget⟩ := applyAll_spec hkeys hwindow hsame
  have hsubjects : (order'.filterMap fun e => e.1.subject).toFinset =
      (order.filterMap fun e => e.1.subject).toFinset :=
    List.toFinset_eq_of_perm _ _ (horder.symm.filterMap _)
  obtain ⟨s', hrun', hs', hget'⟩ := applyAll_spec (hsubjects ▸ hkeys)
    (fun e he => hwindow e (horder.mem_iff.mpr he)) fun e he e' he' =>
      hsame e (horder.mem_iff.mpr he) e' (horder.mem_iff.mpr he')
  have hagree : ∀ key, s.get key = s'.get key := by
    intro key
    apply Option.ext
    intro peer
    rw [hget, hget', latest_congr horder]
  have hmap : s.visibleMap = s'.visibleMap := by
    apply Std.ExtTreeMap.ext_getElem?
    intro key
    rw [← get_eq_visibleMap, ← get_eq_visibleMap, hagree]
  refine ⟨s, s', hrun, hrun', hget, hagree, ?_, ?_⟩
  · show s.visibleCount = s'.visibleCount
    rw [hs, hs', hmap]
  · rw [iter_eq_visibleMap, iter_eq_visibleMap, hmap]

/-- An observation and an earlier removal, and the two the other way round. -/
theorem orders_converge_two : ∃ (peer : DiscoveredPeer) (s s' : DiscoveredPeerState),
    DiscoveredPeerState.new.applyAll .pruneTombstones
      [(.removed peer.key, 1), (.added peer, 2)] = .ok s ∧
    DiscoveredPeerState.new.applyAll .pruneTombstones
      [(.added peer, 2), (.removed peer.key, 1)] = .ok s' ∧
    s.get peer.key = some peer ∧ s'.get peer.key = some peer := by
  let key : TransientDiscoveryKey :=
    ⟨"a._local-transfer._tcp.local.".toList, ⟨"a".toList, by decide, by decide⟩, by decide,
      by decide⟩
  let peer : DiscoveredPeer := ⟨key, ⟨.initial, none, none⟩, ⟨4242, by decide⟩, [], 1⟩
  have hkeys : ([((.removed key, 1) : TimedEvent), (.added peer, 2)].filterMap
      fun e => e.1.subject).toFinset.card ≤ maxRetainedTombstones :=
    (List.toFinset_card_le _).trans ((List.length_filterMap_le _ _).trans (by decide))
  have hwindow : ∀ e ∈ [((.removed key, 1) : TimedEvent), (.added peer, 2)],
      0 ≤ e.2 ∧ e.2 ≤ 0 + tombstoneRetention := by
    intro e he
    have : e.2 ≤ 2 := by
      rcases List.mem_pair.mp he with rfl | rfl <;> decide
    exact ⟨Nat.zero_le _, this.trans (by decide)⟩
  have hsame : Unambiguous [(.removed key, 1), (.added peer, 2)] := by
    intro e he e' he' p p' hp hp' _ _
    rcases List.mem_pair.mp he with rfl | rfl
    · cases hp
    · rcases List.mem_pair.mp he' with rfl | rfl
      · cases hp'
      · cases hp
        cases hp'
        rfl
  obtain ⟨s, s', hrun, hrun', hlatest, hagree, -⟩ := orders_converge
    [(.removed key, 1), (.added peer, 2)] [(.added peer, 2), (.removed key, 1)] 0
    (List.Perm.swap ..) hkeys hwindow hsame
  have hpeer : s.get key = some peer := by
    refine (hlatest key peer).mpr ⟨rfl, 2, ⟨(.added peer, 2), by simp, rfl, rfl⟩, ?_, ?_⟩
    · intro e he p hp _
      rcases List.mem_pair.mp he with rfl | rfl
      · cases hp
      · exact le_refl _
    · intro e he hremoved
      rcases List.mem_pair.mp he with rfl | rfl
      · decide
      · cases hremoved
  exact ⟨peer, s, s', hrun, hrun', hpeer, (hagree key).symm.trans hpeer⟩

end LocalTransfer
