import LocalTransfer.Discovery.Lifecycle
import LocalTransfer.Lib.TreeMap

/-!
# The lifecycle, one key at a time

An observation, a removal and an expiry each change the record of one key only, by a
rule that looks at nothing else (`observeRecord`, `removeRecord`). The counter is the
size of the visible map, so none of the code's panics is reachable.
-/

namespace LocalTransfer

open Lib

/-- What an observation does to the record of its key. -/
def observeRecord (peer : DiscoveredPeer) (observedAt : Duration) :
    Option PeerRecord → DiscoveredPeerTransition × PeerRecord
  | none => (.appeared peer.key, ⟨some ⟨peer, observedAt⟩, observedAt⟩)
  | some record =>
      if observedAt < record.lastTransitionAt ∨
          (record.visible.isNone ∧ observedAt = record.lastTransitionAt) then
        (.noop peer.key .stale, record)
      else
        (match record.visible with
          | some visible => if visible.peer = peer then .refreshed peer.key else .updated peer.key
          | none => .appeared peer.key,
          ⟨some ⟨peer, observedAt⟩, observedAt⟩)

/-- What a removal does to the record of its key. -/
def removeRecord (key : TransientDiscoveryKey) (removedAt : Duration) :
    Option PeerRecord → DiscoveredPeerTransition × PeerRecord
  | none => (.noop key .alreadyAbsent, ⟨none, removedAt⟩)
  | some record =>
      if removedAt < record.lastTransitionAt then (.noop key .stale, record)
      else
        (if record.visible.isSome then .removed key .explicit else .noop key .alreadyAbsent,
          ⟨none, max record.lastTransitionAt removedAt⟩)

namespace DiscoveredPeerState

variable {self s s' : DiscoveredPeerState} {key k : TransientDiscoveryKey} {peer : DiscoveredPeer}
  {now at' staleAfter : Duration}

/-! ## The visible map -/

/-- The visible peer of a record. -/
def visiblePeer (record : PeerRecord) : Option DiscoveredPeer :=
  record.visible.map VisibleDiscoveredPeer.peer

/-- The visible peers by key. -/
def visibleMap (self : DiscoveredPeerState) : Std.ExtTreeMap TransientDiscoveryKey DiscoveredPeer :=
  self.records.filterMap fun _ record => visiblePeer record

@[simp] theorem getElem?_visibleMap :
    self.visibleMap[k]? = self.records[k]?.bind visiblePeer := by
  simp [visibleMap]

theorem get_eq_visibleMap : self.get k = self.visibleMap[k]? := by
  simp only [get, getElem?_visibleMap]
  cases self.records[k]? with
  | none => rfl
  | some record =>
      obtain ⟨visible, last⟩ := record
      cases visible <;> rfl

theorem iter_eq_visibleMap : self.iter = self.visibleMap.toList.map Prod.snd := by
  simp only [iter, visibleMap, Std.ExtTreeMap.toList_filterMap, List.map_filterMap]
  congr 1
  funext entry
  simp only [Option.map_map, visiblePeer]
  rfl

/-- The counter is the number of visible peers. -/
def Counted (self : DiscoveredPeerState) : Prop := self.visibleCount = self.visibleMap.size

theorem counted_new : Counted new := by
  have : new.visibleMap = ∅ := Std.ExtTreeMap.ext_getElem? fun k => by simp [new]
  rw [Counted, this]
  rfl

/-- Two states with the same visible record at each key have the same visible map. -/
theorem visibleMap_congr (h : ∀ k : TransientDiscoveryKey,
    s.records[k]?.bind visiblePeer = s'.records[k]?.bind visiblePeer) :
    s.visibleMap = s'.visibleMap :=
  Std.ExtTreeMap.ext_getElem? fun k => by simpa using h k

theorem visibleMap_insert {record : PeerRecord} {count : Nat} :
    visibleMap ⟨self.records.insert key record, count⟩ =
      match visiblePeer record with
      | some peer => self.visibleMap.insert key peer
      | none => self.visibleMap.erase key := by
  refine Std.ExtTreeMap.ext_getElem? fun k => ?_
  rw [getElem?_visibleMap, Std.ExtTreeMap.getElem?_insert]
  by_cases hk : key = k
  · subst hk
    cases h : visiblePeer record <;> simp [h]
  · cases h : visiblePeer record <;>
      simp [Std.ExtTreeMap.getElem?_insert, Std.ExtTreeMap.getElem?_erase, hk]

theorem mem_visibleMap : k ∈ self.visibleMap ↔ (self.records[k]?.bind visiblePeer).isSome := by
  rw [Std.ExtTreeMap.mem_iff_isSome_getElem?, getElem?_visibleMap]

/-! ## The operations -/

theorem counted_insert_some (h : Counted self) {seen : VisibleDiscoveredPeer} {last : Duration}
    {count : Nat} (hcount : count = if key ∈ self.visibleMap then self.visibleCount
      else self.visibleCount + 1) :
    Counted ⟨self.records.insert key ⟨some seen, last⟩, count⟩ := by
  have hmap : visibleMap ⟨self.records.insert key ⟨some seen, last⟩, count⟩ =
      self.visibleMap.insert key seen.peer := visibleMap_insert
  simp only [Counted, hmap, Std.ExtTreeMap.size_insert, Std.ExtTreeMap.mem_iff_contains] at hcount ⊢
  rw [hcount, h]

theorem counted_insert_none (h : Counted self) {last : Duration} {count : Nat}
    (hcount : count = if key ∈ self.visibleMap then self.visibleCount - 1
      else self.visibleCount) : Counted ⟨self.records.insert key ⟨none, last⟩, count⟩ := by
  have hmap : visibleMap ⟨self.records.insert key ⟨none, last⟩, count⟩ =
      self.visibleMap.erase key := visibleMap_insert
  simp only [Counted, hmap, Std.ExtTreeMap.size_erase, Std.ExtTreeMap.mem_iff_contains] at hcount ⊢
  rw [hcount, h]

/-- The counter does not underflow while a peer is visible. -/
theorem decrement_of_mem (h : Counted self) (hkey : key ∈ self.visibleMap) :
    decrement self.visibleCount = .ok (self.visibleCount - 1) := by
  have hpos : self.visibleCount ≠ 0 := by
    rw [h]
    intro h0
    have := Std.ExtTreeMap.eq_empty_iff_size_eq_zero.mpr h0
    rw [this] at hkey
    exact Std.ExtTreeMap.not_mem_empty hkey
  cases hc : self.visibleCount with
  | zero => exact absurd hc hpos
  | succ n => rfl

/-- Lookups after writing one record. -/
theorem getElem?_records_insert {record : PeerRecord} (k : TransientDiscoveryKey) :
    (self.records.insert key record)[k]? = if key = k then some record else self.records[k]? := by
  rw [Std.ExtTreeMap.getElem?_insert]
  simp

theorem getElem?_records_self {record : PeerRecord} (hrecord : self.records[key]? = some record)
    (k : TransientDiscoveryKey) :
    self.records[k]? = if key = k then some record else self.records[k]? := by
  by_cases hk : key = k
  · rw [if_pos hk, ← hk, hrecord]
  · rw [if_neg hk]

/-- An observation follows the rule of its key and touches no other record. -/
theorem observe_spec (h : Counted self) (peer : DiscoveredPeer) (observedAt : Duration) :
    let r := observeRecord peer observedAt self.records[peer.key]?
    (self.observe peer observedAt).1 = r.1 ∧
      (∀ k, (self.observe peer observedAt).2.records[k]? =
        if peer.key = k then some r.2 else self.records[k]?) ∧
      Counted (self.observe peer observedAt).2 := by
  cases hrecord : self.records[peer.key]? with
  | none =>
      have hmem : peer.key ∉ self.visibleMap := by simp [mem_visibleMap, hrecord]
      simp only [observe, hrecord, observeRecord]
      exact ⟨trivial, getElem?_records_insert, counted_insert_some h (if_neg hmem).symm⟩
  | some record =>
      obtain ⟨visible, last⟩ := record
      by_cases hlt : observedAt < last
      · simp only [observe, hrecord, observeRecord, hlt, if_true, true_or]
        exact ⟨trivial, getElem?_records_self hrecord, h⟩
      · cases visible with
        | none =>
            have hmem : peer.key ∉ self.visibleMap := by
              simp [mem_visibleMap, hrecord, visiblePeer]
            by_cases heq : observedAt = last
            · subst heq
              simp only [observe, hrecord, observeRecord, Nat.lt_irrefl, Option.isNone_none,
                and_self, if_true, or_true, if_false]
              exact ⟨trivial, getElem?_records_self hrecord, h⟩
            · simp only [observe, hrecord, observeRecord, hlt, heq, and_false, or_self, if_false]
              exact ⟨trivial, getElem?_records_insert, counted_insert_some h (if_neg hmem).symm⟩
        | some visible =>
            have hmem : peer.key ∈ self.visibleMap := by
              simp [mem_visibleMap, hrecord, visiblePeer]
            have hcounted : Counted ⟨self.records.insert peer.key
                ⟨some ⟨peer, observedAt⟩, observedAt⟩, self.visibleCount⟩ :=
              counted_insert_some h (if_pos hmem).symm
            simp only [observe, hrecord, observeRecord, hlt, Option.isNone_some, Bool.false_eq_true,
              false_and, or_self, if_false]
            by_cases hpeer : visible.peer = peer
            · simp only [hpeer, if_true]
              exact ⟨trivial, getElem?_records_insert, hcounted⟩
            · simp only [hpeer, if_false]
              exact ⟨trivial, getElem?_records_insert, hcounted⟩

/-- So does a removal; its counter does not underflow. -/
theorem remove_spec (h : Counted self) (key : TransientDiscoveryKey) (removedAt : Duration) :
    let r := removeRecord key removedAt self.records[key]?
    ∃ s', self.remove key removedAt = .ok (r.1, s') ∧
      (∀ k, s'.records[k]? = if key = k then some r.2 else self.records[k]?) ∧ Counted s' := by
  cases hrecord : self.records[key]? with
  | none =>
      have hmem : key ∉ self.visibleMap := by simp [mem_visibleMap, hrecord]
      simp only [remove, hrecord, removeRecord]
      exact ⟨_, rfl, getElem?_records_insert, counted_insert_none h (if_neg hmem).symm⟩
  | some record =>
      obtain ⟨visible, last⟩ := record
      by_cases hlt : removedAt < last
      · simp only [remove, hrecord, removeRecord, hlt, if_true]
        exact ⟨_, rfl, getElem?_records_self hrecord, h⟩
      · have hmax : max last removedAt = removedAt := Nat.max_eq_right (Nat.le_of_not_lt hlt)
        cases visible with
        | none =>
            have hmem : key ∉ self.visibleMap := by simp [mem_visibleMap, hrecord, visiblePeer]
            simp only [remove, hrecord, removeRecord, hlt, if_false, Option.isSome_none,
              Bool.false_eq_true]
            exact ⟨_, rfl, getElem?_records_insert, counted_insert_none h (if_neg hmem).symm⟩
        | some visible =>
            have hmem : key ∈ self.visibleMap := by simp [mem_visibleMap, hrecord, visiblePeer]
            simp only [remove, hrecord, removeRecord, hlt, if_false, Option.isSome_some, if_true,
              decrement_of_mem h hmem, hmax]
            exact ⟨_, rfl, getElem?_records_insert, counted_insert_none h (if_pos hmem).symm⟩

/-- Expiring distinct visible keys turns each into a tombstone and touches no other. -/
theorem expireKeys_spec (now : Duration) (h : Counted self) {keys : List TransientDiscoveryKey}
    (hnodup : keys.Nodup) (hvisible : ∀ key ∈ keys, key ∈ self.visibleMap) :
    ∃ s', expireKeys now self keys = .ok (keys.map (.removed · .expired), s') ∧
      (∀ k, s'.records[k]? = if k ∈ keys then some ⟨none, now⟩ else self.records[k]?) ∧
      Counted s' := by
  induction keys generalizing self with
  | nil => exact ⟨self, rfl, by simp, h⟩
  | cons key keys ih =>
      have hmem := hvisible key List.mem_cons_self
      obtain ⟨hnot, hnodup⟩ := List.nodup_cons.mp hnodup
      let next : DiscoveredPeerState :=
        ⟨self.records.insert key ⟨none, now⟩, self.visibleCount - 1⟩
      have hnext : next.visibleMap = self.visibleMap.erase key := visibleMap_insert
      have hkeys : ∀ k ∈ keys, k ∈ next.visibleMap := by
        intro k hk
        rw [hnext, Std.ExtTreeMap.mem_erase]
        have hne : key ≠ k := fun heq => hnot (heq ▸ hk)
        exact ⟨by simpa using hne, hvisible k (List.mem_cons_of_mem _ hk)⟩
      obtain ⟨s', hrun, hlookup, hcounted⟩ :=
        ih (counted_insert_none h (if_pos hmem).symm) hnodup hkeys
      obtain ⟨record, hrecord⟩ : ∃ record, self.records[key]? = some record := by
        rw [mem_visibleMap] at hmem
        cases hr : self.records[key]? with
        | none => simp [hr] at hmem
        | some record => exact ⟨record, rfl⟩
      have hone : expireKey now self key = .ok (.removed key .expired, next) := by
        simp only [expireKey, hrecord, decrement_of_mem h hmem]
        rfl
      refine ⟨s', ?_, fun k => ?_, hcounted⟩
      · simp only [expireKeys, hone, bind, Except.bind, List.map_cons]
        rw [hrun]
      · rw [hlookup, getElem?_records_insert]
        by_cases hk : k ∈ keys
        · simp [hk]
        · by_cases heq : key = k <;> simp [hk, heq, eq_comm]

/-! ## The keys an expiry removes -/

theorem mem_expiredKeys : k ∈ self.expiredKeys now staleAfter ↔
    ∃ record, self.records[k]? = some record ∧ isStale now staleAfter record := by
  simp only [expiredKeys, mem_sortByKey, List.mem_filterMap, Option.ite_none_right_eq_some,
    Option.some.injEq, Prod.exists]
  constructor
  · rintro ⟨key, record, hmem, hstale, rfl⟩
    exact ⟨record, Std.ExtTreeMap.mem_toList_iff_getElem?_eq_some.mp hmem, hstale⟩
  · rintro ⟨record, hrecord, hstale⟩
    exact ⟨k, record, Std.ExtTreeMap.mem_toList_iff_getElem?_eq_some.mpr hrecord, hstale, rfl⟩

/-- The keys come in increasing order, each once. -/
theorem expiredKeys_ordered : StrictlyOrdered id (self.expiredKeys now staleAfter) := by
  apply strictlyOrdered_sortByKey
  rw [List.map_id]
  refine List.Nodup.sublist ?_ (nodup_keys self.records)
  induction self.records.toList with
  | nil => simp
  | cons entry entries ih =>
      rw [List.filterMap_cons, List.map_cons]
      split
      · exact ih.cons _
      · next key hkey =>
          split at hkey
          · cases hkey
            exact ih.cons_cons _
          · cases hkey

theorem mem_visibleMap_of_expiredKeys (h : k ∈ self.expiredKeys now staleAfter) :
    k ∈ self.visibleMap := by
  obtain ⟨⟨visible, last⟩, hrecord, hstale⟩ := mem_expiredKeys.mp h
  cases visible with
  | none => cases hstale
  | some visible => simp [mem_visibleMap, hrecord, visiblePeer]

end DiscoveredPeerState

end LocalTransfer
