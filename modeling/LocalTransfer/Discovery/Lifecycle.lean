import LocalTransfer.Discovery.Browser

/-!
# The lifecycle of discovered peers

`DiscoveredPeerState` of `discovered_peers.rs`. `apply` and `expire` take the pruning of
tombstones as a parameter: the program runs with `pruneTombstones`, and the same code
with a pruning that does nothing is the machine that never forgets. What the two
operations do to one key is said by `observeRecord` and `removeRecord`.
-/

namespace LocalTransfer

open Lib

def maxRetainedTombstones : Nat := 256

def tombstoneRetention : Duration := .fromSecs 300

structure VisibleDiscoveredPeer where
  peer : DiscoveredPeer
  lastObservedAt : Duration
  deriving DecidableEq

inductive DiscoveredPeerRemovalReason
  | explicit
  | expired
  deriving DecidableEq, Repr

inductive DiscoveredPeerNoopReason
  | alreadyAbsent
  | stale
  deriving DecidableEq, Repr

inductive DiscoveredPeerTransition
  | appeared (key : TransientDiscoveryKey)
  | refreshed (key : TransientDiscoveryKey)
  | updated (key : TransientDiscoveryKey)
  | removed (key : TransientDiscoveryKey) (reason : DiscoveredPeerRemovalReason)
  | noop (key : TransientDiscoveryKey) (reason : DiscoveredPeerNoopReason)
  | rejected (error : DiscoveryBrowserError)
  deriving DecidableEq

/-- A record without a visible peer is a tombstone. -/
structure PeerRecord where
  visible : Option VisibleDiscoveredPeer
  lastTransitionAt : Duration
  deriving DecidableEq

/-- The two ways the code could panic: an expired key without a record, and a counter
below zero. -/
inductive LifecyclePanic
  | missingRecord
  | countUnderflow

structure DiscoveredPeerState where
  records : Std.ExtTreeMap TransientDiscoveryKey PeerRecord
  visibleCount : Nat

namespace DiscoveredPeerState

def new : DiscoveredPeerState := ⟨∅, 0⟩

def len (self : DiscoveredPeerState) : Nat := self.visibleCount

def get (self : DiscoveredPeerState) (key : TransientDiscoveryKey) : Option DiscoveredPeer := do
  let record ← self.records[key]?
  let visible ← record.visible
  some visible.peer

/-- The visible peers, in an order nobody may rely on. -/
def iter (self : DiscoveredPeerState) : List DiscoveredPeer :=
  self.records.toList.filterMap fun entry => entry.2.visible.map VisibleDiscoveredPeer.peer

/-- `visible_count -= 1` -/
def decrement (count : Nat) : Except LifecyclePanic Nat :=
  match count with
  | 0 => .error .countUnderflow
  | count + 1 => .ok count

def observe (self : DiscoveredPeerState) (peer : DiscoveredPeer) (observedAt : Duration) :
    DiscoveredPeerTransition × DiscoveredPeerState :=
  let key := peer.key
  let seen : PeerRecord := ⟨some ⟨peer, observedAt⟩, observedAt⟩
  match self.records[key]? with
  | some record =>
      if observedAt < record.lastTransitionAt then (.noop key .stale, self)
      else if record.visible.isNone ∧ observedAt = record.lastTransitionAt then
        (.noop key .stale, self)
      else
        match record.visible with
        | some visible =>
            if visible.peer = peer then
              (.refreshed key, { self with records := self.records.insert key seen })
            else (.updated key, { self with records := self.records.insert key seen })
        | none => (.appeared key, ⟨self.records.insert key seen, self.visibleCount + 1⟩)
  | none => (.appeared key, ⟨self.records.insert key seen, self.visibleCount + 1⟩)

def remove (self : DiscoveredPeerState) (key : TransientDiscoveryKey) (removedAt : Duration) :
    Except LifecyclePanic (DiscoveredPeerTransition × DiscoveredPeerState) :=
  match self.records[key]? with
  | some record =>
      if removedAt < record.lastTransitionAt then .ok (.noop key .stale, self)
      else if record.visible.isSome then do
        let count ← decrement self.visibleCount
        .ok (.removed key .explicit, ⟨self.records.insert key ⟨none, removedAt⟩, count⟩)
      else
        .ok (.noop key .alreadyAbsent, { self with
          records := self.records.insert key
            { record with lastTransitionAt := max record.lastTransitionAt removedAt } })
  | none =>
      .ok (.noop key .alreadyAbsent,
        { self with records := self.records.insert key ⟨none, removedAt⟩ })

/-- Whether age pruning keeps a record. -/
def retained (now : Duration) (record : PeerRecord) : Bool :=
  record.visible.isSome || now < record.lastTransitionAt ||
    now - record.lastTransitionAt ≤ tombstoneRetention

/-- Tombstones by time, then by key. -/
def tombstones (records : Std.ExtTreeMap TransientDiscoveryKey PeerRecord) :
    List (Duration ×ₗ TransientDiscoveryKey) :=
  (records.toList.filter fun entry => entry.2.visible.isNone).map fun entry =>
    toLex (entry.2.lastTransitionAt, entry.1)

def pruneTombstones (self : DiscoveredPeerState) (now : Duration) : DiscoveredPeerState :=
  let records := self.records.filter fun _ record => retained now record
  let tombs := tombstones records
  if tombs.length ≤ maxRetainedTombstones then { self with records }
  else
    let excess := tombs.length - maxRetainedTombstones
    let oldest := (sortByKey id tombs).take excess
    { self with records := oldest.foldl (fun records tomb => records.erase (ofLex tomb).2) records }

/-- A pruning of tombstones. -/
abbrev Pruning := DiscoveredPeerState → Duration → DiscoveredPeerState

/-- The pruning of a machine that never forgets. -/
def keepAll : Pruning := fun self _ => self

def apply (prune : Pruning) (self : DiscoveredPeerState) (event : DiscoveryBrowserEvent)
    (observedAt : Duration) :
    Except LifecyclePanic (DiscoveredPeerTransition × DiscoveredPeerState) :=
  match event with
  | .added peer | .updated peer | .refreshed peer =>
      .ok ((prune self observedAt).observe peer observedAt)
  | .removed key => do
      let (transition, self) ← (prune self observedAt).remove key observedAt
      .ok (transition, prune self observedAt)
  | .error error => .ok (.rejected error, self)

/-- Whether a visible peer is at least `staleAfter` old. -/
def isStale (now staleAfter : Duration) (record : PeerRecord) : Bool :=
  match record.visible with
  | none => false
  | some visible => visible.lastObservedAt ≤ now && staleAfter ≤ now - visible.lastObservedAt

def expireKey (now : Duration) (self : DiscoveredPeerState) (key : TransientDiscoveryKey) :
    Except LifecyclePanic (DiscoveredPeerTransition × DiscoveredPeerState) :=
  match self.records[key]? with
  | none => .error .missingRecord
  | some _ => do
      let count ← decrement self.visibleCount
      .ok (.removed key .expired, ⟨self.records.insert key ⟨none, now⟩, count⟩)

def expireKeys (now : Duration) (self : DiscoveredPeerState) : List TransientDiscoveryKey →
    Except LifecyclePanic (List DiscoveredPeerTransition × DiscoveredPeerState)
  | [] => .ok ([], self)
  | key :: keys => do
      let (transition, self) ← expireKey now self key
      let (transitions, self) ← expireKeys now self keys
      .ok (transition :: transitions, self)

/-- The keys `expire` removes, in order. -/
def expiredKeys (self : DiscoveredPeerState) (now staleAfter : Duration) :
    List TransientDiscoveryKey :=
  sortByKey id <| self.records.toList.filterMap fun entry =>
    if isStale now staleAfter entry.2 then some entry.1 else none

def expire (prune : Pruning) (self : DiscoveredPeerState) (now staleAfter : Duration) :
    Except LifecyclePanic (List DiscoveredPeerTransition × DiscoveredPeerState) := do
  let self := prune self now
  let (transitions, self) ← expireKeys now self (self.expiredKeys now staleAfter)
  .ok (transitions, prune self now)

end DiscoveredPeerState

end LocalTransfer
