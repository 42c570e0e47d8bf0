import LocalTransfer.Discovery.Transitions

/-!
# The machine of one key

What a call does to one key is a function of that key's record alone (`keyStep`). A call
of a machine that never forgets is the family of these functions, key by key
(`call_keepAll_spec`); a call of any other machine is such a call with prunings around
it (`call_eq`).
-/

namespace LocalTransfer

open Lib

/-- The transitions that name a key. -/
def about (key : TransientDiscoveryKey) (ts : List DiscoveredPeerTransition) :
    List DiscoveredPeerTransition :=
  ts.filter fun t => t.key = some key

/-- Whether a call is an event of a key, or an expiry. -/
def LifecycleCall.concerns (key : TransientDiscoveryKey) : LifecycleCall → Bool
  | .apply (.added peer) _ | .apply (.updated peer) _ | .apply (.refreshed peer) _ =>
      peer.key = key
  | .apply (.removed k) _ => k = key
  | .apply (.error _) _ => false
  | .expire _ _ => true

/-- What a call does to one key: the transitions that name it, and its record afterwards. -/
def keyStep (key : TransientDiscoveryKey) (c : LifecycleCall) (record : Option PeerRecord) :
    List DiscoveredPeerTransition × Option PeerRecord :=
  match c with
  | .apply (.added peer) observedAt | .apply (.updated peer) observedAt
  | .apply (.refreshed peer) observedAt =>
      if peer.key = key then
        ([(observeRecord peer observedAt record).1], some (observeRecord peer observedAt record).2)
      else ([], record)
  | .apply (.removed k) removedAt =>
      if k = key then
        ([(removeRecord k removedAt record).1], some (removeRecord k removedAt record).2)
      else ([], record)
  | .apply (.error _) _ => ([], record)
  | .expire now staleAfter =>
      if record.any (DiscoveredPeerState.isStale now staleAfter) then
        ([.removed key .expired], some ⟨none, now⟩)
      else ([], record)

/-- A run of the machine of one key. -/
def keyRun (key : TransientDiscoveryKey) :
    List LifecycleCall → Option PeerRecord → List DiscoveredPeerTransition × Option PeerRecord
  | [], record => ([], record)
  | c :: cs, record =>
      let step := keyStep key c record
      let rest := keyRun key cs step.2
      (step.1 ++ rest.1, rest.2)

section

variable {key : TransientDiscoveryKey} {peer : DiscoveredPeer} {record : Option PeerRecord}
  {at' : Duration}

@[simp] theorem key_observeRecord : (observeRecord peer at' record).1.key = some peer.key := by
  cases record with
  | none => rfl
  | some record =>
      simp only [observeRecord]
      split
      · rfl
      · split
        · split <;> rfl
        · rfl

@[simp] theorem key_removeRecord : (removeRecord key at' record).1.key = some key := by
  cases record with
  | none => rfl
  | some record =>
      simp only [removeRecord]
      split
      · rfl
      · dsimp only
        split <;> rfl

theorem about_append (ts rest : List DiscoveredPeerTransition) :
    about key (ts ++ rest) = about key ts ++ about key rest :=
  List.filter_append ts rest

theorem about_singleton {t : DiscoveredPeerTransition} {k : TransientDiscoveryKey}
    (h : t.key = some k) : about key [t] = if k = key then [t] else [] := by
  by_cases hk : k = key <;> simp [about, h, hk]

/-- Distinct keys are reported once each. -/
theorem about_map_removed {keys : List TransientDiscoveryKey} (hnodup : keys.Nodup)
    {reason : DiscoveredPeerRemovalReason} :
    about key (keys.map (.removed · reason)) =
      if key ∈ keys then [.removed key reason] else [] := by
  have hfilter : about key (keys.map (.removed · reason)) =
      (keys.filter (· = key)).map (.removed · reason) := by
    rw [about, List.filter_map]
    congr 1
    exact List.filter_congr fun k _ => by simp [DiscoveredPeerTransition.key]
  rw [hfilter, List.filter_eq]
  split
  · next hmem => rw [List.count_eq_one_of_mem hnodup hmem, List.replicate_one, List.map_singleton]
  · next hmem => rw [List.count_eq_zero_of_not_mem hmem, List.replicate_zero, List.map_nil]

/-- A call that does not concern a key leaves its record and does not name it. -/
theorem keyStep_of_not_concerns {c : LifecycleCall} (h : c.concerns key = false) :
    keyStep key c record = ([], record) := by
  cases c with
  | apply event observedAt =>
      cases event with
      | added peer | updated peer | refreshed peer | removed k =>
          exact if_neg (of_decide_eq_false h)
      | error error => rfl
  | expire now staleAfter => cases h

/-- The other keys' events change nothing for a key. -/
theorem keyRun_filter (key : TransientDiscoveryKey) (calls : List LifecycleCall)
    (record : Option PeerRecord) :
    keyRun key (calls.filter (LifecycleCall.concerns key)) record = keyRun key calls record := by
  induction calls generalizing record with
  | nil => rfl
  | cons c calls ih =>
      cases hc : c.concerns key with
      | true => rw [List.filter_cons_of_pos hc, keyRun, keyRun, ih]
      | false =>
          rw [List.filter_cons_of_neg (by simp [hc]), keyRun, keyStep_of_not_concerns hc, ih]
          rfl

end

/-! ## Calls -/

/-- Whether a call prunes before its work. -/
def LifecycleCall.prunesBefore : LifecycleCall → Bool
  | .apply (.error _) _ => false
  | .apply _ _ | .expire _ _ => true

/-- Whether a call prunes after its work. -/
def LifecycleCall.prunesAfter : LifecycleCall → Bool
  | .apply (.removed _) _ | .expire _ _ => true
  | .apply _ _ => false

namespace DiscoveredPeerState

variable {prune : Pruning} {s s' : DiscoveredPeerState} {key : TransientDiscoveryKey}

/-- A pruning that is made or skipped. -/
def pruneWhen (prune : Pruning) (due : Bool) (self : DiscoveredPeerState) (now : Duration) :
    DiscoveredPeerState :=
  if due then prune self now else self

/-- A call is the call that never forgets, with prunings around it. -/
theorem call_eq (prune : Pruning) (s : DiscoveredPeerState) (c : LifecycleCall) :
    s.call prune c = (do
      let (ts, next) ← (pruneWhen prune c.prunesBefore s c.time).call keepAll c
      .ok (ts, pruneWhen prune c.prunesAfter next c.time)) := by
  cases c with
  | apply event observedAt =>
      cases event with
      | added | updated | refreshed | error => rfl
      | removed k =>
          simp only [call, apply, keepAll, pruneWhen, LifecycleCall.prunesBefore,
            LifecycleCall.prunesAfter, LifecycleCall.time, if_true, bind, Except.bind]
          cases (prune s observedAt).remove k observedAt <;> rfl
  | expire now staleAfter =>
      simp only [call, expire, keepAll, pruneWhen, LifecycleCall.prunesBefore,
        LifecycleCall.prunesAfter, LifecycleCall.time, if_true, bind, Except.bind]
      cases expireKeys now (prune s now) ((prune s now).expiredKeys now staleAfter) <;> rfl

/-- A call that applies an event returns its one transition. -/
theorem apply_of_call {event : DiscoveryBrowserEvent} {now : Duration}
    {ts : List DiscoveredPeerTransition} (h : s.call prune (.apply event now) = .ok (ts, s')) :
    ∃ t, s.apply prune event now = .ok (t, s') ∧ ts = [t] := by
  simp only [call] at h
  cases happly : s.apply prune event now with
  | error reason =>
      rw [happly] at h
      cases h
  | ok result =>
      rw [happly] at h
      cases h
      exact ⟨result.1, rfl, rfl⟩

/-- What a call that never forgets returns. -/
def report (self : DiscoveredPeerState) : LifecycleCall → List DiscoveredPeerTransition
  | .apply (.added peer) observedAt | .apply (.updated peer) observedAt
  | .apply (.refreshed peer) observedAt =>
      [(observeRecord peer observedAt self.records[peer.key]?).1]
  | .apply (.removed key) removedAt => [(removeRecord key removedAt self.records[key]?).1]
  | .apply (.error error) _ => [.rejected error]
  | .expire now staleAfter => (self.expiredKeys now staleAfter).map (.removed · .expired)

theorem nodup_expiredKeys (s : DiscoveredPeerState) (now staleAfter : Duration) :
    (s.expiredKeys now staleAfter).Nodup :=
  expiredKeys_ordered.imp fun hlt => hlt.ne

theorem mem_expiredKeys_iff_any {now staleAfter : Duration} :
    key ∈ s.expiredKeys now staleAfter ↔ s.records[key]?.any (isStale now staleAfter) := by
  rw [mem_expiredKeys, Option.any_eq_true]

/-- What is reported of a key is what the machine of that key reports. -/
theorem about_report (s : DiscoveredPeerState) (c : LifecycleCall) (key : TransientDiscoveryKey) :
    about key (s.report c) = (keyStep key c s.records[key]?).1 := by
  cases c with
  | apply event observedAt =>
      cases event with
      | added peer | updated peer | refreshed peer =>
          rw [report, about_singleton key_observeRecord, keyStep]
          split
          · next hkey => rw [hkey]
          · rfl
      | removed k =>
          rw [report, about_singleton key_removeRecord, keyStep]
          split
          · next hkey => rw [hkey]
          · rfl
      | error error => rfl
  | expire now staleAfter =>
      rw [report, about_map_removed (nodup_expiredKeys s now staleAfter), keyStep]
      simp only [mem_expiredKeys_iff_any]
      split <;> rfl

/-- Two states whose machines report the same, key by key, report the same. -/
theorem report_congr {c : LifecycleCall} (h : ∀ key : TransientDiscoveryKey,
    (keyStep key c s.records[key]?).1 = (keyStep key c s'.records[key]?).1) :
    s.report c = s'.report c := by
  cases c with
  | apply event observedAt =>
      cases event with
      | added peer | updated peer | refreshed peer =>
          simpa [report, keyStep] using h peer.key
      | removed k => simpa [report, keyStep] using h k
      | error error => rfl
  | expire now staleAfter =>
      have hkeys : s.expiredKeys now staleAfter = s'.expiredKeys now staleAfter := by
        refine expiredKeys_ordered.ext expiredKeys_ordered fun key => ?_
        have hkey := h key
        simp only [keyStep, ← mem_expiredKeys_iff_any] at hkey
        by_cases hs : key ∈ s.expiredKeys now staleAfter <;>
          by_cases hs' : key ∈ s'.expiredKeys now staleAfter <;> simp_all
      rw [report, report, hkeys]

/-- Without forgetting, a call is one step of the machine of each key. -/
theorem call_keepAll_spec (h : Counted s) (c : LifecycleCall) :
    ∃ s', s.call keepAll c = .ok (s.report c, s') ∧ Counted s' ∧
      ∀ key : TransientDiscoveryKey, s'.records[key]? = (keyStep key c s.records[key]?).2 := by
  cases c with
  | apply event observedAt =>
      cases event with
      | added peer | updated peer | refreshed peer =>
          obtain ⟨hresult, hlookup, hs'⟩ := observe_spec h peer observedAt
          refine ⟨_, ?_, hs', fun key => ?_⟩
          · rw [report, ← hresult]
            rfl
          · rw [hlookup, keyStep]
            split
            · next hkey => rw [hkey]
            · rfl
      | removed k =>
          obtain ⟨s', hrun, hlookup, hs'⟩ := remove_spec h k observedAt
          refine ⟨s', ?_, hs', fun key => ?_⟩
          · simp only [call, apply, keepAll, hrun, bind, Except.bind, report]
          · rw [hlookup, keyStep]
            split
            · next hkey => rw [hkey]
            · rfl
      | error error => exact ⟨s, rfl, h, fun key => rfl⟩
  | expire now staleAfter =>
      obtain ⟨s', hrun, hlookup, hs'⟩ := expireKeys_spec now h
        (nodup_expiredKeys s now staleAfter) fun key hkey => mem_visibleMap_of_expiredKeys hkey
      refine ⟨s', ?_, hs', fun key => ?_⟩
      · simp only [call, expire, keepAll, hrun, bind, Except.bind, report]
      · rw [hlookup, keyStep]
        simp only [mem_expiredKeys_iff_any]
        split <;> rfl

/-- A record is as it was, or it was a tombstone and is gone. -/
def Forgot (record record' : Option PeerRecord) : Prop :=
  record' = record ∨ (record' = none ∧ ∃ last, record = some ⟨none, last⟩)

theorem Forgot.visible {record record' : Option PeerRecord} (h : Forgot record record')
    {r : PeerRecord} (hr : r.visible.isSome) : record' = some r ↔ record = some r := by
  rcases h with rfl | ⟨rfl, last, rfl⟩
  · exact Iff.rfl
  · constructor
    · intro h
      cases h
    · intro h
      cases h
      cases hr

theorem Forgot.isStale {record record' : Option PeerRecord} (h : Forgot record record')
    (now staleAfter : Duration) :
    record'.any (isStale now staleAfter) = record.any (isStale now staleAfter) := by
  rcases h with rfl | ⟨rfl, last, rfl⟩
  · rfl
  · rfl

/-- With a safe pruning, a call is one step of the machine of each key, before and after
which a tombstone may be forgotten. -/
theorem call_spec (hprune : SafePruning prune) (h : Counted s) (c : LifecycleCall) :
    ∃ ts s', s.call prune c = .ok (ts, s') ∧ Counted s' ∧ ∀ key : TransientDiscoveryKey,
      ∃ record, Forgot s.records[key]? record ∧ about key ts = (keyStep key c record).1 ∧
        Forgot (keyStep key c record).2 s'.records[key]? := by
  have hwhen : ∀ due s, Counted s → Counted (pruneWhen prune due s c.time) ∧
      ∀ key : TransientDiscoveryKey,
        Forgot s.records[key]? (pruneWhen prune due s c.time).records[key]? := by
    intro due s hs
    cases due with
    | true => exact ⟨hprune.counted _ hs, fun key => hprune.records s c.time key⟩
    | false => exact ⟨hs, fun key => .inl rfl⟩
  obtain ⟨hbefore, hforgot⟩ := hwhen c.prunesBefore s h
  obtain ⟨next, hcall, hnext, hstep⟩ := call_keepAll_spec hbefore c
  obtain ⟨hafter, hforgot'⟩ := hwhen c.prunesAfter next hnext
  refine ⟨_, _, ?_, hafter, fun key => ⟨_, hforgot key, about_report _ c key, ?_⟩⟩
  · rw [call_eq, hcall]
    rfl
  · rw [← hstep key]
    exact hforgot' key

/-- A run is a run of the machine of each key. -/
theorem run_keepAll_spec (h : Counted s) (calls : List LifecycleCall) :
    ∃ steps, s.run keepAll calls = .ok steps ∧ ∀ key : TransientDiscoveryKey,
      about key (steps.flatMap LifecycleStep.transitions) =
        (keyRun key calls s.records[key]?).1 := by
  induction calls generalizing s with
  | nil => exact ⟨[], rfl, fun key => rfl⟩
  | cons c calls ih =>
      obtain ⟨s', hcall, hs', hrecords⟩ := call_keepAll_spec h c
      obtain ⟨steps, hrun, hrest⟩ := ih hs'
      refine ⟨⟨c, s.report c, s'⟩ :: steps, ?_, fun key => ?_⟩
      · simp only [run, hcall, hrun, bind, Except.bind]
      · rw [List.flatMap_cons, about_append, about_report, hrest, hrecords key]
        rfl

end DiscoveredPeerState

end LocalTransfer
