import LocalTransfer.Discovery.Tombstones

/-!
# The transitions tell the whole story

Runs of `apply` and `expire`, and what their returned transitions say. Each transition
reports truthfully what was visible before (`Truthful`), and replaying the transitions
from the empty map gives the visible map after every call. This holds for every pruning
that drops tombstones only.
-/

namespace LocalTransfer

open Lib

abbrev VisibleMap := Std.ExtTreeMap TransientDiscoveryKey DiscoveredPeer

/-! ## Runs -/

inductive LifecycleCall
  | apply (event : DiscoveryBrowserEvent) (observedAt : Duration)
  | expire (now staleAfter : Duration)

/-- A call with what it returned and the state it left. -/
structure LifecycleStep where
  call : LifecycleCall
  transitions : List DiscoveredPeerTransition
  after : DiscoveredPeerState

def LifecycleCall.time : LifecycleCall → Duration
  | .apply _ observedAt => observedAt
  | .expire now _ => now

/-- The peer an event carries. -/
def DiscoveryBrowserEvent.peer : DiscoveryBrowserEvent → Option DiscoveredPeer
  | .added peer | .updated peer | .refreshed peer => some peer
  | .removed _ | .error _ => none

/-- The peer the applied event carries. -/
def LifecycleCall.peer : LifecycleCall → Option DiscoveredPeer
  | .apply event _ => event.peer
  | .expire _ _ => none

namespace DiscoveredPeerState

def call (prune : Pruning) (self : DiscoveredPeerState) :
    LifecycleCall → Except LifecyclePanic (List DiscoveredPeerTransition × DiscoveredPeerState)
  | .apply event observedAt => do
      let (transition, self) ← self.apply prune event observedAt
      .ok ([transition], self)
  | .expire now staleAfter => self.expire prune now staleAfter

/-- A run of calls. -/
def run (prune : Pruning) (self : DiscoveredPeerState) :
    List LifecycleCall → Except LifecyclePanic (List LifecycleStep)
  | [] => .ok []
  | c :: cs => do
      let (transitions, next) ← self.call prune c
      let rest ← next.run prune cs
      .ok (⟨c, transitions, next⟩ :: rest)

/-- A pruning that drops nothing but tombstones. -/
structure SafePruning (prune : Pruning) : Prop where
  count : ∀ s now, (prune s now).visibleCount = s.visibleCount
  records : ∀ s now (k : TransientDiscoveryKey), (prune s now).records[k]? = s.records[k]? ∨
    ((prune s now).records[k]? = none ∧ ∃ last, s.records[k]? = some ⟨none, last⟩)

theorem pruneTombstones_safe : SafePruning pruneTombstones where
  count s now := by
    unfold pruneTombstones
    dsimp only
    split <;> rfl
  records s now k := by
    rcases pruneTombstones_cases s now k with h | ⟨hnone, last, hrecord, -⟩
    · exact .inl h
    · exact .inr ⟨hnone, last, hrecord⟩

namespace SafePruning

variable {prune : Pruning} (h : SafePruning prune) {s : DiscoveredPeerState}
include h

theorem visibleMap_eq (s : DiscoveredPeerState) (now : Duration) :
    (prune s now).visibleMap = s.visibleMap := by
  refine visibleMap_congr fun k => ?_
  rcases h.records s now k with heq | ⟨hnone, last, hrecord⟩
  · rw [heq]
  · rw [hnone, hrecord]
    rfl

theorem counted (now : Duration) (hs : Counted s) : Counted (prune s now) := by
  rw [Counted, h.count, h.visibleMap_eq, hs]

end SafePruning

end DiscoveredPeerState

/-! ## What transitions say -/

/-- The key a transition names. -/
def DiscoveredPeerTransition.key : DiscoveredPeerTransition → Option TransientDiscoveryKey
  | .appeared key | .refreshed key | .updated key | .removed key _ | .noop key _ => some key
  | .rejected _ => none

/-- The visible map after a transition of a call that carries a peer or none. -/
def replay (bound : Option DiscoveredPeer) (v : VisibleMap) :
    DiscoveredPeerTransition → VisibleMap
  | .appeared key | .refreshed key | .updated key =>
      match bound with
      | some peer => v.insert key peer
      | none => v
  | .removed key _ => v.erase key
  | .noop _ _ | .rejected _ => v

def replaySteps (v : VisibleMap) (steps : List LifecycleStep) : VisibleMap :=
  steps.foldl (fun v step => step.transitions.foldl (replay step.call.peer) v) v

/-- A transition reports the kind of change it is. -/
def Truthful (bound : Option DiscoveredPeer) (v : VisibleMap) : DiscoveredPeerTransition → Prop
  | .appeared key => v[key]? = none ∧ ∃ peer, bound = some peer ∧ peer.key = key
  | .refreshed key => ∃ peer, bound = some peer ∧ peer.key = key ∧ v[key]? = some peer
  | .updated key => ∃ peer old, bound = some peer ∧ peer.key = key ∧ v[key]? = some old ∧ old ≠ peer
  | .removed key _ => (v[key]?).isSome
  | .noop _ _ | .rejected _ => True

/-- Each transition of a call is truthful about the map its predecessors left. -/
def AllTruthful (bound : Option DiscoveredPeer) : VisibleMap → List DiscoveredPeerTransition → Prop
  | _, [] => True
  | v, t :: ts => Truthful bound v t ∧ AllTruthful bound (replay bound v t) ts

/-- Appearances and removals of a key alternate. -/
def Alternates (key : TransientDiscoveryKey) : Bool → List DiscoveredPeerTransition → Prop
  | _, [] => True
  | visible, t :: ts =>
      match t with
      | .appeared k =>
          if k = key then visible = false ∧ Alternates key true ts else Alternates key visible ts
      | .removed k _ =>
          if k = key then visible = true ∧ Alternates key false ts else Alternates key visible ts
      | .refreshed _ | .updated _ | .noop _ _ | .rejected _ => Alternates key visible ts

section Replay

variable {bound : Option DiscoveredPeer} {v : VisibleMap} {key k : TransientDiscoveryKey}

/-- A transition changes no key but the one it names. -/
theorem getElem?_replay {t : DiscoveredPeerTransition} (h : t.key ≠ some k) :
    (replay bound v t)[k]? = v[k]? := by
  cases t with
  | appeared key | refreshed key | updated key =>
      have hne : key ≠ k := fun heq => h (congrArg some heq)
      cases bound with
      | none => rfl
      | some peer => simp [replay, Std.ExtTreeMap.getElem?_insert, hne]
  | removed key reason =>
      have hne : key ≠ k := fun heq => h (congrArg some heq)
      simp [replay, Std.ExtTreeMap.getElem?_erase, hne]
  | noop | rejected => rfl

theorem getElem?_foldl_replay {ts : List DiscoveredPeerTransition}
    (h : ∀ t ∈ ts, t.key ≠ some k) : (ts.foldl (replay bound) v)[k]? = v[k]? := by
  induction ts generalizing v with
  | nil => rfl
  | cons t ts ih =>
      rw [List.foldl_cons, ih fun t' ht' => h t' (List.mem_cons_of_mem _ ht'),
        getElem?_replay (h t List.mem_cons_self)]

theorem alternates_cons_of_ne {t : DiscoveredPeerTransition} {visible : Bool}
    {ts : List DiscoveredPeerTransition} (h : t.key ≠ some key) :
    Alternates key visible (t :: ts) ↔ Alternates key visible ts := by
  cases t with
  | appeared k | removed k reason =>
      have hne : k ≠ key := fun heq => h (congrArg some heq)
      simp only [Alternates, if_neg hne]
  | refreshed | updated | noop | rejected => rfl

/-- Truthful transitions alternate, whatever alternates after them. -/
theorem AllTruthful.alternates {ts rest : List DiscoveredPeerTransition}
    (h : AllTruthful bound v ts)
    (hrest : Alternates key ((ts.foldl (replay bound) v)[key]?).isSome rest) :
    Alternates key (v[key]?).isSome (ts ++ rest) := by
  induction ts generalizing v with
  | nil => exact hrest
  | cons t ts ih =>
      obtain ⟨ht, hts⟩ := h
      have hnext := ih hts hrest
      rw [List.cons_append]
      by_cases hk : t.key = some key
      · cases t with
        | appeared k =>
            cases hk
            obtain ⟨habsent, peer, rfl, rfl⟩ := ht
            simp only [Alternates, if_pos, habsent]
            exact ⟨rfl, by simpa [replay] using hnext⟩
        | removed k reason =>
            cases hk
            simp only [Alternates, if_pos]
            exact ⟨ht, by simpa [replay] using hnext⟩
        | refreshed k =>
            cases hk
            obtain ⟨peer, rfl, rfl, hpeer⟩ := ht
            simpa [Alternates, replay, hpeer] using hnext
        | updated k =>
            cases hk
            obtain ⟨peer, old, rfl, rfl, hold, -⟩ := ht
            simpa [Alternates, replay, hold] using hnext
        | noop | rejected => exact hnext
      · rw [getElem?_replay hk] at hnext
        exact (alternates_cons_of_ne hk).mpr hnext

end Replay

/-! ## One call -/

namespace DiscoveredPeerState

variable {prune : Pruning} {s s' : DiscoveredPeerState} {key : TransientDiscoveryKey}

theorem getElem?_visibleMap_of_write {record : PeerRecord}
    (h : ∀ k, s'.records[k]? = if key = k then some record else s.records[k]?)
    (k : TransientDiscoveryKey) :
    s'.visibleMap[k]? = if key = k then visiblePeer record else s.visibleMap[k]? := by
  rw [getElem?_visibleMap, getElem?_visibleMap, h]
  split <;> rfl

theorem observe_truthful (h : Counted s) (peer : DiscoveredPeer) (observedAt : Duration) :
    Truthful (some peer) s.visibleMap (s.observe peer observedAt).1 ∧
      (s.observe peer observedAt).2.visibleMap =
        replay (some peer) s.visibleMap (s.observe peer observedAt).1 := by
  obtain ⟨hresult, hlookup, -⟩ := observe_spec h peer observedAt
  have hbefore : s.visibleMap[peer.key]? = s.records[peer.key]?.bind visiblePeer :=
    getElem?_visibleMap
  have hafter := getElem?_visibleMap_of_write hlookup
  rw [hresult]
  generalize (s.observe peer observedAt).2 = s' at hafter
  cases hrecord : s.records[peer.key]? with
  | none =>
      simp only [hrecord, observeRecord, visiblePeer, Option.map_some] at hbefore hafter
      refine ⟨⟨hbefore, peer, rfl, rfl⟩, Std.ExtTreeMap.ext_getElem? fun k => ?_⟩
      rw [hafter]
      simp [observeRecord, replay, Std.ExtTreeMap.getElem?_insert]
  | some record =>
      simp only [hrecord, observeRecord, Option.bind_some] at hbefore hafter
      -- older than the record, or as old as a tombstone: nothing is written
      by_cases hstale : observedAt < record.lastTransitionAt ∨
          (record.visible.isNone ∧ observedAt = record.lastTransitionAt)
      · simp only [observeRecord, if_pos hstale] at hafter ⊢
        refine ⟨trivial, Std.ExtTreeMap.ext_getElem? fun k => ?_⟩
        rw [hafter, replay]
        split
        · next hk => rw [← hk, hbefore]
        · rfl
      · simp only [observeRecord, if_neg hstale] at hafter ⊢
        have hmap : s'.visibleMap = s.visibleMap.insert peer.key peer :=
          Std.ExtTreeMap.ext_getElem? fun k => by
            rw [hafter, Std.ExtTreeMap.getElem?_insert]
            simp [visiblePeer]
        cases hvisible : record.visible with
        | none =>
            rw [visiblePeer, hvisible] at hbefore
            exact ⟨⟨hbefore, peer, rfl, rfl⟩, hmap⟩
        | some visible =>
            rw [visiblePeer, hvisible, Option.map_some] at hbefore
            by_cases hpeer : visible.peer = peer
            · simp only [if_pos hpeer]
              exact ⟨⟨peer, rfl, rfl, hpeer ▸ hbefore⟩, hmap⟩
            · simp only [if_neg hpeer]
              exact ⟨⟨peer, visible.peer, rfl, rfl, hbefore, hpeer⟩, hmap⟩

theorem remove_truthful (h : Counted s) (removedAt : Duration) {t : DiscoveredPeerTransition}
    (hrun : s.remove key removedAt = .ok (t, s')) :
    Truthful none s.visibleMap t ∧ s'.visibleMap = replay none s.visibleMap t := by
  obtain ⟨s'', hok, hlookup, -⟩ := remove_spec h key removedAt
  rw [hok] at hrun
  cases hrun
  have hbefore : s.visibleMap[key]? = s.records[key]?.bind visiblePeer := getElem?_visibleMap
  have hafter := getElem?_visibleMap_of_write hlookup
  cases hrecord : s.records[key]? with
  | none =>
      simp only [hrecord, removeRecord, visiblePeer, Option.map_none] at hbefore hafter
      refine ⟨trivial, Std.ExtTreeMap.ext_getElem? fun k => ?_⟩
      rw [hafter, removeRecord, replay]
      split
      · next hk => rw [← hk, hbefore, Option.bind_none]
      · rfl
  | some record =>
      simp only [hrecord, Option.bind_some] at hbefore hafter
      -- only an older removal is refused; one of the same time wins over a visible peer
      by_cases hstale : removedAt < record.lastTransitionAt
      · simp only [removeRecord, if_pos hstale] at hafter ⊢
        refine ⟨trivial, Std.ExtTreeMap.ext_getElem? fun k => ?_⟩
        rw [hafter, replay]
        split
        · next hk => rw [← hk, hbefore]
        · rfl
      · simp only [removeRecord, if_neg hstale, visiblePeer, Option.map_none] at hafter ⊢
        have hmap : s'.visibleMap = s.visibleMap.erase key :=
          Std.ExtTreeMap.ext_getElem? fun k => by
            rw [hafter, Std.ExtTreeMap.getElem?_erase]
            simp
        cases hvisible : record.visible with
        | some visible =>
            simp only [Option.isSome_some, if_true]
            rw [visiblePeer, hvisible] at hbefore
            exact ⟨by simp only [Truthful, hbefore]; rfl, hmap⟩
        | none =>
            simp only [Option.isSome_none, Bool.false_eq_true, if_false]
            refine ⟨trivial, Std.ExtTreeMap.ext_getElem? fun k => ?_⟩
            rw [hafter, replay]
            split
            · next hk =>
                rw [← hk, hbefore, visiblePeer, hvisible]
                rfl
            · rfl

/-- Removals of distinct visible keys are truthful one after the other. -/
theorem allTruthful_removed (bound : Option DiscoveredPeer) (reason : DiscoveredPeerRemovalReason)
    {v : VisibleMap} {keys : List TransientDiscoveryKey} (hnodup : keys.Nodup)
    (hvisible : ∀ key ∈ keys, (v[key]?).isSome) :
    AllTruthful bound v (keys.map (.removed · reason)) ∧
      ∀ k, ((keys.map (.removed · reason)).foldl (replay bound) v)[k]? =
        if k ∈ keys then none else v[k]? := by
  induction keys generalizing v with
  | nil => exact ⟨trivial, by simp⟩
  | cons key keys ih =>
      obtain ⟨hnot, hnodup⟩ := List.nodup_cons.mp hnodup
      have herase : ∀ k, (v.erase key)[k]? = if key = k then none else v[k]? := fun k => by
        rw [Std.ExtTreeMap.getElem?_erase]
        simp
      obtain ⟨htruth, hfold⟩ := ih (v := v.erase key) hnodup fun k hk => by
        have hne : key ≠ k := fun heq => hnot (heq ▸ hk)
        rw [herase, if_neg hne]
        exact hvisible k (List.mem_cons_of_mem _ hk)
      refine ⟨⟨hvisible key List.mem_cons_self, htruth⟩, fun k => ?_⟩
      rw [List.map_cons, List.foldl_cons]
      refine (hfold k).trans ?_
      rw [herase]
      by_cases hk : k ∈ keys
      · simp [hk]
      · by_cases heq : key = k <;> simp [hk, heq, eq_comm]

theorem apply_truthful (hprune : SafePruning prune) (h : Counted s)
    (event : DiscoveryBrowserEvent) (observedAt : Duration) :
    ∃ t s', s.apply prune event observedAt = .ok (t, s') ∧ Counted s' ∧
      Truthful event.peer s.visibleMap t ∧ s'.visibleMap = replay event.peer s.visibleMap t := by
  have hcounted := hprune.counted observedAt h
  cases event with
  | added peer | updated peer | refreshed peer =>
      have htruth := observe_truthful hcounted peer observedAt
      rw [hprune.visibleMap_eq] at htruth
      exact ⟨_, _, rfl, (observe_spec hcounted peer observedAt).2.2, htruth⟩
  | removed key =>
      obtain ⟨s', hrun, -, hs'⟩ := remove_spec hcounted key observedAt
      have htruth := remove_truthful hcounted observedAt hrun
      rw [hprune.visibleMap_eq, ← hprune.visibleMap_eq s' observedAt] at htruth
      refine ⟨_, prune s' observedAt, ?_, hprune.counted _ hs', htruth⟩
      simp only [apply, hrun, bind, Except.bind]
  | error error => exact ⟨_, s, rfl, h, trivial, rfl⟩

theorem expire_truthful (hprune : SafePruning prune) (h : Counted s)
    (now staleAfter : Duration) :
    ∃ ts s', s.expire prune now staleAfter = .ok (ts, s') ∧ Counted s' ∧
      AllTruthful none s.visibleMap ts ∧ s'.visibleMap = ts.foldl (replay none) s.visibleMap := by
  have hcounted := hprune.counted now h
  let keys := (prune s now).expiredKeys now staleAfter
  have hnodup : keys.Nodup := expiredKeys_ordered.imp fun hlt => hlt.ne
  have hvisible : ∀ key ∈ keys, key ∈ (prune s now).visibleMap := fun key hkey =>
    mem_visibleMap_of_expiredKeys hkey
  obtain ⟨s', hrun, hlookup, hs'⟩ := expireKeys_spec now hcounted hnodup hvisible
  rw [hprune.visibleMap_eq] at hvisible
  obtain ⟨htruth, hfold⟩ := allTruthful_removed none .expired hnodup
    fun key hkey => Std.ExtTreeMap.mem_iff_isSome_getElem?.mp (hvisible key hkey)
  refine ⟨_, prune s' now, ?_, hprune.counted _ hs', htruth, ?_⟩
  · simp only [expire, keys] at hrun ⊢
    rw [hrun]
    rfl
  · rw [hprune.visibleMap_eq]
    refine Std.ExtTreeMap.ext_getElem? fun k => ?_
    rw [hfold, getElem?_visibleMap, hlookup]
    split
    · rfl
    · rw [← getElem?_visibleMap, hprune.visibleMap_eq]

theorem call_truthful (hprune : SafePruning prune) (h : Counted s) (c : LifecycleCall) :
    ∃ ts s', s.call prune c = .ok (ts, s') ∧ Counted s' ∧
      AllTruthful c.peer s.visibleMap ts ∧
      s'.visibleMap = ts.foldl (replay c.peer) s.visibleMap := by
  cases c with
  | apply event observedAt =>
      obtain ⟨t, s', hrun, hs', htruth, hmap⟩ := apply_truthful hprune h event observedAt
      refine ⟨[t], s', ?_, hs', ⟨htruth, trivial⟩, hmap⟩
      simp only [call, hrun, bind, Except.bind]
  | expire now staleAfter => exact expire_truthful hprune h now staleAfter

/-! ## Runs -/

/-- The state a run has reached. -/
def stateAfter (self : DiscoveredPeerState) (steps : List LifecycleStep) : DiscoveredPeerState :=
  steps.foldl (fun _ step => step.after) self

@[simp] theorem stateAfter_nil : stateAfter s [] = s := rfl

@[simp] theorem stateAfter_concat (steps : List LifecycleStep) (step : LifecycleStep) :
    stateAfter s (steps ++ [step]) = step.after := by
  rw [stateAfter, List.foldl_append]
  rfl

/-- An invariant that every call keeps holds wherever a run gets, and what every call does
from such a state, every step of the run does. -/
theorem run_of_call {I : DiscoveredPeerState → Prop}
    {Q : DiscoveredPeerState → LifecycleStep → Prop}
    (hcall : ∀ s c, I s → ∃ ts s', s.call prune c = .ok (ts, s') ∧ I s' ∧ Q s ⟨c, ts, s'⟩)
    (h : I s) (calls : List LifecycleCall) :
    ∃ steps, s.run prune calls = .ok steps ∧ steps.map LifecycleStep.call = calls ∧
      I (stateAfter s steps) ∧
      ∀ before step after, steps = before ++ step :: after →
        I (stateAfter s before) ∧ I step.after ∧ Q (stateAfter s before) step := by
  induction calls generalizing s with
  | nil => exact ⟨[], rfl, rfl, h, fun before step after heq => by simp at heq⟩
  | cons c calls ih =>
      obtain ⟨ts, s', hone, hs', hq⟩ := hcall s c h
      obtain ⟨steps, hrun, hcalls, hlast, hsteps⟩ := ih hs'
      refine ⟨⟨c, ts, s'⟩ :: steps, ?_, by rw [List.map_cons, hcalls], hlast, ?_⟩
      · simp only [run, hone, hrun, bind, Except.bind]
      · intro before step after heq
        cases before with
        | nil =>
            cases heq
            exact ⟨h, hs', hq⟩
        | cons first before =>
            obtain ⟨rfl, rfl⟩ := List.cons_eq_cons.mp heq
            exact hsteps before step after rfl

/-- What one step of a run says, given the visible map before it. -/
structure StepExplained (v : VisibleMap) (step : LifecycleStep) : Prop where
  truthful : AllTruthful step.call.peer v step.transitions
  replayed : step.after.visibleMap = step.transitions.foldl (replay step.call.peer) v
  counted : Counted step.after

/-- No run panics, and each of its steps is explained by its own transitions. -/
theorem run_explained (hprune : SafePruning prune) (h : Counted s) (calls : List LifecycleCall) :
    ∃ steps, s.run prune calls = .ok steps ∧ steps.map LifecycleStep.call = calls ∧
      ∀ before step after, steps = before ++ step :: after →
        StepExplained (replaySteps s.visibleMap before) step := by
  induction calls generalizing s with
  | nil => exact ⟨[], rfl, rfl, fun before step after heq => by simp at heq⟩
  | cons c calls ih =>
      obtain ⟨ts, s', hcall, hs', htruth, hmap⟩ := call_truthful hprune h c
      obtain ⟨steps, hrun, hcalls, hsteps⟩ := ih hs'
      refine ⟨⟨c, ts, s'⟩ :: steps, ?_, by rw [List.map_cons, hcalls], ?_⟩
      · simp only [run, hcall, hrun, bind, Except.bind]
      · intro before step after heq
        cases before with
        | nil =>
            cases heq
            exact ⟨htruth, hmap, hs'⟩
        | cons first before =>
            obtain ⟨rfl, rfl⟩ := List.cons_eq_cons.mp heq
            have := hsteps before step after rfl
            rw [hmap] at this
            exact this

/-- Appearances and removals alternate over a whole run. -/
theorem alternates_of_explained {v : VisibleMap} {steps : List LifecycleStep}
    (h : ∀ before step after, steps = before ++ step :: after →
      StepExplained (replaySteps v before) step) :
    Alternates key (v[key]?).isSome (steps.flatMap LifecycleStep.transitions) := by
  induction steps generalizing v with
  | nil => exact trivial
  | cons step steps ih =>
      rw [List.flatMap_cons]
      refine (h [] step steps rfl).truthful.alternates (ih fun before next after heq => ?_)
      exact h (step :: before) next after (by rw [heq]; rfl)

end DiscoveredPeerState

open DiscoveredPeerState in
/-- **The transitions tell the whole story.** In every run of calls with any events at any
times, replaying the transitions from the empty map gives what is visible after each
call, and each transition says what it did to the key it names and no other. -/
theorem transitions_explain_state (calls : List LifecycleCall) :
    ∃ steps, DiscoveredPeerState.new.run pruneTombstones calls = .ok steps ∧
      steps.map LifecycleStep.call = calls ∧
      (∀ before step after, steps = before ++ step :: after →
        (∀ k, step.after.get k = (replaySteps ∅ (before ++ [step]))[k]?) ∧
        step.after.iter.Perm ((replaySteps ∅ (before ++ [step])).toList.map Prod.snd) ∧
        step.after.len = (replaySteps ∅ (before ++ [step])).size ∧
        AllTruthful step.call.peer (replaySteps ∅ before) step.transitions ∧
        ∀ k, (∀ t ∈ step.transitions, t.key ≠ some k) →
          step.after.get k = (replaySteps ∅ before)[k]?) ∧
      ∀ key, Alternates key false (steps.flatMap LifecycleStep.transitions) := by
  have hempty : DiscoveredPeerState.new.visibleMap = ∅ :=
    Std.ExtTreeMap.ext_getElem? fun k => by simp [DiscoveredPeerState.new]
  obtain ⟨steps, hrun, hcalls, hsteps⟩ := run_explained pruneTombstones_safe counted_new calls
  rw [hempty] at hsteps
  refine ⟨steps, hrun, hcalls, fun before step after heq => ?_, fun key => ?_⟩
  · obtain ⟨htruth, hmap, hcounted⟩ := hsteps before step after heq
    have hreplay : replaySteps ∅ (before ++ [step]) = step.after.visibleMap := by
      rw [hmap]
      simp [replaySteps]
    rw [hreplay]
    refine ⟨fun k => get_eq_visibleMap, iter_eq_visibleMap ▸ List.Perm.refl _, hcounted, htruth,
      fun k hk => ?_⟩
    rw [get_eq_visibleMap, hmap, getElem?_foldl_replay hk]
  · have halternates : Alternates key _ _ := alternates_of_explained hsteps
    simpa using halternates

end LocalTransfer
