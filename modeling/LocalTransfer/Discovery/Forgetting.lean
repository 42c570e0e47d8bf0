import LocalTransfer.Discovery.OneKey

/-!
# Forgetting is unobservable

The machine that prunes its tombstones against the machine that never forgets. With times
that do not decrease, and no more keys removed at one instant than tombstones are kept,
only tombstones of earlier instants are ever dropped, and such a tombstone makes no
difference to what comes: the two machines return the same and show the same.
-/

namespace LocalTransfer

open Lib DiscoveredPeerState

/-- The keys a call removes: the one its event names, or those it expires. -/
def LifecycleCall.removes (c : LifecycleCall) (ts : List DiscoveredPeerTransition) :
    List TransientDiscoveryKey :=
  match c with
  | .apply (.removed key) _ => [key]
  | .apply _ _ => []
  | .expire _ _ => ts.filterMap DiscoveredPeerTransition.key

/-- The keys a run removes at an instant. -/
def removedKeysAt (now : Duration) (steps : List LifecycleStep) : List TransientDiscoveryKey :=
  (steps.filter fun step => step.call.time = now).flatMap fun step =>
    step.call.removes step.transitions

/-- Two steps that nobody can tell apart. -/
structure LifecycleStep.Same (step step' : LifecycleStep) : Prop where
  call : step.call = step'.call
  transitions : step.transitions = step'.transitions
  len : step.after.len = step'.after.len
  get : ∀ key, step.after.get key = step'.after.get key
  iter : step.after.iter.Perm step'.after.iter

/-! ## Records that differ by a forgotten tombstone -/

section Record

variable {key : TransientDiscoveryKey} {real ideal record : Option PeerRecord}
  {now later last : Duration} {c : LifecycleCall}

/-- The ideal record, or nothing where the ideal one is a tombstone of an earlier instant. -/
def Forgets (now : Duration) (real ideal : Option PeerRecord) : Prop :=
  real = ideal ∨ (real = none ∧ ∃ last, ideal = some ⟨none, last⟩ ∧ last < now)

theorem Forgets.mono (h : Forgets now real ideal) (hle : now ≤ later) :
    Forgets later real ideal := by
  rcases h with heq | ⟨hnone, last, hlast, hlt⟩
  · exact .inl heq
  · exact .inr ⟨hnone, last, hlast, Nat.lt_of_lt_of_le hlt hle⟩

/-- An earlier tombstone makes no difference to a call. -/
theorem Forgets.step (h : Forgets c.time real ideal) :
    (keyStep key c real).1 = (keyStep key c ideal).1 ∧
      Forgets c.time (keyStep key c real).2 (keyStep key c ideal).2 := by
  rcases h with rfl | ⟨rfl, last, rfl, hlt⟩
  · exact ⟨rfl, .inl rfl⟩
  · have hkept : Forgets c.time none (some ⟨none, last⟩) := .inr ⟨rfl, last, rfl, hlt⟩
    cases c with
    | apply event observedAt =>
        have hlast : last < observedAt := hlt
        cases event with
        | added peer | updated peer | refreshed peer =>
            rw [keyStep, keyStep]
            split
            · have hfresh : ¬ (observedAt < last ∨
                  ((none : Option VisibleDiscoveredPeer).isNone ∧ observedAt = last)) := by
                intro hstale
                rcases hstale with hbefore | ⟨-, hsame⟩
                · exact absurd hbefore (Nat.not_lt.mpr hlast.le)
                · exact absurd hsame hlast.ne'
              simp only [observeRecord, if_neg hfresh]
              exact ⟨trivial, .inl rfl⟩
            · exact ⟨rfl, hkept⟩
        | removed k =>
            rw [keyStep, keyStep]
            split
            · have hmax : max last observedAt = observedAt := Nat.max_eq_right hlast.le
              simp only [removeRecord, if_neg (Nat.not_lt.mpr hlast.le), hmax]
              exact ⟨rfl, .inl rfl⟩
            · exact ⟨rfl, hkept⟩
        | error error => exact ⟨rfl, hkept⟩
    | expire now staleAfter => exact ⟨rfl, hkept⟩

/-- A call leaves a tombstone as it was, or makes one of its own instant. -/
theorem keyStep_tombstone (h : (keyStep key c record).2 = some ⟨none, last⟩) :
    record = some ⟨none, last⟩ ∨ (last = c.time ∧
      ∀ ts, about key ts = (keyStep key c record).1 → key ∈ c.removes ts) := by
  cases c with
  | apply event observedAt =>
      cases event with
      | added peer | updated peer | refreshed peer =>
          rw [keyStep] at h
          split at h
          · -- an observation makes a visible record, or changes nothing
            cases record with
            | none => cases h
            | some r =>
                simp only [observeRecord] at h
                split at h
                · exact .inl h
                · cases h
          · exact .inl h
      | removed k =>
          rw [keyStep] at h
          split at h
          · next hkey =>
              have hmine : ∀ ts, key ∈ LifecycleCall.removes (.apply (.removed k) observedAt) ts :=
                fun _ => List.mem_singleton.mpr hkey.symm
              cases record with
              | none =>
                  cases h
                  exact .inr ⟨rfl, fun ts _ => hmine ts⟩
              | some r =>
                  simp only [removeRecord] at h
                  split at h
                  · exact .inl h
                  · next hnew =>
                      -- a removal that is not older takes its own time
                      have hmax : max r.lastTransitionAt observedAt = observedAt :=
                        Nat.max_eq_right (Nat.not_lt.mp hnew)
                      rw [hmax] at h
                      cases h
                      exact .inr ⟨rfl, fun ts _ => hmine ts⟩
          · exact .inl h
      | error error => exact .inl h
  | expire now staleAfter =>
      rw [keyStep] at h
      split at h
      · next hstale =>
          cases h
          refine .inr ⟨rfl, fun ts hts => ?_⟩
          rw [keyStep, if_pos hstale] at hts
          have hmem : .removed key .expired ∈ about key ts := by
            rw [hts]
            exact List.mem_singleton_self _
          exact List.mem_filterMap.mpr ⟨_, List.mem_of_mem_filter hmem, rfl⟩
      · exact .inl h

end Record

/-! ## The simulation -/

section Simulation

variable {key : TransientDiscoveryKey} {now : Duration} {c : LifecycleCall}
  {removed : Duration → Finset TransientDiscoveryKey}
  {real real' ideal ideal' : DiscoveredPeerState}

/-- The real machine at a time, and the machine that never forgets. `removed` says which
keys are removed at each instant; every tombstone of the real machine is one of them. -/
structure Simulates (removed : Duration → Finset TransientDiscoveryKey) (now : Duration)
    (real ideal : DiscoveredPeerState) : Prop where
  counted : Counted real
  ideal_counted : Counted ideal
  forgets : ∀ key : TransientDiscoveryKey, Forgets now real.records[key]? ideal.records[key]?
  tombstones : ∀ (key : TransientDiscoveryKey) last, real.records[key]? = some ⟨none, last⟩ →
    last ≤ now ∧ key ∈ removed last

/-- Pruning drops only tombstones of earlier instants, for 257 keys are not removed at one. -/
theorem Simulates.prune (hfew : ∀ t, (removed t).card ≤ maxRetainedTombstones)
    (h : Simulates removed now real ideal) :
    Simulates removed now (real.pruneTombstones now) ideal := by
  refine ⟨pruneTombstones_safe.counted now h.counted, h.ideal_counted, fun key => ?_,
    fun key last hlast => ?_⟩
  · rcases pruneTombstones_cases real now key with heq | ⟨hnone, last, hrecord, hwhy⟩
    · rw [heq]
      exact h.forgets key
    · have hideal : ideal.records[key]? = some ⟨none, last⟩ := by
        rcases h.forgets key with heq | ⟨habsent, -⟩
        · rw [← heq, hrecord]
        · rw [habsent] at hrecord
          cases hrecord
      refine .inr ⟨hnone, last, hideal, ?_⟩
      rcases hwhy with hold | ⟨keys, hcard, hkeys⟩
      · exact (Nat.le_add_right last tombstoneRetention).trans_lt hold
      · -- all of them are of this instant unless the dropped one is of an earlier one
        by_contra hlate
        have hnow : last = now :=
          Nat.le_antisymm (h.tombstones key last hrecord).1 (Nat.not_lt.mp hlate)
        have hsub : keys ⊆ removed now := by
          intro k hk
          obtain ⟨last', hrecord', hle⟩ := hkeys k hk
          obtain ⟨hle', hmem⟩ := h.tombstones k last' hrecord'
          have hsame : last' = now := Nat.le_antisymm hle' (hnow ▸ hle)
          rwa [hsame] at hmem
        exact absurd ((Finset.card_le_card hsub).trans (hfew now)) (Nat.not_le.mpr hcard)
  · rcases pruneTombstones_cases real now key with heq | ⟨hnone, -⟩
    · exact h.tombstones key last (heq ▸ hlast)
    · rw [hnone] at hlast
      cases hlast

theorem Simulates.pruneWhen (hfew : ∀ t, (removed t).card ≤ maxRetainedTombstones) (due : Bool)
    (h : Simulates removed now real ideal) :
    Simulates removed now (pruneWhen pruneTombstones due real now) ideal := by
  cases due with
  | true => exact h.prune hfew
  | false => exact h

theorem Simulates.mono {later : Duration} (h : Simulates removed now real ideal)
    (hle : now ≤ later) : Simulates removed later real ideal :=
  { h with
    forgets := fun key => (h.forgets key).mono hle
    tombstones := fun key last hlast =>
      ⟨(h.tombstones key last hlast).1.trans hle, (h.tombstones key last hlast).2⟩ }

/-- One call of each: they return the same. -/
theorem Simulates.call (hfew : ∀ t, (removed t).card ≤ maxRetainedTombstones)
    (h : Simulates removed now real ideal) (hle : now ≤ c.time)
    {ts : List DiscoveredPeerTransition} (hcall : real.call pruneTombstones c = .ok (ts, real'))
    (hremoved : ∀ key ∈ c.removes ts, key ∈ removed c.time) :
    ∃ ideal', ideal.call keepAll c = .ok (ts, ideal') ∧ Simulates removed c.time real' ideal' := by
  have hbefore := (h.mono hle).pruneWhen hfew c.prunesBefore
  obtain ⟨middle, hmiddle, hcounted, hrecords⟩ := call_keepAll_spec hbefore.counted c
  rw [call_eq, hmiddle] at hcall
  cases hcall
  obtain ⟨ideal', hideal, hcounted', hrecords'⟩ := call_keepAll_spec h.ideal_counted c
  have hreport : ideal.report c =
      (DiscoveredPeerState.pruneWhen pruneTombstones c.prunesBefore real c.time).report c :=
    report_congr fun key => (hbefore.forgets key).step.1.symm
  rw [hreport] at hideal
  refine ⟨ideal', hideal, Simulates.pruneWhen hfew c.prunesAfter ?_⟩
  refine ⟨hcounted, hcounted', fun key => ?_, fun key last hlast => ?_⟩
  · rw [hrecords, hrecords']
    exact (hbefore.forgets key).step.2
  · rw [hrecords] at hlast
    rcases keyStep_tombstone hlast with hsame | ⟨rfl, hnamed⟩
    · exact hbefore.tombstones key last hsame
    · exact ⟨le_refl _, hremoved key (hnamed _ (about_report _ c key))⟩

/-- What can be seen of the two is the same. -/
theorem Simulates.same (h : Simulates removed now real ideal)
    (ts : List DiscoveredPeerTransition) :
    LifecycleStep.Same ⟨c, ts, real⟩ ⟨c, ts, ideal⟩ := by
  have hmap : real.visibleMap = ideal.visibleMap := by
    refine visibleMap_congr fun key => ?_
    rcases h.forgets key with heq | ⟨hnone, last, htomb, -⟩
    · rw [heq]
    · rw [hnone, htomb]
      rfl
  refine ⟨rfl, rfl, ?_, fun key => ?_, ?_⟩
  · show real.visibleCount = ideal.visibleCount
    rw [h.counted, h.ideal_counted, hmap]
  · rw [get_eq_visibleMap, get_eq_visibleMap, hmap]
  · rw [iter_eq_visibleMap, iter_eq_visibleMap, hmap]

/-- A run of each. -/
theorem Simulates.run (hfew : ∀ t, (removed t).card ≤ maxRetainedTombstones)
    (h : Simulates removed now real ideal) {calls : List LifecycleCall}
    (htimes : calls.Pairwise fun c c' => c.time ≤ c'.time) (hnow : ∀ c ∈ calls, now ≤ c.time)
    {steps : List LifecycleStep} (hrun : real.run pruneTombstones calls = .ok steps)
    (hremoved : ∀ step ∈ steps, ∀ key ∈ step.call.removes step.transitions,
      key ∈ removed step.call.time) :
    ∃ ideals, ideal.run keepAll calls = .ok ideals ∧
      List.Forall₂ LifecycleStep.Same steps ideals := by
  induction calls generalizing now real ideal steps with
  | nil =>
      cases hrun
      exact ⟨[], rfl, .nil⟩
  | cons c calls ih =>
      obtain ⟨hfirst, htimes⟩ := List.pairwise_cons.mp htimes
      obtain ⟨ts, real', hcall, -⟩ := call_truthful pruneTombstones_safe h.counted c
      simp only [DiscoveredPeerState.run, hcall, bind, Except.bind] at hrun
      cases hrest : real'.run pruneTombstones calls with
      | error reason =>
          rw [hrest] at hrun
          cases hrun
      | ok rest =>
          rw [hrest] at hrun
          cases hrun
          obtain ⟨hhead, htail⟩ := List.forall_mem_cons.mp hremoved
          obtain ⟨ideal', hideal, hnext⟩ :=
            h.call hfew (hnow c List.mem_cons_self) hcall hhead
          obtain ⟨ideals, hideals, hsame⟩ := ih hnext htimes hfirst hrest htail
          refine ⟨⟨c, ts, ideal'⟩ :: ideals, ?_, .cons (hnext.same ts) hsame⟩
          simp only [DiscoveredPeerState.run, hideal, hideals, bind, Except.bind]

end Simulation

theorem flatMap_transitions_of_same {steps ideals : List LifecycleStep}
    (h : List.Forall₂ LifecycleStep.Same steps ideals) :
    steps.flatMap LifecycleStep.transitions = ideals.flatMap LifecycleStep.transitions := by
  induction h with
  | nil => rfl
  | cons hsame _ ih => rw [List.flatMap_cons, List.flatMap_cons, hsame.transitions, ih]

/-- **Forgetting is unobservable.** A run of calls at times that do not decrease, in which no
instant removes more keys than tombstones are kept, returns and shows what the machine
that never forgets does; what it reports of a key is what that key's events and the
expiries alone lead to. -/
theorem forgetting_is_unobservable (calls : List LifecycleCall)
    (htimes : calls.Pairwise fun c c' => c.time ≤ c'.time) :
    ∃ steps, DiscoveredPeerState.new.run pruneTombstones calls = .ok steps ∧
      ((∀ now, (removedKeysAt now steps).toFinset.card ≤ maxRetainedTombstones) →
        (∃ ideals, DiscoveredPeerState.new.run keepAll calls = .ok ideals ∧
          List.Forall₂ LifecycleStep.Same steps ideals) ∧
        ∀ key, about key (steps.flatMap LifecycleStep.transitions) =
          (keyRun key (calls.filter (LifecycleCall.concerns key)) none).1) := by
  obtain ⟨steps, hrun, -⟩ := run_explained pruneTombstones_safe counted_new calls
  refine ⟨steps, hrun, fun hfew => ?_⟩
  let removed := fun now => (removedKeysAt now steps).toFinset
  have hstart : Simulates removed 0 .new .new :=
    ⟨counted_new, counted_new, fun key => .inl rfl, fun key last hlast => by
      simp [DiscoveredPeerState.new] at hlast⟩
  have hremoved : ∀ step ∈ steps, ∀ key ∈ step.call.removes step.transitions,
      key ∈ removed step.call.time := by
    intro step hstep key hkey
    refine List.mem_toFinset.mpr (List.mem_flatMap.mpr ⟨step, ?_, hkey⟩)
    exact List.mem_filter.mpr ⟨hstep, decide_eq_true rfl⟩
  obtain ⟨ideals, hideals, hsame⟩ :=
    hstart.run hfew htimes (fun c _ => Nat.zero_le c.time) hrun hremoved
  refine ⟨⟨ideals, hideals, hsame⟩, fun key => ?_⟩
  obtain ⟨ideals', hideals', habout⟩ := run_keepAll_spec counted_new calls
  rw [hideals] at hideals'
  cases hideals'
  rw [flatMap_transitions_of_same hsame, habout key, keyRun_filter]
  simp [DiscoveredPeerState.new]

/-- Two removals, the second when the tombstone of the first is too old to be kept. -/
def firstRemoved : TransientDiscoveryKey :=
  ⟨"first._local-transfer._tcp.local.".toList, ⟨"first".toList, by decide, by decide⟩, by decide,
    by decide⟩

def thenRemoved : TransientDiscoveryKey :=
  ⟨"then._local-transfer._tcp.local.".toList, ⟨"then".toList, by decide, by decide⟩, by decide,
    by decide⟩

def twoRemovals : List LifecycleCall :=
  [.apply (.removed firstRemoved) 0, .apply (.removed thenRemoved) (.fromSecs 301)]

theorem forgetting_is_unobservable_removed : ∃ steps ideals,
    DiscoveredPeerState.new.run pruneTombstones twoRemovals = .ok steps ∧
    DiscoveredPeerState.new.run keepAll twoRemovals = .ok ideals ∧
    (steps.getLast?.map fun step => step.after.records.contains firstRemoved) = some false ∧
    (ideals.getLast?.map fun step => step.after.records.contains firstRemoved) = some true ∧
    List.Forall₂ LifecycleStep.Same steps ideals := by
  obtain ⟨steps, hrun, hsame⟩ := forgetting_is_unobservable twoRemovals (by decide)
  obtain ⟨steps', hrun', hcalls, -⟩ :=
    run_explained pruneTombstones_safe counted_new twoRemovals
  rw [hrun] at hrun'
  cases hrun'
  -- two keys are removed, and so at most two at an instant
  have hfew : ∀ now, (removedKeysAt now steps).toFinset.card ≤ maxRetainedTombstones := by
    intro now
    have hsub : (removedKeysAt now steps).toFinset ⊆ {firstRemoved, thenRemoved} := by
      intro k hk
      obtain ⟨step, hstep, hk⟩ := List.mem_flatMap.mp (List.mem_toFinset.mp hk)
      have hcall : step.call ∈ steps.map LifecycleStep.call :=
        List.mem_map_of_mem (List.mem_of_mem_filter hstep)
      rw [hcalls, twoRemovals, List.mem_pair] at hcall
      rcases hcall with hcall | hcall
      · rw [hcall] at hk
        rw [List.mem_singleton.mp hk]
        exact Finset.mem_insert_self _ _
      · rw [hcall] at hk
        rw [List.mem_singleton.mp hk]
        exact Finset.mem_insert_of_mem (Finset.mem_singleton_self _)
    exact (Finset.card_le_card hsub).trans (Finset.card_le_two.trans (by decide))
  obtain ⟨⟨ideals, hideals, hsame⟩, -⟩ := hsame hfew
  have hforgotten : ((DiscoveredPeerState.new.run pruneTombstones twoRemovals).map fun steps =>
      steps.getLast?.map fun step => step.after.records.contains firstRemoved).toOption =
        some (some false) := by decide +kernel
  have hkept : ((DiscoveredPeerState.new.run keepAll twoRemovals).map fun steps =>
      steps.getLast?.map fun step => step.after.records.contains firstRemoved).toOption =
        some (some true) := by decide +kernel
  rw [hrun] at hforgotten
  rw [hideals] at hkept
  exact ⟨steps, ideals, hrun, hideals, Option.some.inj hforgotten, Option.some.inj hkept, hsame⟩

end LocalTransfer
