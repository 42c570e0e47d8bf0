import LocalTransfer.Discovery.Forgetting

/-!
# The records of every reachable state

`DiscoveredPeerState` keeps a counter and two timestamps by hand. In every reachable state,
whatever the times of the calls, the counter counts the visible peers, the two timestamps of
a visible record agree, and at most 256 records are tombstones (`RecordsSound`). Each call
keeps this and moves no timestamp back (`call_sound`).
-/

namespace LocalTransfer

open Lib

/-- Both timestamps of a visible record are the same, and its peer has its key. -/
def SoundRecord (key : TransientDiscoveryKey) (record : PeerRecord) : Prop :=
  ∀ seen, record.visible = some seen →
    seen.lastObservedAt = record.lastTransitionAt ∧ seen.peer.key = key

namespace DiscoveredPeerState

variable {s s' : DiscoveredPeerState} {key : TransientDiscoveryKey} {c : LifecycleCall}
  {now last : Duration} {records : Std.ExtTreeMap TransientDiscoveryKey PeerRecord}

/-! ## Counting -/

/-- The visible peers are counted record by record. -/
theorem size_visibleMap (s : DiscoveredPeerState) :
    s.visibleMap.size = (s.records.toList.filter fun entry => entry.2.visible.isSome).length := by
  rw [← Std.ExtTreeMap.length_toList, visibleMap, Std.ExtTreeMap.toList_filterMap]
  induction s.records.toList with
  | nil => rfl
  | cons entry entries ih =>
      obtain ⟨key, ⟨visible, last⟩⟩ := entry
      cases visible with
      | none => simpa [visiblePeer] using ih
      | some seen => simpa [visiblePeer] using ih

theorem length_tombstones (records : Std.ExtTreeMap TransientDiscoveryKey PeerRecord) :
    (tombstones records).length =
      (records.toList.filter fun entry => entry.2.visible.isNone).length := by
  rw [tombstones, List.length_map]

/-- Keys with tombstones are no more than the tombstones. -/
theorem card_le_tombstones {keys : Finset TransientDiscoveryKey}
    (h : ∀ k ∈ keys, ∃ last, records[k]? = some ⟨none, last⟩) :
    keys.card ≤ (tombstones records).length := by
  have hsub : keys ⊆ ((tombstones records).map fun tomb => (ofLex tomb).2).toFinset := by
    intro k hk
    obtain ⟨last, hlast⟩ := h k hk
    exact List.mem_toFinset.mpr (List.mem_map.mpr ⟨_, mem_tombstones.mpr hlast, rfl⟩)
  calc keys.card ≤ _ := Finset.card_le_card hsub
    _ ≤ _ := List.toFinset_card_le _
    _ = _ := List.length_map _

/-- A map whose tombstones stand for tombstones of another has no more of them. -/
theorem length_tombstones_le {records' : Std.ExtTreeMap TransientDiscoveryKey PeerRecord}
    (h : ∀ (k : TransientDiscoveryKey) (last : Duration),
      records'[k]? = some (PeerRecord.mk none last) → ∃ last', records[k]? = some ⟨none, last'⟩) :
    (tombstones records').length ≤ (tombstones records).length := by
  have hnodup : ((tombstones records').map fun tomb => (ofLex tomb).2).Nodup := nodup_tombstones
  have hcard := List.toFinset_card_of_nodup hnodup
  rw [List.length_map] at hcard
  rw [← hcard]
  refine card_le_tombstones fun k hk => ?_
  obtain ⟨tomb, htomb, rfl⟩ := List.mem_map.mp (List.mem_toFinset.mp hk)
  exact h _ _ (mem_tombstones.mp htomb)

/-- Pruning keeps no more than 256 tombstones. -/
theorem length_tombstones_prune (s : DiscoveredPeerState) (now : Duration) :
    (tombstones (s.pruneTombstones now).records).length ≤ maxRetainedTombstones := by
  let young := s.records.filter fun _ record => retained now record
  by_cases hfew : (tombstones young).length ≤ maxRetainedTombstones
  · have hprune : s.pruneTombstones now = { s with records := young } := if_pos hfew
    rw [hprune]
    exact hfew
  · let excess := (tombstones young).length - maxRetainedTombstones
    let sorted := sortByKey id (tombstones young)
    have hprune : s.pruneTombstones now = { s with
        records := (sorted.take excess).foldl (fun records tomb => records.erase (ofLex tomb).2)
          young } := if_neg hfew
    -- what is left of the tombstones are the latest ones, at the end of the sorted list
    have hsub : tombstones (s.pruneTombstones now).records ⊆ sorted.drop excess := by
      intro tomb htomb
      have hleft : (s.pruneTombstones now).records[(ofLex tomb).2]? =
          some ⟨none, (ofLex tomb).1⟩ := mem_tombstones.mp htomb
      rw [hprune] at hleft
      simp only [getElem?_foldl_erase] at hleft
      split at hleft
      · cases hleft
      · next hkept =>
          have hmem : tomb ∈ sorted := mem_sortByKey.mpr (mem_tombstones.mpr hleft)
          rw [← List.take_append_drop excess sorted, List.mem_append] at hmem
          rcases hmem with hold | hlate
          · exact absurd (List.mem_map.mpr ⟨tomb, hold, rfl⟩) hkept
          · exact hlate
    have hlen : sorted.length = (tombstones young).length := length_sortByKey _
    calc (tombstones (s.pruneTombstones now).records).length
        ≤ (sorted.drop excess).length :=
          (List.subperm_of_subset (List.Nodup.of_map _ nodup_tombstones) hsub).length_le
      _ = maxRetainedTombstones := by
          rw [List.length_drop]
          omega

/-- With few tombstones, pruning drops none but those past their retention. -/
theorem forgets_prune (hfew : (tombstones s.records).length ≤ maxRetainedTombstones)
    (now : Duration) (key : TransientDiscoveryKey) :
    Forgets now (s.pruneTombstones now).records[key]? s.records[key]? := by
  rcases pruneTombstones_cases s now key with heq | ⟨hnone, last, hlast, hold | hmany⟩
  · exact .inl heq
  · exact .inr ⟨hnone, last, hlast, Nat.lt_of_le_of_lt (Nat.le_add_right _ _) hold⟩
  · obtain ⟨keys, hcard, hkeys⟩ := hmany
    have hle : keys.card ≤ (tombstones s.records).length := by
      refine card_le_tombstones fun k hk => ?_
      obtain ⟨last', hlast', -⟩ := hkeys k hk
      exact ⟨last', hlast'⟩
    exact absurd (hle.trans hfew) (Nat.not_le.mpr hcard)

/-! ## One call -/

/-- After a call, a record is the one before, or a record of the call's own time: the sight of
a peer, or a tombstone that is counted right away. It replaces a record no later than it. -/
theorem keyStep_cases {record : Option PeerRecord} {r : PeerRecord}
    (hsound : ∀ old, record = some old → SoundRecord key old)
    (h : (keyStep key c record).2 = some r) :
    record = some r ∨
      (r.lastTransitionAt = c.time ∧
        (∀ old, record = some old → old.lastTransitionAt ≤ c.time) ∧
        ((∃ peer, c.peer = some peer ∧ peer.key = key ∧ r.visible = some ⟨peer, c.time⟩ ∧
            ∀ at', record = some ⟨none, at'⟩ → at' < c.time) ∨
          (r.visible = none ∧ c.prunesAfter = true))) := by
  cases c with
  | apply event observedAt =>
      cases event with
      | added peer | updated peer | refreshed peer =>
          rw [keyStep] at h
          split at h
          · next hkey =>
              cases record with
              | none =>
                  cases h
                  exact .inr ⟨rfl, by simp, .inl ⟨peer, rfl, hkey, rfl, by simp⟩⟩
              | some old =>
                  simp only [observeRecord] at h
                  split at h
                  · exact .inl h
                  · next hfresh =>
                      cases h
                      obtain ⟨hle, hlt⟩ := not_or.mp hfresh
                      refine .inr ⟨rfl, ?_, .inl ⟨peer, rfl, hkey, rfl, ?_⟩⟩
                      · intro old' heq
                        cases heq
                        exact Nat.not_lt.mp hle
                      · intro at' heq
                        cases heq
                        -- at the tombstone's own instant the observation is stale
                        exact lt_of_le_of_ne (Nat.not_lt.mp hle) fun hsame => hlt ⟨rfl, hsame.symm⟩
          · exact .inl h
      | removed k =>
          rw [keyStep] at h
          split at h
          · cases record with
            | none =>
                cases h
                exact .inr ⟨rfl, by simp, .inr ⟨rfl, rfl⟩⟩
            | some old =>
                simp only [removeRecord] at h
                split at h
                · exact .inl h
                · next hlate =>
                    cases h
                    refine .inr ⟨Nat.max_eq_right (Nat.not_lt.mp hlate), ?_, .inr ⟨rfl, rfl⟩⟩
                    intro old' heq
                    cases heq
                    exact Nat.not_lt.mp hlate
          · exact .inl h
      | error error => exact .inl h
  | expire now staleAfter =>
      rw [keyStep] at h
      split at h
      · next hstale =>
          cases h
          refine .inr ⟨rfl, ?_, .inr ⟨rfl, rfl⟩⟩
          -- the age is measured on one timestamp, and the other one is overwritten
          intro old heq
          subst heq
          obtain ⟨visible, last⟩ := old
          cases visible with
          | none => cases hstale
          | some seen =>
              have hsame := (hsound _ rfl seen rfl).1
              simp only [Option.any_some, isStale, Bool.and_eq_true, decide_eq_true_eq] at hstale
              exact hsame ▸ hstale.1
      · exact .inl h

/-- What holds of the records of every reachable state. -/
structure RecordsSound (s : DiscoveredPeerState) : Prop where
  counted : s.visibleCount = (s.records.toList.filter fun entry => entry.2.visible.isSome).length
  sound : ∀ (key : TransientDiscoveryKey) record, s.records[key]? = some record →
    SoundRecord key record
  few : (s.records.toList.filter fun entry => entry.2.visible.isNone).length ≤
    maxRetainedTombstones

theorem RecordsSound.isCounted (h : RecordsSound s) : Counted s := by
  rw [Counted, size_visibleMap]
  exact h.counted

theorem RecordsSound.tombstones_le (h : RecordsSound s) :
    (tombstones s.records).length ≤ maxRetainedTombstones := by
  rw [length_tombstones]
  exact h.few

theorem recordsSound_new : RecordsSound new := by
  refine ⟨rfl, ?_, Nat.zero_le _⟩
  intro key record h
  simp [new] at h

/-- Pruning when there are few tombstones anyway. -/
theorem RecordsSound.pruneWhen (h : RecordsSound s) (due : Bool) (now : Duration) :
    RecordsSound (pruneWhen pruneTombstones due s now) ∧ ∀ key : TransientDiscoveryKey,
      Forgets now (DiscoveredPeerState.pruneWhen pruneTombstones due s now).records[key]?
        s.records[key]? := by
  cases due with
  | false => exact ⟨h, fun key => .inl rfl⟩
  | true =>
      have hforgets := forgets_prune h.tombstones_le now
      refine ⟨⟨?_, ?_, ?_⟩, hforgets⟩
      · rw [← size_visibleMap]
        exact pruneTombstones_safe.counted now h.isCounted
      · intro key record hrecord
        rcases hforgets key with heq | ⟨hnone, -⟩
        · exact h.sound key record (heq.symm.trans hrecord)
        · have hgone : (DiscoveredPeerState.pruneWhen pruneTombstones true s now).records[key]? =
              none := hnone
          rw [hgone] at hrecord
          cases hrecord
      · rw [← length_tombstones]
        exact length_tombstones_prune s now

/-- A call returns, keeps the records sound, and is one step of the machine of each key, before
which a tombstone of an earlier time may be dropped, and after which any tombstone. -/
theorem call_sound (h : RecordsSound s) (c : LifecycleCall) :
    ∃ s', s.call pruneTombstones c = .ok (s.report c, s') ∧ RecordsSound s' ∧
      ∀ key : TransientDiscoveryKey, ∃ record, Forgets c.time record s.records[key]? ∧
        Forgot (keyStep key c record).2 s'.records[key]? := by
  obtain ⟨hbefore, hforgets⟩ := h.pruneWhen c.prunesBefore c.time
  obtain ⟨next, hcall, hnext, hstep⟩ := call_keepAll_spec hbefore.isCounted c
  have hreport : (pruneWhen pruneTombstones c.prunesBefore s c.time).report c = s.report c :=
    report_congr fun key => (hforgets key).step.1
  have hsound : ∀ (key : TransientDiscoveryKey) record, next.records[key]? = some record →
      SoundRecord key record := by
    intro key record hrecord
    rw [hstep] at hrecord
    rcases keyStep_cases (fun old hold => hbefore.sound key old hold) hrecord with
      hsame | ⟨htime, -, ⟨peer, -, hkey, hvisible, -⟩ | ⟨hvisible, -⟩⟩
    · exact hbefore.sound key record hsame
    · intro seen hseen
      rw [hvisible] at hseen
      cases hseen
      exact ⟨htime.symm, hkey⟩
    · intro seen hseen
      rw [hvisible] at hseen
      cases hseen
  have hfinal : Counted (pruneWhen pruneTombstones c.prunesAfter next c.time) ∧
      (∀ key : TransientDiscoveryKey, Forgot next.records[key]?
        (pruneWhen pruneTombstones c.prunesAfter next c.time).records[key]?) ∧
      (tombstones (pruneWhen pruneTombstones c.prunesAfter next c.time).records).length ≤
        maxRetainedTombstones := by
    cases hafter : c.prunesAfter with
    | true =>
        exact ⟨pruneTombstones_safe.counted _ hnext, pruneTombstones_safe.records next c.time,
          length_tombstones_prune next c.time⟩
    | false =>
        -- without a removal there is no new tombstone
        refine ⟨hnext, fun key => .inl rfl, le_trans (length_tombstones_le ?_)
          hbefore.tombstones_le⟩
        intro key last hlast
        rw [show (pruneWhen pruneTombstones false next c.time).records[key]? =
          next.records[key]? from rfl, hstep] at hlast
        rcases keyStep_cases (fun old hold => hbefore.sound key old hold) hlast with
          hsame | ⟨-, -, ⟨peer, -, -, hvisible, -⟩ | ⟨-, hprunes⟩⟩
        · exact ⟨last, hsame⟩
        · cases hvisible
        · rw [hafter] at hprunes
          cases hprunes
  obtain ⟨hcounted, hforgot, hfew⟩ := hfinal
  refine ⟨pruneWhen pruneTombstones c.prunesAfter next c.time, ?_, ⟨?_, ?_, ?_⟩, ?_⟩
  · rw [call_eq, hcall, hreport]
    rfl
  · rw [← size_visibleMap]
    exact hcounted
  · intro key record hrecord
    rcases hforgot key with heq | ⟨hnone, -⟩
    · exact hsound key record (heq.symm.trans hrecord)
    · rw [hnone] at hrecord
      cases hrecord
  · rw [← length_tombstones]
    exact hfew
  · intro key
    refine ⟨_, hforgets key, ?_⟩
    rw [← hstep key]
    exact hforgot key

/-- A record that a call leaves in the map is no earlier than the one before. -/
theorem RecordsSound.le_of_step (h : RecordsSound s) {record : Option PeerRecord}
    {r r' : PeerRecord}
    (hforgets : Forgets c.time record s.records[key]?)
    (hforgot : Forgot (keyStep key c record).2 s'.records[key]?)
    (hr : s.records[key]? = some r) (hr' : s'.records[key]? = some r') :
    r.lastTransitionAt ≤ r'.lastTransitionAt := by
  have hstep : (keyStep key c record).2 = some r' := by
    rcases hforgot with heq | ⟨hnone, -⟩
    · rw [← heq, hr']
    · rw [hnone] at hr'
      cases hr'
  rcases hforgets with heq | ⟨hnone, last, hlast, hlt⟩
  · have hold : ∀ old, record = some old → SoundRecord key old := fun old hsome =>
      h.sound key old (heq ▸ hsome)
    rw [hr] at heq
    rcases keyStep_cases hold hstep with hsame | ⟨htime, hle, -⟩
    · rw [heq] at hsame
      cases hsame
      exact le_refl _
    · rw [htime]
      exact hle r heq
  · -- a tombstone that was dropped is older than the call, whose time the new record has
    rw [hr] at hlast
    cases hlast
    rcases keyStep_cases (by simp [hnone]) hstep with hsame | ⟨htime, -⟩
    · rw [hnone] at hsame
      cases hsame
    · rw [htime]
      exact hlt.le

/-! ## Whole runs -/

/-- A step of a run, as a step of the machine of each key. -/
structure KeyByKey (s : DiscoveredPeerState) (step : LifecycleStep) : Prop where
  transitions : step.transitions = s.report step.call
  records : ∀ key : TransientDiscoveryKey, ∃ record,
    Forgets step.call.time record s.records[key]? ∧
      Forgot (keyStep key step.call record).2 step.after.records[key]?

/-- No run panics, and every state it reaches has sound records. -/
theorem run_sound (h : RecordsSound s) (calls : List LifecycleCall) :
    ∃ steps, s.run pruneTombstones calls = .ok steps ∧ steps.map LifecycleStep.call = calls ∧
      RecordsSound (s.stateAfter steps) ∧
      ∀ before step after, steps = before ++ step :: after →
        RecordsSound (s.stateAfter before) ∧ RecordsSound step.after ∧
          KeyByKey (s.stateAfter before) step := by
  refine run_of_call (fun s c h => ?_) h calls
  obtain ⟨s', hcall, hs', hkeys⟩ := call_sound h c
  exact ⟨_, s', hcall, hs', rfl, hkeys⟩

/-- While a record stays in the map its timestamp does not move back. -/
theorem le_of_steps {steps : List LifecycleStep}
    (hsteps : ∀ before step after, steps = before ++ step :: after →
      RecordsSound (s.stateAfter before) ∧ RecordsSound step.after ∧
        KeyByKey (s.stateAfter before) step)
    {before between after : List LifecycleStep} {step : LifecycleStep} {r r' : PeerRecord}
    (heq : steps = before ++ between ++ step :: after)
    (hr : (s.stateAfter before).records[key]? = some r)
    (hstays : ∀ m ∈ between, (m.after.records[key]?).isSome)
    (hr' : step.after.records[key]? = some r') : r.lastTransitionAt ≤ r'.lastTransitionAt := by
  induction between generalizing before r with
  | nil =>
      rw [List.append_nil] at heq
      obtain ⟨hsound, -, hkeys⟩ := hsteps before step after heq
      obtain ⟨record, hforgets, hforgot⟩ := hkeys.records key
      exact hsound.le_of_step hforgets hforgot hr hr'
  | cons m between ih =>
      obtain ⟨r₁, hr₁⟩ := Option.isSome_iff_exists.mp (hstays m List.mem_cons_self)
      obtain ⟨hsound, -, hkeys⟩ := hsteps before m (between ++ step :: after) (by simpa using heq)
      obtain ⟨record, hforgets, hforgot⟩ := hkeys.records key
      have hlater : r₁.lastTransitionAt ≤ r'.lastTransitionAt := by
        have heq' : steps = (before ++ [m]) ++ between ++ step :: after := by simpa using heq
        have hr₁' : (s.stateAfter (before ++ [m])).records[key]? = some r₁ := by
          rw [stateAfter_concat]
          exact hr₁
        exact ih heq' hr₁' fun m' hm' => hstays m' (List.mem_cons_of_mem _ hm')
      exact (hsound.le_of_step hforgets hforgot hr hr₁).trans hlater

/-- For every run of calls, with times in any order: no call panics, every state has sound
records, and a record's timestamp does not decrease from one state to a later one as long
as the record stays in the map. -/
theorem run_keeps_records (calls : List LifecycleCall) :
    ∃ steps, new.run pruneTombstones calls = .ok steps ∧ steps.map LifecycleStep.call = calls ∧
      (∀ step ∈ steps, RecordsSound step.after) ∧
      ∀ before between step after, steps = before ++ between ++ step :: after →
        ∀ (key : TransientDiscoveryKey) r r', (new.stateAfter before).records[key]? = some r →
          (∀ m ∈ between, (m.after.records[key]?).isSome) → step.after.records[key]? = some r' →
          r.lastTransitionAt ≤ r'.lastTransitionAt := by
  obtain ⟨steps, hrun, hcalls, -, hsteps⟩ := run_sound recordsSound_new calls
  refine ⟨steps, hrun, hcalls, ?_, ?_⟩
  · intro step hstep
    obtain ⟨before, after, heq⟩ := List.append_of_mem hstep
    exact (hsteps before step after heq).2.1
  · intro before between step after heq key r r' hr hstays hr'
    exact le_of_steps hsteps heq hr hstays hr'

end DiscoveredPeerState

end LocalTransfer
