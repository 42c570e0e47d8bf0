import LocalTransfer.Discovery.Records
import LocalTransfer.Discovery.Translation

/-!
# Expiry

`DiscoveredPeerState::expire` from any reachable state, at any time and for any age: it
removes exactly the visible peers that are old enough, reports them in key order, and an
expired peer is only seen again by an observation of a later time, for as long as its
tombstone is kept (`expire_exact`).
-/

namespace LocalTransfer

open Lib

namespace DiscoveredPeerState

variable {s s' : DiscoveredPeerState} {key : TransientDiscoveryKey} {now staleAfter : Duration}

/-- The states that calls at any times lead to. -/
inductive Reachable : DiscoveredPeerState → Prop
  | new : Reachable new
  | call {s s' : DiscoveredPeerState} {c : LifecycleCall} {ts : List DiscoveredPeerTransition} :
      Reachable s → s.call pruneTombstones c = .ok (ts, s') → Reachable s'

theorem Reachable.recordsSound (h : Reachable s) : RecordsSound s := by
  induction h with
  | new => exact recordsSound_new
  | call hreach hcall ih =>
      rename_i c ts
      obtain ⟨next, hnext, hsound, -⟩ := call_sound ih c
      rw [hcall] at hnext
      cases hnext
      exact hsound

/-- The snapshot of a visible peer and the time of its last accepted observation. -/
def seen (self : DiscoveredPeerState) (key : TransientDiscoveryKey) :
    Option VisibleDiscoveredPeer := do
  let record ← self.records[key]?
  record.visible

/-- Observed no later than now, and at least so long ago. -/
def Stale (now staleAfter : Duration) (peer : VisibleDiscoveredPeer) : Prop :=
  peer.lastObservedAt ≤ now ∧ staleAfter ≤ now - peer.lastObservedAt

/-- The record of a key that is known to be gone. -/
def HasTombstone (self : DiscoveredPeerState) (key : TransientDiscoveryKey) : Prop :=
  ∃ last, self.records[key]? = some ⟨none, last⟩

theorem any_isStale_iff : s.records[key]?.any (isStale now staleAfter) ↔
    ∃ peer, s.seen key = some peer ∧ Stale now staleAfter peer := by
  cases hrecord : s.records[key]? with
  | none => simp [seen, hrecord]
  | some record =>
      obtain ⟨visible, last⟩ := record
      cases visible <;> simp [seen, hrecord, isStale, Stale]

/-! ## What one expiry does to a key -/

/-- A key that expires has a tombstone of the call's time, or none; every other visible key
is seen as before. -/
theorem seen_of_expire {record : Option PeerRecord}
    (hforgets : Forgets now record s.records[key]?)
    (hforgot : Forgot (keyStep key (.expire now staleAfter) record).2 s'.records[key]?) :
    (key ∈ s.expiredKeys now staleAfter →
      s'.records[key]? = some ⟨none, now⟩ ∨ s'.records[key]? = none) ∧
    (key ∉ s.expiredKeys now staleAfter → s'.seen key = s.seen key) := by
  have hstale : record.any (isStale now staleAfter) =
      s.records[key]?.any (isStale now staleAfter) := by
    rcases hforgets with heq | ⟨hnone, last, hlast, -⟩
    · rw [heq]
    · rw [hnone, hlast]
      rfl
  rw [keyStep, hstale] at hforgot
  constructor
  · intro hkey
    rw [if_pos (mem_expiredKeys_iff_any.mp hkey)] at hforgot
    exact hforgot.imp id And.left
  · intro hkey
    rw [if_neg (fun h => hkey (mem_expiredKeys_iff_any.mpr h))] at hforgot
    -- dropping a tombstone shows nothing, before the work and after it
    have hbefore : record.bind PeerRecord.visible = s.seen key := by
      rcases hforgets with heq | ⟨hnone, last, hlast, -⟩
      · rw [heq]
        rfl
      · rw [hnone, seen, hlast]
        rfl
    rw [← hbefore]
    rcases hforgot with heq | ⟨hnone, last, hlast⟩
    · rw [seen, heq]
      rfl
    · have hrecord : record = some ⟨none, last⟩ := hlast
      rw [seen, hnone, hrecord]
      rfl

/-- Every expired key counts once. -/
theorem expireKeys_count {keys : List TransientDiscoveryKey} {ts : List DiscoveredPeerTransition}
    (h : expireKeys now s keys = .ok (ts, s')) : s'.visibleCount + ts.length = s.visibleCount := by
  induction keys generalizing s ts with
  | nil =>
      cases h
      rfl
  | cons key keys ih =>
      rw [expireKeys] at h
      cases hone : expireKey now s key with
      | error panic =>
          rw [hone] at h
          cases h
      | ok result =>
          obtain ⟨t, next⟩ := result
          rw [hone] at h
          simp only [bind, Except.bind] at h
          cases hrest : expireKeys now next keys with
          | error panic =>
              rw [hrest] at h
              cases h
          | ok result =>
              obtain ⟨rest, last⟩ := result
              rw [hrest] at h
              cases h
              -- one key, one decrement: the count was not zero, or the step would have failed
              have hnext : next.visibleCount + 1 = s.visibleCount := by
                unfold expireKey at hone
                split at hone
                · cases hone
                · cases hcount : s.visibleCount with
                  | zero =>
                      rw [hcount] at hone
                      cases hone
                  | succ n =>
                      rw [hcount] at hone
                      cases hone
                      rfl
              have hcount : last.visibleCount + rest.length = next.visibleCount := ih hrest
              show last.visibleCount + (rest.length + 1) = s.visibleCount
              omega

theorem expire_count {prune : Pruning} (hprune : SafePruning prune)
    {ts : List DiscoveredPeerTransition} (h : s.expire prune now staleAfter = .ok (ts, s')) :
    s'.len + ts.length = s.len := by
  unfold expire at h
  cases hrun : expireKeys now (prune s now) ((prune s now).expiredKeys now staleAfter) with
  | error panic =>
      simp only [hrun] at h
      cases h
  | ok result =>
      obtain ⟨ts', next⟩ := result
      simp only [hrun] at h
      cases h
      have hcount := expireKeys_count hrun
      rw [hprune.count] at hcount
      show (prune next now).visibleCount + ts'.length = s.visibleCount
      rw [hprune.count]
      exact hcount

/-! ## Seen again -/

/-- A call that makes a peer visible whose tombstone is kept is an observation of the peer at a
time later than the tombstone's. -/
theorem seen_after_tombstone {c : LifecycleCall} {record : Option PeerRecord} {last : Duration}
    (hlast : s.records[key]? = some ⟨none, last⟩)
    (hforgets : Forgets c.time record s.records[key]?)
    (hforgot : Forgot (keyStep key c record).2 s'.records[key]?) (hseen : (s'.seen key).isSome) :
    ∃ peer, c.peer = some peer ∧ peer.key = key ∧ last < c.time := by
  obtain ⟨r, hr, hvisible⟩ : ∃ r, s'.records[key]? = some r ∧ r.visible.isSome := by
    cases hr : s'.records[key]? with
    | none => simp [seen, hr] at hseen
    | some r => exact ⟨r, rfl, by simpa [seen, hr] using hseen⟩
  have hstep : (keyStep key c record).2 = some r := by
    rcases hforgot with heq | ⟨hnone, -⟩
    · rw [← heq, hr]
    · rw [hnone] at hr
      cases hr
  rw [hlast] at hforgets
  -- the step starts at the tombstone or, after pruning, at nothing
  have hold : ∀ old, record = some old → SoundRecord key old := by
    intro old hsome seen hseen
    rcases hforgets with heq | ⟨hnone, -⟩
    · rw [heq] at hsome
      cases hsome
      cases hseen
    · rw [hnone] at hsome
      cases hsome
  rcases keyStep_cases hold hstep with hsame | ⟨-, -, ⟨peer, hpeer, hkey, -, hlater⟩ | ⟨hnone, -⟩⟩
  · -- the record was a tombstone, and the result is visible
    rcases hforgets with heq | ⟨hnone, -⟩
    · rw [heq] at hsame
      cases hsame
      cases hvisible
    · rw [hnone] at hsame
      cases hsame
  · refine ⟨peer, hpeer, hkey, ?_⟩
    rcases hforgets with heq | ⟨-, at', hat, hlt⟩
    · exact hlater last heq
    · cases hat
      exact hlt
  · rw [hnone] at hvisible
    cases hvisible

theorem run_after_tombstone (h : RecordsSound s) {last : Duration}
    (hlast : s.records[key]? = some ⟨none, last⟩) {calls : List LifecycleCall}
    {steps : List LifecycleStep} (hrun : s.run pruneTombstones calls = .ok steps)
    {before after : List LifecycleStep} {step : LifecycleStep}
    (heq : steps = before ++ step :: after) (hkept : ∀ m ∈ before, HasTombstone m.after key)
    (hseen : (step.after.seen key).isSome) :
    ∃ peer, step.call.peer = some peer ∧ peer.key = key ∧ last < step.call.time := by
  obtain ⟨steps', hrun', -, -, hsteps⟩ := run_sound h calls
  rw [hrun] at hrun'
  cases hrun'
  -- the tombstone before the step is no earlier than the first one
  obtain ⟨last', hlast', hle⟩ : ∃ last', (s.stateAfter before).records[key]? =
      some (PeerRecord.mk none last') ∧ last ≤ last' := by
    rcases List.eq_nil_or_concat before with rfl | ⟨earlier, m, rfl⟩
    · exact ⟨last, hlast, le_refl _⟩
    · obtain ⟨last', hlast'⟩ := hkept m (by simp)
      refine ⟨last', by rw [List.concat_eq_append, stateAfter_concat]; exact hlast', ?_⟩
      have hsplit : steps = [] ++ earlier ++ m :: (step :: after) := by simpa using heq
      refine le_of_steps hsteps hsplit hlast ?_ hlast'
      intro m' hm'
      obtain ⟨at', hat⟩ := hkept m' (by simp [hm'])
      rw [hat]
      rfl
  obtain ⟨-, -, hkeys⟩ := hsteps before step after heq
  obtain ⟨record, hforgets, hforgot⟩ := hkeys.records key
  obtain ⟨peer, hpeer, hkey, hlt⟩ := seen_after_tombstone hlast' hforgets hforgot hseen
  exact ⟨peer, hpeer, hkey, lt_of_le_of_lt hle hlt⟩

/-! ## The whole expiry -/

/-- For every reachable state, every time and every age: `expire` removes exactly the visible
peers of that age, in key order, and leaves the others as they were. Called again it removes
nothing. The number of visible peers drops by the number of transitions, and while its
tombstone is kept an expired key is seen again only after an observation of a later time. -/
theorem expire_exact (s : DiscoveredPeerState) (h : Reachable s) (now staleAfter : Duration) :
    ∃ keys s', s.expire pruneTombstones now staleAfter = .ok (keys.map (.removed · .expired), s') ∧
      StrictlyOrdered id keys ∧
      (∀ key, key ∈ keys ↔ ∃ peer, s.seen key = some peer ∧ Stale now staleAfter peer) ∧
      (∀ key, key ∉ keys → s'.seen key = s.seen key) ∧
      (∀ key peer, s'.seen key = some peer → ¬ Stale now staleAfter peer) ∧
      (∃ s'', s'.expire pruneTombstones now staleAfter = .ok ([], s'')) ∧
      s'.len + keys.length = s.len ∧
      ∀ key ∈ keys, HasTombstone s' key →
        ∀ calls steps, s'.run pruneTombstones calls = .ok steps →
          ∀ before step after, steps = before ++ step :: after →
            (∀ m ∈ before, HasTombstone m.after key) → (step.after.seen key).isSome →
            ∃ peer, step.call.peer = some peer ∧ peer.key = key ∧ now < step.call.time := by
  have hsound := h.recordsSound
  obtain ⟨s', hcall, hs', hkeys⟩ := call_sound hsound (.expire now staleAfter)
  have hexpire : s.expire pruneTombstones now staleAfter =
      .ok ((s.expiredKeys now staleAfter).map (.removed · .expired), s') := hcall
  have hmem : ∀ key, key ∈ s.expiredKeys now staleAfter ↔
      ∃ peer, s.seen key = some peer ∧ Stale now staleAfter peer := by
    intro key
    rw [mem_expiredKeys_iff_any, any_isStale_iff]
  -- capacity eviction may drop the tombstone of an expired key, but no visible record
  have hspec : ∀ key, (key ∈ s.expiredKeys now staleAfter →
      s'.records[key]? = some (PeerRecord.mk none now) ∨ s'.records[key]? = none) ∧
      (key ∉ s.expiredKeys now staleAfter → s'.seen key = s.seen key) := by
    intro key
    obtain ⟨record, hforgets, hforgot⟩ := hkeys key
    exact seen_of_expire hforgets hforgot
  have hfresh : ∀ key peer, s'.seen key = some peer → ¬ Stale now staleAfter peer := by
    intro key peer hseen hstale
    by_cases hkey : key ∈ s.expiredKeys now staleAfter
    · rcases (hspec key).1 hkey with hgone | hgone
      · simp [seen, hgone] at hseen
      · simp [seen, hgone] at hseen
    · rw [(hspec key).2 hkey] at hseen
      exact hkey ((hmem key).mpr ⟨peer, hseen, hstale⟩)
  refine ⟨s.expiredKeys now staleAfter, s', hexpire, expiredKeys_ordered, hmem,
    fun key => (hspec key).2, hfresh, ?_, ?_, ?_⟩
  · obtain ⟨s'', hagain, -⟩ := call_sound hs' (.expire now staleAfter)
    have hnone : s'.expiredKeys now staleAfter = [] := by
      refine List.eq_nil_iff_forall_not_mem.mpr fun key hkey => ?_
      obtain ⟨peer, hseen, hstale⟩ := any_isStale_iff.mp (mem_expiredKeys_iff_any.mp hkey)
      exact hfresh key peer hseen hstale
    refine ⟨s'', ?_⟩
    have hreport : s'.report (.expire now staleAfter) = [] := by rw [report, hnone, List.map_nil]
    rw [hreport] at hagain
    exact hagain
  · have hcount := expire_count pruneTombstones_safe hexpire
    rw [List.length_map] at hcount
    exact hcount
  · intro key hkey htomb calls steps hrun before step after heq hkept hseen
    obtain ⟨last, hlast⟩ := htomb
    -- the tombstone is the one this expiry has made
    have hnow : last = now := by
      rcases (hspec key).1 hkey with htime | hgone
      · rw [hlast] at htime
        cases htime
        rfl
      · rw [hlast] at hgone
        cases hgone
    subst hnow
    exact run_after_tombstone hs' hlast hrun heq hkept hseen

/-- A peer observed at 0 and expired at 10 for being 5 old. -/
theorem expire_exact_observed : ∃ (peer : DiscoveredPeer) (s : DiscoveredPeerState)
    (keys : List TransientDiscoveryKey) (s' : DiscoveredPeerState), Reachable s ∧
      s.expire pruneTombstones 10 5 = .ok (keys.map (.removed · .expired), s') ∧
      peer.key ∈ keys ∧ s'.len + keys.length = s.len := by
  obtain ⟨peer, -⟩ := BrowserState.desk_resolvesTo
  obtain ⟨s, hcall, -, hkeys⟩ := call_sound recordsSound_new (.apply (.added peer) 0)
  have hreach : Reachable s := .call .new hcall
  have hseen : s.seen peer.key = some ⟨peer, 0⟩ := by
    obtain ⟨record, hforgets, hforgot⟩ := hkeys peer.key
    have hnone : record = none := by
      rcases hforgets with heq | ⟨hnone, -⟩
      · simpa [new] using heq
      · exact hnone
    rw [hnone] at hforgot
    simp only [keyStep, if_true, observeRecord] at hforgot
    rw [seen, (hforgot.visible rfl).mpr rfl]
    rfl
  obtain ⟨keys, s', hexpire, -, hmem, -, -, -, hcount, -⟩ := expire_exact s hreach 10 5
  have hstale : Stale 10 5 ⟨peer, 0⟩ := ⟨Nat.zero_le 10, by show (5 : Nat) ≤ 10 - 0; omega⟩
  exact ⟨peer, s, keys, s', hreach, hexpire, (hmem peer.key).mpr ⟨_, hseen, hstale⟩, hcount⟩

end DiscoveredPeerState

end LocalTransfer
