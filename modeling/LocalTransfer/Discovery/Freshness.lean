import LocalTransfer.Discovery.Observe
import LocalTransfer.Discovery.OneKey

/-!
# Fresh peers and the sweep

`next_transition` stamps an event with the time of its call, which may be a whole window
before the event arrives. A sweep therefore spares a peer resolved less than the stale
window ago exactly as long as its stamp is that fresh too.
-/

namespace LocalTransfer

open Lib DiscoveredPeerState

/-! ## Resolutions -/

/-- A valid resolution: when `next_transition` was called, and when the poll took it. -/
structure Resolution where
  stampedAt : Duration
  takenAt : Duration

def Happening.resolution (key : TransientDiscoveryKey) : Happening → Option Resolution
  | .took event stampedAt takenAt =>
      if event.peer.any (·.key = key) then some ⟨stampedAt, takenAt⟩ else none
  | .gaveUp _ | .swept _ | .stopped _ | .wrote _ => none

/-- The valid resolutions of a key, in order. -/
def resolutions (key : TransientDiscoveryKey) (happened : List Happening) : List Resolution :=
  happened.filterMap (Happening.resolution key)

namespace Sweep

/-- The sweep reports a peer as expired. -/
def Reports (self : Sweep) (key : TransientDiscoveryKey) : Prop :=
  .removed key .expired ∈ self.transitions

/-- It drops a peer from the snapshot. -/
def Drops (self : Sweep) (key : TransientDiscoveryKey) : Prop :=
  (self.before.get key).isSome ∧ (self.after.get key).isNone

/-- It does one or the other, and so both (`Pass.sweep_reports_iff`). -/
def Expires (self : Sweep) (key : TransientDiscoveryKey) : Prop :=
  self.Reports key ∨ self.Drops key

/-- No peer with a resolution taken less than the stale window ago is expired. -/
def SparesFresh (self : Sweep) (earlier : List Happening) : Prop :=
  ∀ key, ∀ r ∈ resolutions key earlier, self.now - r.takenAt < self.staleAfter →
    ¬ self.Expires key

/-- Each visible peer whose last resolution was taken less than the stale window ago was
stamped less than the stale window ago. -/
def FreshlyStamped (self : Sweep) (earlier : List Happening) : Prop :=
  ∀ key r, (self.before.get key).isSome → (resolutions key earlier).getLast? = some r →
    self.now - r.takenAt < self.staleAfter → self.now - r.stampedAt < self.staleAfter

end Sweep

/-! ## The stamp of a record -/

section Stamp

variable {key : TransientDiscoveryKey} {record record' : Option PeerRecord}
  {last : Option Resolution} {now later : Duration}

/-- A record of times up to `now`, visible with the stamp of its key's last resolution. -/
def Stamped (now : Duration) (last : Option Resolution) (record : Option PeerRecord) : Prop :=
  ∀ r, record = some r → r.lastTransitionAt ≤ now ∧
    ∀ seen, r.visible = some seen → ∃ takenAt, last = some ⟨seen.lastObservedAt, takenAt⟩

theorem Stamped.mono (h : Stamped now last record) (hle : now ≤ later) :
    Stamped later last record := by
  intro r hr
  exact ⟨(h r hr).1.trans hle, (h r hr).2⟩

theorem Stamped.forgot (h : Stamped now last record) (hforgot : Forgot record record') :
    Stamped now last record' := by
  rcases hforgot with rfl | ⟨rfl, -⟩
  · exact h
  · intro r hr
    cases hr

theorem stamped_tombstone {at' : Duration} (h : at' ≤ now) :
    Stamped now last (some ⟨none, at'⟩) := by
  intro r hr
  cases hr
  exact ⟨h, fun seen hseen => by cases hseen⟩

theorem Stamped.observe (h : Stamped now last record) (peer : DiscoveredPeer)
    (takenAt : Duration) :
    Stamped now (some ⟨now, takenAt⟩) (some (observeRecord peer now record).2) := by
  have hseen : Stamped now (some ⟨now, takenAt⟩) (some ⟨some ⟨peer, now⟩, now⟩) := by
    intro r hr
    cases hr
    refine ⟨le_refl _, fun seen hseen => ?_⟩
    cases hseen
    exact ⟨takenAt, rfl⟩
  cases record with
  | none => exact hseen
  | some r =>
      obtain ⟨visible, at'⟩ := r
      have hle := (h _ rfl).1
      rw [observeRecord]
      split
      · next hstale =>
          -- only a tombstone of this very time makes an observation stale
          rcases hstale with hlt | ⟨hnone, -⟩
          · exact absurd hlt (Nat.not_lt.mpr hle)
          · cases visible with
            | none => exact stamped_tombstone hle
            | some seen => cases hnone
      · exact hseen

theorem Stamped.remove (h : Stamped now last record) :
    Stamped now last (some (removeRecord key now record).2) := by
  cases record with
  | none => exact stamped_tombstone (le_refl _)
  | some r =>
      have hle := (h r rfl).1
      rw [removeRecord]
      split
      · exact h
      · exact stamped_tombstone (max_le hle (le_refl _))

theorem Stamped.apply (h : Stamped now last record) (event : DiscoveryBrowserEvent)
    (takenAt : Duration) :
    Stamped now (((Happening.took event now takenAt).resolution key).or last)
      (keyStep key (.apply event now) record).2 := by
  cases event with
  | added peer | updated peer | refreshed peer =>
      by_cases hkey : peer.key = key
      · simp only [Happening.resolution, DiscoveryBrowserEvent.peer, Option.any_some, hkey,
          decide_true, if_true, keyStep, Option.some_or]
        exact h.observe peer takenAt
      · simp only [Happening.resolution, DiscoveryBrowserEvent.peer, Option.any_some, hkey,
          decide_false, Bool.false_eq_true, if_false, keyStep, Option.none_or]
        exact h
  | removed k =>
      simp only [Happening.resolution, DiscoveryBrowserEvent.peer, Option.any_none,
        Bool.false_eq_true, if_false, Option.none_or, keyStep]
      split
      · exact h.remove
      · exact h
  | error error => exact h

theorem Stamped.expire (h : Stamped now last record) (staleAfter : Duration) :
    Stamped now last (keyStep key (.expire now staleAfter) record).2 := by
  rw [keyStep]
  split
  · exact stamped_tombstone (le_refl _)
  · exact h

end Stamp

/-! ## Calls of a session -/

section Calls

variable {s s' : DiscoveredPeerState} {key : TransientDiscoveryKey} {now : Duration}

/-- The record of a visible peer. -/
theorem get_isSome_iff : (s.get key).isSome ↔
    ∃ seen last, s.records[key]? = some ⟨some seen, last⟩ := by
  rw [get_eq_visibleMap, getElem?_visibleMap]
  cases s.records[key]? with
  | none => simp
  | some record =>
      obtain ⟨visible, last⟩ := record
      cases visible <;> simp [visiblePeer]

/-- An event, applied at its stamp. -/
theorem apply_spec (h : Counted s) (event : DiscoveryBrowserEvent) (now : Duration) :
    ∃ t s', s.apply .pruneTombstones event now = .ok (t, s') ∧ Counted s' ∧
      ∀ key : TransientDiscoveryKey, ∃ record, Forgot s.records[key]? record ∧
        Forgot (keyStep key (.apply event now) record).2 s'.records[key]? := by
  obtain ⟨ts, s', hcall, hs', hkeys⟩ := call_spec pruneTombstones_safe h (.apply event now)
  obtain ⟨t, happly, -⟩ := apply_of_call hcall
  refine ⟨t, s', happly, hs', fun key => ?_⟩
  obtain ⟨record, hbefore, -, hafter⟩ := hkeys key
  exact ⟨record, hbefore, hafter⟩

/-- A sweep reports the stale visible peers, and no other, and it drops the same. -/
theorem expire_spec (h : Counted s) (now staleAfter : Duration) :
    ∃ ts s', s.expire .pruneTombstones now staleAfter = .ok (ts, s') ∧ Counted s' ∧
      ∀ key : TransientDiscoveryKey,
        (∃ record, Forgot s.records[key]? record ∧
          Forgot (keyStep key (.expire now staleAfter) record).2 s'.records[key]?) ∧
        (Sweep.Reports ⟨now, staleAfter, s, ts, s'⟩ key ↔
          s.records[key]?.any (isStale now staleAfter)) ∧
        (Sweep.Drops ⟨now, staleAfter, s, ts, s'⟩ key ↔
          s.records[key]?.any (isStale now staleAfter)) := by
  obtain ⟨ts, s', hcall, hs', hkeys⟩ := call_spec pruneTombstones_safe h (.expire now staleAfter)
  refine ⟨ts, s', hcall, hs', fun key => ?_⟩
  obtain ⟨record, hbefore, habout, hafter⟩ := hkeys key
  refine ⟨⟨record, hbefore, hafter⟩, ?_, ?_⟩
  · have hmem : .removed key .expired ∈ ts ↔ .removed key .expired ∈ about key ts := by
      simp [about, DiscoveredPeerTransition.key]
    rw [← hbefore.isStale now staleAfter, Sweep.Reports, hmem, habout, keyStep]
    split
    · next hstale => simp [hstale]
    · next hfresh => simp [hfresh]
  constructor
  · rintro ⟨hvisible, hdropped⟩
    -- a record that is not stale stays visible
    by_contra hfresh
    rw [← hbefore.isStale now staleAfter] at hfresh
    obtain ⟨seen, last, hrecord⟩ := get_isSome_iff.mp hvisible
    rw [keyStep, if_neg hfresh] at hafter
    have hkept : s'.records[key]? = some ⟨some seen, last⟩ :=
      (hafter.visible rfl).mpr ((hbefore.visible rfl).mpr hrecord)
    have hsome : (s'.get key).isSome := get_isSome_iff.mpr ⟨seen, last, hkept⟩
    simp only [Option.isNone_iff_eq_none] at hdropped
    rw [hdropped] at hsome
    cases hsome
  · intro hstale
    have hvisible : (s.get key).isSome := by
      obtain ⟨⟨visible, last⟩, hrecord, hseen⟩ := (Option.any_eq_true ..).mp hstale
      cases visible with
      | none => cases hseen
      | some seen => exact get_isSome_iff.mpr ⟨seen, last, hrecord⟩
    -- a stale one leaves a tombstone
    rw [← hbefore.isStale now staleAfter] at hstale
    rw [keyStep, if_pos hstale] at hafter
    refine ⟨hvisible, ?_⟩
    rw [Option.isNone_iff_eq_none, ← Option.not_isSome_iff_eq_none, get_isSome_iff]
    rintro ⟨seen, last, hrecord⟩
    rcases hafter with heq | ⟨heq, -⟩
    · rw [heq] at hrecord
      cases hrecord
    · rw [heq] at hrecord
      cases hrecord

end Calls

/-! ## Histories -/

/-- A state of times up to `now` and the history it comes from, whose sweeps so far spared
fresh peers exactly when these were freshly stamped. -/
structure Sound (now : Duration) (s : DiscoveredPeerState) (happened : List Happening) : Prop where
  counted : Counted s
  stamped : ∀ key : TransientDiscoveryKey,
    Stamped now (resolutions key happened).getLast? s.records[key]?
  taken : ∀ key, ∀ r ∈ resolutions key happened, r.stampedAt ≤ now ∧ r.takenAt ≤ now
  ordered : ∀ key, (resolutions key happened).Pairwise fun r r' => r.takenAt ≤ r'.takenAt
  sweeps : ∀ earlier sweep, earlier ++ [.swept sweep] <+: happened →
    (∀ key, sweep.Reports key ↔ sweep.Drops key) ∧
      (sweep.SparesFresh earlier ↔ sweep.FreshlyStamped earlier)

section History

variable {s s' : DiscoveredPeerState} {now later takenAt staleAfter : Duration}
  {happened : List Happening} {happening : Happening} {key : TransientDiscoveryKey}

theorem resolutions_append :
    resolutions key (happened ++ [happening]) =
      resolutions key happened ++ (happening.resolution key).toList := by
  rw [resolutions, List.filterMap_append]
  cases h : happening.resolution key with
  | none => simp [resolutions, h]
  | some r => simp [resolutions, h]

theorem getLast?_append_toList {α : Type} (rs : List α) (r : Option α) :
    (rs ++ r.toList).getLast? = r.or rs.getLast? := by
  cases r <;> simp

theorem sound_start : Sound 0 .new [] where
  counted := counted_new
  stamped key r hr := by simp [DiscoveredPeerState.new] at hr
  taken key r hr := by cases hr
  ordered key := List.Pairwise.nil
  sweeps earlier sweep h := by simp at h

theorem Sound.mono (h : Sound now s happened) (hle : now ≤ later) : Sound later s happened :=
  { h with
    stamped := fun key => (h.stamped key).mono hle
    taken := fun key r hr => ⟨(h.taken key r hr).1.trans hle, (h.taken key r hr).2.trans hle⟩ }

/-- The last resolution of a key is the latest. -/
theorem Sound.le_last (h : Sound now s happened) {last r : Resolution}
    (hlast : (resolutions key happened).getLast? = some last)
    (hr : r ∈ resolutions key happened) : r.takenAt ≤ last.takenAt := by
  have hordered := h.ordered key
  obtain ⟨init, hinit⟩ := List.getLast?_eq_some_iff.mp hlast
  rw [hinit] at hordered hr
  rcases List.mem_append.mp hr with hmem | hmem
  · exact (List.pairwise_append.mp hordered).2.2 r hmem last (List.mem_singleton_self _)
  · rw [List.mem_singleton.mp hmem]

/-- What is no resolution and no sweep changes nothing. -/
theorem Sound.other (h : Sound now s happened) (hres : ∀ key, happening.resolution key = none)
    (hsweep : ∀ sweep, happening ≠ .swept sweep) : Sound now s (happened ++ [happening]) := by
  have hsame : ∀ key, resolutions key (happened ++ [happening]) = resolutions key happened := by
    intro key
    rw [resolutions_append, hres key]
    exact List.append_nil _
  refine ⟨h.counted, fun key => ?_, fun key => ?_, fun key => ?_, fun earlier sweep hprefix => ?_⟩
  · rw [hsame]
    exact h.stamped key
  · rw [hsame]
    exact h.taken key
  · rw [hsame]
    exact h.ordered key
  · rcases List.prefix_concat_iff.mp hprefix with heq | hbefore
    · have hlast := (List.append_inj' heq rfl).2
      cases hlast
      exact absurd rfl (hsweep sweep)
    · exact h.sweeps earlier sweep hbefore

/-- An event that is taken after its stamp. -/
theorem Sound.took (h : Sound now s happened) (hle : now ≤ takenAt)
    {event : DiscoveryBrowserEvent} {t : DiscoveredPeerTransition}
    (happly : s.apply .pruneTombstones event now = .ok (t, s')) :
    Sound takenAt s' (happened ++ [.took event now takenAt]) := by
  obtain ⟨t', s'', happly', hs', hkeys⟩ := apply_spec h.counted event now
  rw [happly] at happly'
  cases happly'
  have hnew : ∀ key, ∀ r, (Happening.took event now takenAt).resolution key = some r →
      r = ⟨now, takenAt⟩ := by
    intro key r hr
    simp only [Happening.resolution, Option.ite_none_right_eq_some, Option.some.injEq] at hr
    exact hr.2.symm
  refine ⟨hs', fun key => ?_, fun key r hr => ?_, fun key => ?_, fun earlier sweep hprefix => ?_⟩
  · obtain ⟨record, hbefore, hafter⟩ := hkeys key
    rw [resolutions_append, getLast?_append_toList]
    exact ((((h.stamped key).forgot hbefore).apply event takenAt).forgot hafter).mono hle
  · rw [resolutions_append] at hr
    rcases List.mem_append.mp hr with hold | hlast
    · have hr := h.taken key r hold
      exact ⟨hr.1.trans hle, hr.2.trans hle⟩
    · rw [hnew key r (Option.mem_toList.mp hlast)]
      exact ⟨hle, le_refl _⟩
  · rw [resolutions_append, List.pairwise_append]
    refine ⟨h.ordered key, ?_, fun r hr r' hr' => ?_⟩
    · cases (Happening.took event now takenAt).resolution key <;> simp
    · rw [hnew key r' (Option.mem_toList.mp hr')]
      exact (h.taken key r hr).2.trans hle
  · rcases List.prefix_concat_iff.mp hprefix with heq | hbefore
    · have hlast := (List.append_inj' heq rfl).2
      cases hlast
    · exact h.sweeps earlier sweep hbefore

/-- A sweep expires a fresh peer if and only if its stamp is old. -/
theorem Sound.spares_iff (h : Sound now s happened) {ts : List DiscoveredPeerTransition}
    (hexpires : ∀ key : TransientDiscoveryKey, Sweep.Expires ⟨now, staleAfter, s, ts, s'⟩ key ↔
      s.records[key]?.any (isStale now staleAfter)) :
    Sweep.SparesFresh ⟨now, staleAfter, s, ts, s'⟩ happened ↔
      Sweep.FreshlyStamped ⟨now, staleAfter, s, ts, s'⟩ happened := by
  constructor
  · intro hspares key r hvisible hlast hfresh
    by_contra hold
    have hmem : r ∈ resolutions key happened := List.mem_of_getLast? hlast
    obtain ⟨seen, last, hrecord⟩ := get_isSome_iff.mp hvisible
    obtain ⟨at', hstamp⟩ := (h.stamped key _ hrecord).2 seen rfl
    rw [hlast] at hstamp
    cases hstamp
    have hpast := (h.taken key _ hmem).1
    refine hspares key _ hmem hfresh ((hexpires key).mpr ?_)
    simp only [hrecord, Option.any_some, isStale, Bool.and_eq_true, decide_eq_true_eq]
    exact ⟨hpast, Nat.not_lt.mp hold⟩
  · intro hstamped key r hr hfresh hexp
    obtain ⟨⟨visible, last⟩, hrecord, hstale⟩ := (Option.any_eq_true ..).mp ((hexpires key).mp hexp)
    cases visible with
    | none => cases hstale
    | some seen =>
        obtain ⟨at', hlast⟩ := (h.stamped key _ hrecord).2 seen rfl
        have hle := h.le_last hlast hr
        have hvisible : (s.get key).isSome := get_isSome_iff.mpr ⟨seen, last, hrecord⟩
        have hlater : now - at' < staleAfter := (Nat.sub_le_sub_left hle now).trans_lt hfresh
        have hnow := hstamped key _ hvisible hlast hlater
        simp only [isStale, Bool.and_eq_true, decide_eq_true_eq] at hstale
        exact absurd hnow (Nat.not_lt.mpr hstale.2)

theorem Sound.swept (h : Sound now s happened) {ts : List DiscoveredPeerTransition}
    (hexpire : s.expire .pruneTombstones now staleAfter = .ok (ts, s')) :
    Sound now s' (happened ++ [.swept ⟨now, staleAfter, s, ts, s'⟩]) := by
  obtain ⟨ts', s'', hexpire', hs', hkeys⟩ := expire_spec h.counted now staleAfter
  rw [hexpire] at hexpire'
  cases hexpire'
  have hsame : ∀ key, resolutions key (happened ++ [.swept ⟨now, staleAfter, s, ts, s'⟩]) =
      resolutions key happened := by
    intro key
    rw [resolutions_append]
    exact List.append_nil _
  refine ⟨hs', fun key => ?_, fun key => ?_, fun key => ?_, fun earlier sweep hprefix => ?_⟩
  · obtain ⟨⟨record, hbefore, hafter⟩, -⟩ := hkeys key
    rw [hsame]
    exact (((h.stamped key).forgot hbefore).expire staleAfter).forgot hafter
  · rw [hsame]
    exact h.taken key
  · rw [hsame]
    exact h.ordered key
  · rcases List.prefix_concat_iff.mp hprefix with heq | hbefore
    · obtain ⟨rfl, hlast⟩ := List.append_inj' heq rfl
      cases hlast
      have hreports := fun key => (hkeys key).2.1
      have hdrops := fun key => (hkeys key).2.2
      exact ⟨fun key => (hreports key).trans (hdrops key).symm,
        h.spares_iff fun key => (or_congr (hreports key) (hdrops key)).trans or_self_iff⟩
    · exact h.sweeps earlier sweep hbefore

end History

/-! ## Passes -/

namespace Pass

variable {world : Surroundings} {args : DiscoverArgs} {self : Pass} {now : Duration}

def SoundAt (now : Duration) (self : Pass) : Prop := Sound now self.session.state self.happened

/-- What a call leaves is sound, up to the time after its last poll if it returns. -/
theorem nextTransition_sound (fuel : Nat) (h : self.SoundAt now)
    (hnow : now ≤ world.polled self.polls) :
    ∃ later, (self.nextTransition world now fuel).2.SoundAt later ∧
      ∀ answer, (self.nextTransition world now fuel).1 = .ok answer →
        later ≤ world.after (self.nextTransition world now fuel).2.polls := by
  induction fuel generalizing self with
  | zero => exact ⟨now, h, fun answer hanswer => by cases hanswer⟩
  | succ fuel ih =>
      have hafter := (world.ordered self.polls).2.2
      cases hpoll : self.session.browser.pollEvent (world.backend self.polls) with
      | mk event browser =>
        cases event with
        | some event =>
            obtain ⟨t, s, happly, -, -⟩ := apply_spec h.counted event now
            rw [nextTransition_took hpoll happly]
            exact ⟨world.polled self.polls, h.took hnow happly, fun _ _ => hafter⟩
        | none =>
            by_cases hover : world.cancelledAfter (self.polls + 1) ∨
                self.session.deadline ≤ world.after (self.polls + 1)
            · rw [nextTransition_gaveUp hpoll hover]
              refine ⟨now, h.other (fun _ => rfl) (fun _ heq => ?_), fun _ _ => hnow.trans hafter⟩
              cases heq
            · rw [nextTransition_waited hpoll hover]
              -- the call is still the one made at `now`
              have hnext := world.ordered (self.polls + 1)
              apply ih
              · exact h
              · show now ≤ world.polled (self.polls + 1)
                exact hnow.trans (hafter.trans (hnext.1.trans hnext.2.1))

theorem expire_sound (args : DiscoverArgs) (events : List DiscoveredPeerTransition)
    (h : self.SoundAt now) :
    (self.expire args now events).2.SoundAt now ∧
      (self.expire args now events).2.polls = self.polls := by
  rw [expire]
  split
  · exact ⟨h, rfl⟩
  · next window hwindow =>
      obtain ⟨ts, s, hexpire, -, -⟩ := expire_spec h.counted now window
      rw [hexpire]
      exact ⟨h.swept hexpire, rfl⟩

theorem watch_sound (fuel : Nat) (events : List DiscoveredPeerTransition) (h : self.SoundAt now)
    (hnow : now ≤ world.after self.polls) :
    ∃ later, (self.watch world args fuel events).2.SoundAt later ∧
      ∀ answer, (self.watch world args fuel events).1 = .ok answer →
        later ≤ world.after (self.watch world args fuel events).2.polls := by
  induction fuel generalizing self events now with
  | zero => exact ⟨now, h, fun answer hanswer => by cases hanswer⟩
  | succ fuel ih =>
      rw [watch]
      split
      · exact ⟨now, h, fun _ _ => hnow⟩
      · have hcall := world.ordered self.polls
        obtain ⟨later, hsound, hlater⟩ := nextTransition_sound (fuel + 1)
          (h.mono (hnow.trans hcall.1)) hcall.2.1
        generalize self.nextTransition world (world.before self.polls) (fuel + 1) = called
          at hsound hlater
        obtain ⟨answer, next⟩ := called
        rcases answer with halt | t | t
        · exact ⟨later, hsound, fun _ hanswer => by cases hanswer⟩
        · exact ⟨later, hsound, fun _ _ => hlater _ rfl⟩
        · obtain ⟨hswept, hpolls⟩ :=
            expire_sound args (events ++ [t]) (hsound.mono (hlater _ rfl))
          dsimp only
          generalize next.expire args (world.after next.polls) (events ++ [t]) = expired
            at hswept hpolls
          obtain ⟨answer, last⟩ := expired
          cases answer with
          | error halt => exact ⟨_, hswept, fun _ hanswer => by cases hanswer⟩
          | ok events => exact ih events hswept (by rw [← hpolls])

theorem conclude_sound (events : List DiscoveredPeerTransition) (h : self.SoundAt now)
    (hnow : now ≤ world.before self.polls) :
    ∃ later, (self.conclude world args events).2.SoundAt later := by
  refine ⟨world.before self.polls, ?_⟩
  obtain ⟨hswept, -⟩ := expire_sound args events (h.mono hnow)
  rw [conclude]
  generalize self.expire args (world.before self.polls) events = expired at hswept
  obtain ⟨answer, next⟩ := expired
  cases answer with
  | error halt => exact hswept
  | ok events =>
      dsimp only
      have hended : ∀ result report, Sound (world.before self.polls) next.session.state
          ((next.happened ++ [.stopped result]) ++ [.wrote report]) := by
        intro result report
        apply Sound.other (Sound.other hswept (fun _ => rfl) ?_) (fun _ => rfl)
        · intro sweep heq
          cases heq
        · intro sweep heq
          cases heq
      split
      · exact hended _ _
      · exact hended _ _

/-- Every pass from the start is sound, however long it runs. -/
theorem observe_sound (world : Surroundings) (args : DiscoverArgs) (fuel : Nat)
    (deadline : Duration) :
    ∃ later, ((start deadline).observe world args fuel).2.SoundAt later := by
  have hstart : (start deadline).SoundAt 0 := sound_start
  obtain ⟨later, hsound, hlater⟩ : ∃ later, ((start deadline).watch world args fuel []).2.SoundAt
      later ∧ _ := watch_sound fuel [] hstart (Nat.zero_le _)
  rw [observe]
  generalize (start deadline).watch world args fuel [] = watched at hsound hlater
  obtain ⟨answer, last⟩ := watched
  cases answer with
  | error halt => exact ⟨later, hsound⟩
  | ok events =>
      exact conclude_sound events hsound ((hlater _ rfl).trans (world.ordered last.polls).1)

end Pass

/-! ## An arrival after a wait -/

/-- A device nearby, as the backend resolves it. -/
def nearby : RawResolvedService where
  fullname := "lt-a._local-transfer._tcp.local.".toList
  port := 4242
  endpoints := [⟨.v4 0xC0000201#32, none⟩]
  txt := [⟨keyDiscoveryVersion, utf8 "1".toList⟩, ⟨keyProtocolMin, utf8 "1".toList⟩,
    ⟨keyProtocolMax, utf8 "1".toList⟩]

/-- A poll every interval, from 0 on, and one arrival, at 1.02 s. -/
def lateArrival : Surroundings where
  before n := n * pollInterval
  polled n := n * pollInterval
  after n := (n - 1) * pollInterval
  ordered n := ⟨Nat.mul_le_mul_right _ (Nat.sub_le n 1), le_refl _, le_refl _⟩
  backend n := if n = 51 then some (.resolved nearby) else none
  cancelledBefore _ := false
  cancelledAfter _ := false
  stop := .ok ()
  write _ := .ok ()

/-- A window of 3 s and a stale window of 1 s. -/
def lateArrivalPass : Except Halt (Except DiscoveryCliError Unit) × Pass :=
  (Pass.start (.fromSecs 3)).observe lateArrival ⟨true, some 1⟩ 52

/-- The peer that arrives at 1.02 s is swept out at 1.02 s. -/
theorem lateArrival_swept : ∃ peer sweep,
    [.took (.added peer) 0 1020000000] ++ [.swept sweep] <+: lateArrivalPass.2.happened ∧
      sweep.now = 1020000000 ∧ sweep.staleAfter = .fromSecs 1 ∧ sweep.Expires peer.key := by
  have hvalid : nearby.peer.toOption.isSome = true := by decide
  obtain ⟨peer, hpeer⟩ : ∃ peer, nearby.peer = .ok peer := by
    cases h : nearby.peer with
    | ok peer => exact ⟨peer, rfl⟩
    | error error =>
        rw [h] at hvalid
        cases hvalid
  -- the session at the poll that finds the device
  let waiting : Pass := ⟨.start (.fromSecs 3), 51, []⟩
  obtain ⟨browser, hpoll⟩ : ∃ browser, waiting.session.browser.pollEvent
      (lateArrival.backend waiting.polls) = (some (.added peer), browser) := by
    have htranslate : (BrowserState.default.translate (.resolved nearby)).1 =
        some (.added peer) := by
      simp [BrowserState.translate, BrowserState.resolve, hpeer, BrowserState.default, bind,
        Except.bind]
    refine ⟨{ DiscoveryBrowser.start with
      state := (BrowserState.default.translate (.resolved nearby)).2 }, ?_⟩
    rw [← htranslate]
    rfl
  obtain ⟨t, s, happly, hs, hkeys⟩ := apply_spec counted_new (.added peer) 0
  obtain ⟨ts, s', hexpire, -, hexpires⟩ := expire_spec hs 1020000000 (.fromSecs 1)
  have hcall : (Pass.start (.fromSecs 3)).nextTransition lateArrival 0 52 = (.ok (some t),
      ((waiting.advance browser).become s).record (.took (.added peer) 0 1020000000)) := by
    have hquiet : (Pass.start (.fromSecs 3)).nextTransition lateArrival 0 (1 + 51) =
        waiting.nextTransition lateArrival 0 1 := by
      apply Pass.nextTransition_quiet
      · intro i hi
        exact if_neg (by simp only [Pass.start]; omega)
      · intro i hi hover
        have hearly : (0 + i + 1 - 1) * 20000000 < 3 * 1000000000 := by omega
        rcases hover with hcancelled | hover
        · exact Bool.noConfusion hcancelled
        · exact absurd hover (Nat.not_le.mpr hearly)
    rw [show (1 + 51 : Nat) = 52 by norm_num] at hquiet
    have htook : waiting.nextTransition lateArrival 0 1 = _ :=
      Pass.nextTransition_took hpoll happly
    have hpolled : lateArrival.polled waiting.polls = 1020000000 := by
      show 51 * 20000000 = 1020000000
      norm_num
    rw [hpolled] at htook
    rw [hquiet]
    exact htook
  have hstale : s.records[peer.key]?.any (isStale 1020000000 (.fromSecs 1)) := by
    obtain ⟨record, hbefore, hafter⟩ := hkeys peer.key
    have hnone : record = none := by
      rcases hbefore with heq | ⟨heq, -⟩
      · simpa [DiscoveredPeerState.new] using heq
      · exact heq
    rw [hnone] at hafter
    simp only [keyStep, if_true, observeRecord] at hafter
    rw [(hafter.visible rfl).mpr rfl]
    show (decide (0 ≤ 1020000000) && decide (1000000000 ≤ 1020000000 - 0)) = true
    decide
  refine ⟨peer, ⟨1020000000, .fromSecs 1, s, ts, s'⟩, ?_, rfl, rfl,
    .inl ((hexpires peer.key).2.1.mpr hstale)⟩
  refine List.IsPrefix.trans ?_ (Pass.watch_grows_observe lateArrival ⟨true, some 1⟩ 52 _)
  have hnow : lateArrival.after 52 = 1020000000 := by
    show (52 - 1) * 20000000 = 1020000000
    norm_num
  let taken := ((waiting.advance browser).become s).record (.took (.added peer) 0 1020000000)
  have hsweep : taken.expire ⟨true, some 1⟩ (lateArrival.after taken.polls) [t] =
      (.ok ([t] ++ ts), (taken.become s').record
        (.swept ⟨1020000000, .fromSecs 1, s, ts, s'⟩)) := by
    rw [show taken.polls = 52 from rfl, hnow]
    exact Pass.expire_swept rfl hexpire
  have hround : (Pass.start (.fromSecs 3)).watch lateArrival ⟨true, some 1⟩ 52 [] = _ :=
    Pass.watch_took rfl hcall hsweep
  have hgrows := Pass.watch_grows lateArrival ⟨true, some 1⟩ 51 ([t] ++ ts)
    ((taken.become s').record (.swept ⟨1020000000, .fromSecs 1, s, ts, s'⟩))
  rw [hround]
  exact hgrows

/-! ## The law of the sweep -/

/-- What a sweep reports as expired is what it drops from the snapshot. -/
theorem Pass.sweep_reports_iff (world : Surroundings) (args : DiscoverArgs) (fuel : Nat)
    (deadline : Duration) (earlier : List Happening) (sweep : Sweep)
    (h : earlier ++ [.swept sweep] <+: ((Pass.start deadline).observe world args fuel).2.happened)
    (key : TransientDiscoveryKey) : sweep.Reports key ↔ sweep.Drops key := by
  obtain ⟨later, hsound⟩ := Pass.observe_sound world args fuel deadline
  exact (hsound.sweeps earlier sweep h).1 key

/-- **A sweep spares a fresh peer if and only if it was freshly stamped.** In every pass,
under any surroundings and for any stale window, each call of `expire` leaves alone all
peers with a resolution taken less than the window ago exactly when each visible peer whose
last resolution was taken less than the window ago was stamped less than the window ago. -/
theorem sweep_spares_fresh_iff (world : Surroundings) (args : DiscoverArgs) (fuel : Nat)
    (deadline : Duration) (earlier : List Happening) (sweep : Sweep)
    (h : earlier ++ [.swept sweep] <+: ((Pass.start deadline).observe world args fuel).2.happened) :
    sweep.SparesFresh earlier ↔ sweep.FreshlyStamped earlier := by
  obtain ⟨later, hsound⟩ := Pass.observe_sound world args fuel deadline
  exact (hsound.sweeps earlier sweep h).2

theorem sweep_spares_fresh_late : ∃ earlier sweep,
    earlier ++ [.swept sweep] <+: lateArrivalPass.2.happened ∧
      (sweep.SparesFresh earlier ↔ sweep.FreshlyStamped earlier) := by
  obtain ⟨peer, sweep, hswept, -⟩ := lateArrival_swept
  exact ⟨_, sweep, hswept,
    sweep_spares_fresh_iff lateArrival ⟨true, some 1⟩ 52 (.fromSecs 3) _ sweep hswept⟩

/-- A peer resolved the moment it is swept out, because its call was made a second before. -/
theorem late_arrival_expired : ∃ earlier sweep,
    earlier ++ [.swept sweep] <+: lateArrivalPass.2.happened ∧ ¬ sweep.SparesFresh earlier := by
  obtain ⟨peer, sweep, hswept, hnow, hwindow, hexpires⟩ := lateArrival_swept
  refine ⟨_, sweep, hswept, fun hspares => ?_⟩
  apply hspares peer.key ⟨0, 1020000000⟩
  · simp [resolutions, Happening.resolution, DiscoveryBrowserEvent.peer]
  · rw [hnow, hwindow]
    decide
  · exact hexpires

end LocalTransfer
