import LocalTransfer.Discovery.Records
import LocalTransfer.Discovery.Translation

/-!
# From raw events to visible peers

The pipeline of discovery: raw browser events go through `BrowserState::translate`, and each
translated event is applied to a `DiscoveredPeerState`, with expiries in between. With times
that strictly increase, the two stores agree on every peer but those that an expiry removed
since they were last resolved (`pipeline_agrees`).
-/

namespace LocalTransfer

open Lib DiscoveredPeerState

/-! ## The pipeline -/

inductive PipelineInput
  | raw (event : RawBrowserEvent) (observedAt : Duration)
  | expire (now staleAfter : Duration)

def PipelineInput.time : PipelineInput → Duration
  | .raw _ observedAt => observedAt
  | .expire now _ => now

structure Pipeline where
  browser : BrowserState
  lifecycle : DiscoveredPeerState

/-- An input, the call it made if any, what the call returned, and the state after it. -/
structure PipelineStep where
  input : PipelineInput
  call : Option LifecycleCall
  transitions : List DiscoveredPeerTransition
  after : Pipeline

namespace Pipeline

def start : Pipeline := ⟨.default, .new⟩

/-- The call that an input makes, and the browser after it. -/
def callOf (self : Pipeline) : PipelineInput → Option LifecycleCall × BrowserState
  | .raw event observedAt =>
      let (emitted, browser) := self.browser.translate event
      (emitted.map fun event => .apply event observedAt, browser)
  | .expire now staleAfter => (some (.expire now staleAfter), self.browser)

def step (self : Pipeline) (input : PipelineInput) : Except LifecyclePanic PipelineStep :=
  let (made, browser) := self.callOf input
  match made with
  | none => .ok ⟨input, none, [], ⟨browser, self.lifecycle⟩⟩
  | some c => do
      let (transitions, lifecycle) ← self.lifecycle.call pruneTombstones c
      .ok ⟨input, some c, transitions, ⟨browser, lifecycle⟩⟩

def run (self : Pipeline) : List PipelineInput → Except LifecyclePanic (List PipelineStep)
  | [] => .ok []
  | input :: inputs => do
      let step ← self.step input
      let rest ← step.after.run inputs
      .ok (step :: rest)

def stateAfter (self : Pipeline) (steps : List PipelineStep) : Pipeline :=
  steps.foldl (fun _ step => step.after) self

end Pipeline

/-! ## Histories -/

/-- A valid resolution of a key. -/
def PipelineStep.Resolves (step : PipelineStep) (key : TransientDiscoveryKey) : Prop :=
  ∃ resolved observedAt peer, step.input = .raw (.resolved resolved) observedAt ∧
    ResolvesTo resolved peer ∧ peer.key = key

/-- An expiry that removes a key. -/
def PipelineStep.Expires (step : PipelineStep) (key : TransientDiscoveryKey) : Prop :=
  (∃ now staleAfter, step.input = .expire now staleAfter) ∧
    .removed key .expired ∈ step.transitions

/-- An expiry removed the key, and it was not resolved since. -/
def ExpiredSince (steps : List PipelineStep) (key : TransientDiscoveryKey) : Prop :=
  ∃ before step after, steps = before ++ step :: after ∧ step.Expires key ∧
    ∀ later ∈ after, ¬ later.Resolves key

/-- The times of the calls made. -/
def callTimes (steps : List PipelineStep) : List Duration :=
  steps.filterMap fun step => step.call.map LifecycleCall.time

section History

variable {steps : List PipelineStep} {step : PipelineStep} {key : TransientDiscoveryKey}

theorem expiredSince_nil : ¬ ExpiredSince [] key := by
  intro h
  obtain ⟨before, step, after, heq, -⟩ := h
  simp at heq

theorem expiredSince_concat : ExpiredSince (steps ++ [step]) key ↔
    step.Expires key ∨ (ExpiredSince steps key ∧ ¬ step.Resolves key) := by
  constructor
  · intro h
    obtain ⟨before, first, after, heq, hexpires, hafter⟩ := h
    rcases List.eq_nil_or_concat after with rfl | ⟨rest, last, rfl⟩
    · obtain ⟨-, hsame⟩ := List.append_inj' heq rfl
      rw [List.cons.inj hsame |>.1]
      exact .inl hexpires
    · have hsplit : steps ++ [step] = (before ++ first :: rest) ++ [last] := by
        rw [heq]
        simp
      obtain ⟨rfl, hsame⟩ := List.append_inj' hsplit rfl
      cases hsame
      refine .inr ⟨⟨before, first, rest, rfl, hexpires, ?_⟩, hafter _ (by simp)⟩
      intro later hlater
      exact hafter later (by simp [hlater])
  · intro h
    rcases h with hexpires | ⟨⟨before, first, after, rfl, hexpires, hafter⟩, hnot⟩
    · exact ⟨steps, step, [], rfl, hexpires, by simp⟩
    · refine ⟨before, first, after ++ [step], by simp, hexpires, ?_⟩
      intro later hlater
      rcases List.mem_append.mp hlater with hold | hnew
      · exact hafter later hold
      · rw [List.mem_singleton.mp hnew]
        exact hnot

theorem callTimes_concat : callTimes (steps ++ [step]) =
    callTimes steps ++ (step.call.map LifecycleCall.time).toList := by
  rw [callTimes, List.filterMap_append]
  cases h : step.call <;> simp [callTimes, h]

end History

/-! ## What a call shows -/

section Call

variable {s : DiscoveredPeerState} {key : TransientDiscoveryKey} {peer : DiscoveredPeer}
  {at' : Duration} {v : VisibleMap} {record : Option PeerRecord}

/-- A call shows what it reports, and stamps what it writes. -/
theorem call_shows (h : RecordsSound s) (c : LifecycleCall) :
    ∃ s', s.call pruneTombstones c = .ok (s.report c, s') ∧ RecordsSound s' ∧
      s'.visibleMap = (s.report c).foldl (replay c.peer) s.visibleMap ∧
      ∀ (key : TransientDiscoveryKey) r, s'.records[key]? = some r →
        s.records[key]? = some r ∨ r.lastTransitionAt = c.time := by
  obtain ⟨s', hcall, hs', hkeys⟩ := call_sound h c
  obtain ⟨ts, next, htruthful, -, -, hmap⟩ := call_truthful pruneTombstones_safe h.isCounted c
  rw [hcall] at htruthful
  cases htruthful
  refine ⟨s', hcall, hs', hmap, ?_⟩
  intro key r hr
  obtain ⟨record, hforgets, hforgot⟩ := hkeys key
  have hstep : (keyStep key c record).2 = some r := by
    rcases hforgot with heq | ⟨hnone, -⟩
    · rw [← heq, hr]
    · rw [hnone] at hr
      cases hr
  have hold : ∀ old, record = some old → SoundRecord key old := by
    intro old hsome
    rcases hforgets with heq | ⟨hnone, -⟩
    · exact h.sound key old (heq ▸ hsome)
    · rw [hnone] at hsome
      cases hsome
  rcases keyStep_cases hold hstep with hsame | ⟨htime, -⟩
  · rcases hforgets with heq | ⟨hnone, -⟩
    · exact .inl (heq ▸ hsame)
    · rw [hnone] at hsame
      cases hsame
  · exact .inr htime

/-- An observation later than the record is accepted. -/
theorem replay_observeRecord (hlate : ∀ r, record = some r → r.lastTransitionAt < at') :
    replay (some peer) v (observeRecord peer at' record).1 = v.insert peer.key peer := by
  cases record with
  | none => rfl
  | some r =>
      have hlt := hlate r rfl
      have hfresh : ¬ (at' < r.lastTransitionAt ∨
          (r.visible.isNone ∧ at' = r.lastTransitionAt)) := by
        intro hstale
        rcases hstale with hbefore | ⟨-, hsame⟩
        · exact lt_asymm hlt hbefore
        · exact hlt.ne' hsame
      simp only [observeRecord, if_neg hfresh]
      cases r.visible with
      | none => rfl
      | some seen =>
          by_cases hpeer : seen.peer = peer
          · simp only [if_pos hpeer, replay]
          · simp only [if_neg hpeer, replay]

/-- So is a removal. -/
theorem replay_removeRecord (hlate : ∀ r, record = some r → r.lastTransitionAt < at')
    (hshown : v[key]? = record.bind visiblePeer) :
    replay none v (removeRecord key at' record).1 = v.erase key := by
  cases record with
  | none => exact (erase_of_absent hshown).symm
  | some r =>
      simp only [removeRecord, if_neg (lt_asymm (hlate r rfl))]
      cases hvisible : r.visible with
      | none =>
          have habsent : v[key]? = none := by simp [hshown, visiblePeer, hvisible]
          exact (erase_of_absent habsent).symm
      | some seen => rfl

theorem mem_report_expire {now staleAfter : Duration} :
    .removed key .expired ∈ s.report (.expire now staleAfter) ↔
      key ∈ s.expiredKeys now staleAfter := by
  simp [report]

end Call

/-! ## One step -/

namespace Pipeline

variable {p : Pipeline} {input : PipelineInput} {step : PipelineStep}
  {history : List PipelineStep}

/-- What a step does: the call that its input makes, as the lifecycle answers it. -/
structure Steps (p : Pipeline) (input : PipelineInput) (step : PipelineStep) : Prop where
  taken : step.input = input
  translated : p.callOf input = (step.call, step.after.browser)
  sound : RecordsSound step.after.lifecycle
  silent : step.call = none → step.after.lifecycle = p.lifecycle
  made : ∀ c, step.call = some c → step.transitions = p.lifecycle.report c ∧
    step.after.lifecycle.visibleMap =
      (p.lifecycle.report c).foldl (replay c.peer) p.lifecycle.visibleMap ∧
    ∀ (key : TransientDiscoveryKey) r, step.after.lifecycle.records[key]? = some r →
      p.lifecycle.records[key]? = some r ∨ r.lastTransitionAt = c.time

theorem step_spec (h : RecordsSound p.lifecycle) (input : PipelineInput) :
    ∃ step, p.step input = .ok step ∧ Steps p input step := by
  unfold step
  cases hcall : p.callOf input with
  | mk call browser =>
      cases call with
      | none =>
          refine ⟨_, rfl, ⟨rfl, hcall, h, fun _ => rfl, ?_⟩⟩
          intro c hc
          cases hc
      | some c =>
          obtain ⟨s', hrun, hs', hshows⟩ := call_shows h c
          refine ⟨⟨input, some c, p.lifecycle.report c, ⟨browser, s'⟩⟩, ?_,
            ⟨rfl, hcall, hs', ?_, ?_⟩⟩
          · simp only [hrun, bind, Except.bind]
          · intro hnone
            cases hnone
          · intro c' hc'
            cases hc'
            exact ⟨rfl, hshows⟩

/-- The two stores agree, up to the keys that expired since they were last resolved. -/
structure Agrees (history : List PipelineStep) (p : Pipeline) : Prop where
  sound : RecordsSound p.lifecycle
  past : ∀ (key : TransientDiscoveryKey) r, p.lifecycle.records[key]? = some r →
    ∃ t ∈ callTimes history, r.lastTransitionAt ≤ t
  expired : ∀ key, ExpiredSince history key → p.lifecycle.visibleMap[key]? = none
  current : ∀ key, ¬ ExpiredSince history key →
    p.lifecycle.visibleMap[key]? = p.browser.peers[key]?

theorem agrees_start : Agrees [] start := by
  have hempty : start.lifecycle.visibleMap = ∅ :=
    Std.ExtTreeMap.ext_getElem? fun k => by simp [start, DiscoveredPeerState.new]
  refine ⟨recordsSound_new, ?_, ?_, ?_⟩
  · intro key r h
    simp [start, DiscoveredPeerState.new] at h
  · intro key h
    exact absurd h expiredSince_nil
  · intro key _
    rw [hempty]
    rfl

/-- The records of a step are of its call's time or of an earlier one. -/
theorem Agrees.past_step (h : Agrees history p) (hstep : Steps p input step) :
    ∀ (key : TransientDiscoveryKey) r, step.after.lifecycle.records[key]? = some r →
      ∃ t ∈ callTimes (history ++ [step]), r.lastTransitionAt ≤ t := by
  intro key r hr
  rw [callTimes_concat]
  cases hcall : step.call with
  | none =>
      rw [hstep.silent hcall] at hr
      obtain ⟨t, ht, hle⟩ := h.past key r hr
      exact ⟨t, List.mem_append_left _ ht, hle⟩
  | some c =>
      rcases (hstep.made c hcall).2.2 key r hr with hold | htime
      · obtain ⟨t, ht, hle⟩ := h.past key r hold
        exact ⟨t, List.mem_append_left _ ht, hle⟩
      · exact ⟨c.time, List.mem_append_right _ (by simp), htime.le⟩

/-- What a step makes of one key in the two stores. -/
inductive Shows (p : Pipeline) (step : PipelineStep) (key : TransientDiscoveryKey) : Prop
  | expired (hexpires : step.Expires key) (hnone : step.after.lifecycle.visibleMap[key]? = none)
  | resolved (hnot : ¬ step.Expires key) (hresolves : step.Resolves key)
      (hsame : step.after.lifecycle.visibleMap[key]? = step.after.browser.peers[key]?)
  | kept (hnot : ¬ step.Expires key) (hnot' : ¬ step.Resolves key)
      (hvisible : step.after.lifecycle.visibleMap[key]? = p.lifecycle.visibleMap[key]?)
      (hstored : step.after.browser.peers[key]? = p.browser.peers[key]?)
  | removed (hnot : ¬ step.Expires key) (hnot' : ¬ step.Resolves key)
      (hvisible : step.after.lifecycle.visibleMap[key]? = none)
      (hstored : step.after.browser.peers[key]? = none)

theorem getElem?_insert_peer {peers : VisibleMap} {peer : DiscoveredPeer}
    (k : TransientDiscoveryKey) :
    (peers.insert peer.key peer)[k]? = if peer.key = k then some peer else peers[k]? := by
  rw [Std.ExtTreeMap.getElem?_insert]
  simp

theorem getElem?_erase_key {peers : VisibleMap} {key : TransientDiscoveryKey}
    (k : TransientDiscoveryKey) : (peers.erase key)[k]? = if key = k then none else peers[k]? := by
  rw [Std.ExtTreeMap.getElem?_erase]
  simp

/-- A step whose event is a valid resolution shows its peer in both stores. -/
theorem shows_of_sighting {resolved : RawResolvedService} {observedAt : Duration}
    {peer : DiscoveredPeer} (hinput : step.input = .raw (.resolved resolved) observedAt)
    (hvalid : ResolvesTo resolved peer)
    (hvisible : step.after.lifecycle.visibleMap = p.lifecycle.visibleMap.insert peer.key peer)
    (hstored : step.after.browser.peers = p.browser.peers.insert peer.key peer)
    (key : TransientDiscoveryKey) : Shows p step key := by
  have hnot : ¬ step.Expires key := by
    intro h
    obtain ⟨⟨now, staleAfter, heq⟩, -⟩ := h
    rw [hinput] at heq
    cases heq
  by_cases hkey : peer.key = key
  · refine .resolved hnot ⟨resolved, observedAt, peer, hinput, hvalid, hkey⟩ ?_
    rw [hvisible, hstored, getElem?_insert_peer, getElem?_insert_peer, if_pos hkey, if_pos hkey]
  · refine .kept hnot ?_ ?_ ?_
    · intro h
      obtain ⟨resolved', observedAt', peer', heq, hvalid', hkey'⟩ := h
      rw [hinput] at heq
      cases heq
      exact hkey ((hvalid.unique hvalid') ▸ hkey')
    · rw [hvisible, getElem?_insert_peer, if_neg hkey]
    · rw [hstored, getElem?_insert_peer, if_neg hkey]

/-- A step that is no expiry, of an event that is no valid resolution. -/
theorem not_of_raw {event : RawBrowserEvent} {observedAt : Duration}
    (hinput : step.input = .raw event observedAt)
    (hinvalid : ∀ resolved peer, event = .resolved resolved → ¬ ResolvesTo resolved peer)
    (key : TransientDiscoveryKey) : ¬ step.Expires key ∧ ¬ step.Resolves key := by
  constructor
  · intro h
    obtain ⟨⟨now, staleAfter, heq⟩, -⟩ := h
    rw [hinput] at heq
    cases heq
  · intro h
    obtain ⟨resolved, observedAt', peer, heq, hvalid, -⟩ := h
    rw [hinput] at heq
    cases heq
    exact hinvalid resolved peer rfl hvalid

/-- An expiry shows no difference but for the keys it reports. -/
theorem Steps.shows_expire {now staleAfter : Duration}
    (hstep : Steps p (.expire now staleAfter) step)
    (key : TransientDiscoveryKey) : Shows p step key := by
  obtain ⟨hcall, hbrowser⟩ := Prod.mk.inj hstep.translated
  obtain ⟨htransitions, hmap, -⟩ := hstep.made _ hcall.symm
  have hlookup := (allTruthful_removed none .expired
    (nodup_expiredKeys p.lifecycle now staleAfter) fun key hkey =>
      Std.ExtTreeMap.mem_iff_isSome_getElem?.mp (mem_visibleMap_of_expiredKeys hkey)).2 key
  have hvisible : step.after.lifecycle.visibleMap[key]? =
      if key ∈ p.lifecycle.expiredKeys now staleAfter then none
      else p.lifecycle.visibleMap[key]? := by
    rw [hmap]
    exact hlookup
  by_cases hkey : key ∈ p.lifecycle.expiredKeys now staleAfter
  · refine .expired ⟨⟨now, staleAfter, hstep.taken⟩, ?_⟩ (by rw [hvisible, if_pos hkey])
    rw [htransitions]
    exact mem_report_expire.mpr hkey
  · refine .kept ?_ ?_ (by rw [hvisible, if_neg hkey]) (by rw [← hbrowser])
    · intro h
      have hmem := h.2
      rw [htransitions] at hmem
      exact hkey (mem_report_expire.mp hmem)
    · intro h
      obtain ⟨resolved, observedAt, peer, heq, -⟩ := h
      rw [hstep.taken] at heq
      cases heq

/-- A raw event shows the same change in both stores, if its call is later than every record. -/
theorem Steps.shows_raw {event : RawBrowserEvent} {observedAt : Duration}
    (hstep : Steps p (.raw event observedAt) step)
    (hlate : ∀ c, step.call = some c → ∀ (key : TransientDiscoveryKey) r,
      p.lifecycle.records[key]? = some r → r.lastTransitionAt < c.time)
    (key : TransientDiscoveryKey) : Shows p step key := by
  have hcall : (p.browser.translate event).1.map (fun event => .apply event observedAt) =
      step.call := congrArg Prod.fst hstep.translated
  have hbrowser : (p.browser.translate event).2 = step.after.browser :=
    congrArg Prod.snd hstep.translated
  have hspec := BrowserState.translate_spec p.browser event
  generalize (p.browser.translate event).1 = emitted at hspec hcall
  generalize (p.browser.translate event).2 = browser at hspec hbrowser
  -- what is emitted decides the call, and the call is accepted because it is late
  have hsighting : ∀ {resolved e peer}, event = .resolved resolved → ResolvesTo resolved peer →
      emitted = some e → e.peer = some peer →
      p.lifecycle.report (.apply e observedAt) =
        [(observeRecord peer observedAt p.lifecycle.records[peer.key]?).1] →
      browser.peers = p.browser.peers.insert peer.key peer → Shows p step key := by
    intro resolved e peer hevent hvalid hemitted hpeer hreport hstored
    rw [hemitted] at hcall
    obtain ⟨-, hmap, -⟩ := hstep.made _ hcall.symm
    have hvisible : step.after.lifecycle.visibleMap =
        p.lifecycle.visibleMap.insert peer.key peer := by
      rw [hmap, hreport, show (LifecycleCall.apply e observedAt).peer = some peer from hpeer]
      exact replay_observeRecord (hlate _ hcall.symm peer.key)
    rw [hbrowser] at hstored
    exact shows_of_sighting (hevent ▸ hstep.taken) hvalid hvisible hstored key
  have herror : ∀ {error}, emitted = some (.error error) → browser = p.browser →
      ¬ step.Expires key → ¬ step.Resolves key → Shows p step key := by
    intro error hemitted hsame hnot hnot'
    rw [hemitted] at hcall
    obtain ⟨-, hmap, -⟩ := hstep.made _ hcall.symm
    refine .kept hnot hnot' (by rw [hmap]; rfl) (by rw [← hbrowser, hsame])
  cases hspec with
  | added hvalid habsent => exact hsighting rfl hvalid rfl rfl rfl rfl
  | updated hvalid hstored hne => exact hsighting rfl hvalid rfl rfl rfl rfl
  | refreshed hvalid hstored =>
      exact hsighting rfl hvalid rfl rfl rfl (insert_of_stored hstored).symm
  | invalid hinvalid =>
      rename_i resolved error
      have hnone : ∀ r peer, RawBrowserEvent.resolved resolved = .resolved r →
          ¬ ResolvesTo r peer := by
        intro r peer heq hvalid
        cases heq
        rw [RawResolvedService.peer_eq_ok_iff.mpr hvalid] at hinvalid
        cases hinvalid
      obtain ⟨hnot, hnot'⟩ := not_of_raw hstep.taken hnone key
      exact herror rfl rfl hnot hnot'
  | removed hkey hstored =>
      rename_i fullname k peer
      obtain ⟨hnot, hnot'⟩ := not_of_raw hstep.taken (fun resolved peer heq => by cases heq) key
      obtain ⟨-, hmap, -⟩ := hstep.made _ hcall.symm
      have hvisible : step.after.lifecycle.visibleMap = p.lifecycle.visibleMap.erase k := by
        rw [hmap]
        exact replay_removeRecord (hlate _ hcall.symm k) getElem?_visibleMap
      have hstored' : step.after.browser.peers = p.browser.peers.erase k := by rw [← hbrowser]
      by_cases heq : k = key
      · refine .removed hnot hnot' ?_ ?_
        · rw [hvisible, getElem?_erase_key, if_pos heq]
        · rw [hstored', getElem?_erase_key, if_pos heq]
      · refine .kept hnot hnot' ?_ ?_
        · rw [hvisible, getElem?_erase_key, if_neg heq]
        · rw [hstored', getElem?_erase_key, if_neg heq]
  | absent hkey habsent =>
      obtain ⟨hnot, hnot'⟩ := not_of_raw hstep.taken (fun resolved peer heq => by cases heq) key
      exact .kept hnot hnot' (by rw [hstep.silent hcall.symm]) (by rw [← hbrowser])
  | malformed hkey =>
      obtain ⟨hnot, hnot'⟩ := not_of_raw hstep.taken (fun resolved peer heq => by cases heq) key
      exact herror rfl rfl hnot hnot'
  | failed =>
      obtain ⟨hnot, hnot'⟩ := not_of_raw hstep.taken (fun resolved peer heq => by cases heq) key
      exact herror rfl rfl hnot hnot'

theorem Steps.shows (hstep : Steps p input step)
    (hlate : ∀ c, step.call = some c → ∀ (key : TransientDiscoveryKey) r,
      p.lifecycle.records[key]? = some r → r.lastTransitionAt < c.time)
    (key : TransientDiscoveryKey) : Shows p step key := by
  cases input with
  | raw event observedAt => exact hstep.shows_raw hlate key
  | expire now staleAfter => exact hstep.shows_expire key

/-- A step later than all before it keeps the two stores in agreement. -/
theorem Agrees.next (h : Agrees history p) (hstep : Steps p input step)
    (hlater : ∀ c, step.call = some c → ∀ t ∈ callTimes history, t < c.time) :
    Agrees (history ++ [step]) step.after := by
  have hlate : ∀ c, step.call = some c → ∀ (key : TransientDiscoveryKey) r,
      p.lifecycle.records[key]? = some r → r.lastTransitionAt < c.time := by
    intro c hcall key r hr
    obtain ⟨t, ht, hle⟩ := h.past key r hr
    exact lt_of_le_of_lt hle (hlater c hcall t ht)
  refine ⟨hstep.sound, h.past_step hstep, ?_, ?_⟩
  · intro key hexpired
    rw [expiredSince_concat] at hexpired
    cases hstep.shows hlate key with
    | expired hexpires hnone => exact hnone
    | resolved hnot hresolves hsame =>
        rcases hexpired with hexpires | ⟨-, hnot'⟩
        · exact absurd hexpires hnot
        · exact absurd hresolves hnot'
    | kept hnot hnot' hvisible hstored =>
        rcases hexpired with hexpires | ⟨hsince, -⟩
        · exact absurd hexpires hnot
        · rw [hvisible]
          exact h.expired key hsince
    | removed hnot hnot' hvisible hstored => exact hvisible
  · intro key hcurrent
    rw [expiredSince_concat, not_or, not_and_not_right] at hcurrent
    cases hstep.shows hlate key with
    | expired hexpires hnone => exact absurd hexpires hcurrent.1
    | resolved hnot hresolves hsame => exact hsame
    | kept hnot hnot' hvisible hstored =>
        rw [hvisible, hstored]
        exact h.current key fun hsince => hnot' (hcurrent.2 hsince)
    | removed hnot hnot' hvisible hstored => rw [hvisible, hstored]

/-! ## Whole runs -/

/-- No run of the pipeline panics. -/
theorem run_ok (h : RecordsSound p.lifecycle) (inputs : List PipelineInput) :
    ∃ steps, p.run inputs = .ok steps ∧ steps.map PipelineStep.input = inputs := by
  induction inputs generalizing p with
  | nil => exact ⟨[], rfl, rfl⟩
  | cons input inputs ih =>
      obtain ⟨step, hone, hstep⟩ := step_spec h input
      obtain ⟨steps, hrun, hinputs⟩ := ih hstep.sound
      refine ⟨step :: steps, ?_, by rw [List.map_cons, hinputs, hstep.taken]⟩
      simp only [run, hone, hrun, bind, Except.bind]

/-- A call is made at the time of its input. -/
theorem Steps.time (hstep : Steps p input step) {c : LifecycleCall} (hcall : step.call = some c) :
    c.time = input.time := by
  have hmade : (p.callOf input).1 = some c := (congrArg Prod.fst hstep.translated).trans hcall
  cases input with
  | raw event observedAt =>
      obtain ⟨emitted, -, rfl⟩ := Option.map_eq_some_iff.mp hmade
      rfl
  | expire now staleAfter =>
      cases hmade
      rfl

/-- An input makes one call at most. -/
theorem callTimes_sublist (h : RecordsSound p.lifecycle) {inputs : List PipelineInput}
    {steps : List PipelineStep} (hrun : p.run inputs = .ok steps) :
    (callTimes steps).Sublist (inputs.map PipelineInput.time) := by
  induction inputs generalizing p steps with
  | nil =>
      cases hrun
      exact List.Sublist.slnil
  | cons input inputs ih =>
      obtain ⟨step, hone, hstep⟩ := step_spec h input
      obtain ⟨rest, hrest, -⟩ := run_ok hstep.sound inputs
      simp only [Pipeline.run, hone, hrest, bind, Except.bind] at hrun
      cases hrun
      have hlater := ih hstep.sound hrest
      cases hcall : step.call with
      | none =>
          rw [callTimes, List.filterMap_cons_none (by rw [hcall]; rfl)]
          exact hlater.cons _
      | some c =>
          rw [callTimes, List.filterMap_cons_some (by rw [hcall]; rfl), hstep.time hcall]
          exact hlater.cons_cons _

/-- With times that increase, every state of a run agrees with the history before it. -/
theorem Agrees.run (h : Agrees history p) {inputs : List PipelineInput} {steps : List PipelineStep}
    (hrun : p.run inputs = .ok steps) (htimes : (callTimes (history ++ steps)).Pairwise (· < ·))
    {before after : List PipelineStep} (hsplit : steps = before ++ after) :
    Agrees (history ++ before) (p.stateAfter before) := by
  induction inputs generalizing p history steps before with
  | nil =>
      cases hrun
      obtain ⟨rfl, -⟩ := List.append_eq_nil_iff.mp hsplit.symm
      rw [List.append_nil]
      exact h
  | cons input inputs ih =>
      obtain ⟨step, hone, hstep⟩ := step_spec h.sound input
      obtain ⟨rest, hrest, -⟩ := run_ok hstep.sound inputs
      simp only [Pipeline.run, hone, hrest, bind, Except.bind] at hrun
      cases hrun
      have htimes' : (callTimes ((history ++ [step]) ++ rest)).Pairwise (· < ·) := by
        rw [List.append_assoc]
        exact htimes
      have hlater : ∀ c, step.call = some c → ∀ t ∈ callTimes history, t < c.time := by
        intro c hcall t ht
        rw [callTimes, List.filterMap_append, ← callTimes, callTimes_concat] at htimes'
        have hpast := (List.pairwise_append.mp (List.pairwise_append.mp htimes').1).2.2
        exact hpast t ht c.time (by simp [hcall])
      cases before with
      | nil =>
          rw [List.append_nil]
          exact h
      | cons first before =>
          obtain ⟨rfl, hrest'⟩ := List.cons_eq_cons.mp hsplit
          have hagrees := ih (h.next hstep hlater) hrest htimes' hrest'
          rw [List.append_assoc] at hagrees
          exact hagrees

/-- For every sequence of raw events and expiries: the pipeline does not panic, and if the
times of its calls strictly increase, then after every step a peer is visible exactly as the
browser has it stored, unless an expiry removed it since it was last resolved. Without an
expiry the two maps are equal. -/
theorem pipeline_agrees (inputs : List PipelineInput) :
    ∃ steps, start.run inputs = .ok steps ∧ steps.map PipelineStep.input = inputs ∧
      ((callTimes steps).Pairwise (· < ·) → ∀ before after, steps = before ++ after →
        (∀ key, ExpiredSince before key → (start.stateAfter before).lifecycle.get key = none) ∧
        (∀ key, ¬ ExpiredSince before key → (start.stateAfter before).lifecycle.get key =
          (start.stateAfter before).browser.peers[key]?) ∧
        ((∀ step ∈ before, ∀ now staleAfter, step.input ≠ .expire now staleAfter) →
          (start.stateAfter before).lifecycle.visibleMap =
            (start.stateAfter before).browser.peers)) := by
  obtain ⟨steps, hrun, hinputs⟩ := run_ok (p := start) recordsSound_new inputs
  refine ⟨steps, hrun, hinputs, ?_⟩
  intro htimes before after hsplit
  have hagrees : Agrees ([] ++ before) (start.stateAfter before) :=
    agrees_start.run hrun htimes hsplit
  rw [List.nil_append] at hagrees
  refine ⟨?_, ?_, ?_⟩
  · intro key hexpired
    rw [get_eq_visibleMap]
    exact hagrees.expired key hexpired
  · intro key hcurrent
    rw [get_eq_visibleMap]
    exact hagrees.current key hcurrent
  · intro hnone
    refine Std.ExtTreeMap.ext_getElem? fun key => hagrees.current key ?_
    intro hexpired
    obtain ⟨earlier, step, later, rfl, ⟨⟨now, staleAfter, heq⟩, -⟩, -⟩ := hexpired
    exact hnone step (by simp) now staleAfter heq

/-- A device that is resolved, goes stale, and is resolved again. -/
theorem pipeline_agrees_desk : ∃ steps,
    start.run [.raw (.resolved BrowserState.desk) 1, .expire 20 5,
      .raw (.resolved BrowserState.desk) 30] = .ok steps ∧
      ∀ key, ¬ ExpiredSince steps key → (start.stateAfter steps).lifecycle.get key =
        (start.stateAfter steps).browser.peers[key]? := by
  obtain ⟨steps, hrun, -, hagrees⟩ := pipeline_agrees
    [.raw (.resolved BrowserState.desk) 1, .expire 20 5,
      .raw (.resolved BrowserState.desk) 30]
  have htimes : (callTimes steps).Pairwise (· < ·) := by
    refine List.Pairwise.sublist (callTimes_sublist recordsSound_new hrun) ?_
    decide
  exact ⟨steps, hrun, (hagrees htimes steps [] (List.append_nil steps).symm).2.1⟩

end Pipeline

end LocalTransfer
