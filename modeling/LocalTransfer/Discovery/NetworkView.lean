import LocalTransfer.Discovery.PassReport
import LocalTransfer.Discovery.Pipeline

/-!
# What a report says of the network

A pass refines the pipeline: each poll that finds something is a raw event, each sweep an
expiry. With a clock that moves between its calls, the devices of a report are the peers that
the polls have told of, but for those that a sweep has removed since (`report_lists_network`).
-/

namespace LocalTransfer

open Lib DiscoveredPeerState

/-! ## Passes and pipelines -/

namespace Surroundings

/-- What the first polls have found. -/
def arrived (world : Surroundings) (polls : Nat) : List RawBrowserEvent :=
  (List.range polls).filterMap world.backend

/-- A clock that moves between a sweep and the next call, and between a call and the next
sweep. -/
def Ticks (world : Surroundings) : Prop :=
  ∀ n, world.after n < world.before n ∧ world.before n < world.after (n + 1)

theorem arrived_succ (world : Surroundings) (polls : Nat) :
    world.arrived (polls + 1) = world.arrived polls ++ (world.backend polls).toList := by
  rw [arrived, List.range_succ, List.filterMap_append, ← arrived]
  cases hbackend : world.backend polls <;> simp [hbackend]

end Surroundings

/-- The raw event of an input. -/
def PipelineInput.event : PipelineInput → Option RawBrowserEvent
  | .raw event _ => some event
  | .expire _ _ => none

/-- The time of an expiry, its window and what it reports. -/
abbrev Expiry := Duration × Duration × List DiscoveredPeerTransition

def PipelineInput.expiry (transitions : List DiscoveredPeerTransition) :
    PipelineInput → Option Expiry
  | .raw _ _ => none
  | .expire now staleAfter => some (now, staleAfter, transitions)

def PipelineStep.expiry (step : PipelineStep) : Option Expiry :=
  step.input.expiry step.transitions

def Happening.expiry : Happening → Option Expiry
  | .swept sweep => some (sweep.now, sweep.staleAfter, sweep.transitions)
  | .took _ _ _ | .gaveUp _ | .stopped _ | .wrote _ => none

namespace Pipeline

variable {p : Pipeline} {event : DiscoveryBrowserEvent} {raw : RawBrowserEvent}
  {browser : BrowserState} {now staleAfter : Duration} {t : DiscoveredPeerTransition}
  {ts : List DiscoveredPeerTransition} {s : DiscoveredPeerState} {inputs : List PipelineInput}
  {input : PipelineInput} {steps history : List PipelineStep} {step : PipelineStep}

theorem step_took (htranslate : p.browser.translate raw = (some event, browser))
    (happly : p.lifecycle.apply pruneTombstones event now = .ok (t, s)) :
    p.step (.raw raw now) =
      .ok ⟨.raw raw now, some (.apply event now), [t], ⟨browser, s⟩⟩ := by
  simp only [Pipeline.step, callOf, htranslate, Option.map_some, DiscoveredPeerState.call, happly,
    bind, Except.bind]

theorem step_silent (htranslate : p.browser.translate raw = (none, browser)) :
    p.step (.raw raw now) = .ok ⟨.raw raw now, none, [], ⟨browser, p.lifecycle⟩⟩ := by
  simp only [Pipeline.step, callOf, htranslate, Option.map_none]

theorem step_expired (hexpire : p.lifecycle.expire pruneTombstones now staleAfter = .ok (ts, s)) :
    p.step (.expire now staleAfter) =
      .ok ⟨.expire now staleAfter, some (.expire now staleAfter), ts, ⟨p.browser, s⟩⟩ := by
  simp only [Pipeline.step, callOf, DiscoveredPeerState.call, hexpire, bind, Except.bind]

theorem stateAfter_concat : p.stateAfter (steps ++ [step]) = step.after := by
  rw [stateAfter, List.foldl_append]
  rfl

theorem run_concat (hrun : p.run inputs = .ok steps)
    (hstep : (p.stateAfter steps).step input = .ok step) :
    p.run (inputs ++ [input]) = .ok (steps ++ [step]) := by
  induction inputs generalizing p steps with
  | nil =>
      cases hrun
      have hstep : p.step input = .ok step := hstep
      simp only [List.nil_append, Pipeline.run, hstep, bind, Except.bind]
  | cons first inputs ih =>
      simp only [Pipeline.run, bind, Except.bind] at hrun
      split at hrun
      · cases hrun
      · next one hone =>
          split at hrun
          · cases hrun
          · next rest hrest =>
              cases hrun
              have ih := ih hrest hstep
              simp only [List.cons_append, Pipeline.run, bind, Except.bind, hone, ih]

end Pipeline

/-! ## One call at a time -/

/-- A history whose calls come one after the other, all of them before a time. -/
structure Ordered (now : Duration) (history : List PipelineStep) : Prop where
  increasing : (callTimes history).Pairwise (· < ·)
  past : ∀ t ∈ callTimes history, t < now

theorem Ordered.mono {now later : Duration} {history : List PipelineStep}
    (h : Ordered now history) (hle : now ≤ later) : Ordered later history :=
  ⟨h.increasing, fun t ht => lt_of_lt_of_le (h.past t ht) hle⟩

/-- A step whose call, if it makes one, is made at that time, and then a later one. -/
theorem Ordered.concat {now later : Duration} {history : List PipelineStep} {step : PipelineStep}
    (h : Ordered now history) (htime : ∀ c, step.call = some c → c.time = now ∧ now < later)
    (hle : now ≤ later) : Ordered later (history ++ [step]) := by
  have hmem : ∀ t ∈ (step.call.map LifecycleCall.time).toList, t = now ∧ now < later := by
    intro t ht
    obtain ⟨c, hc, rfl⟩ := Option.map_eq_some_iff.mp (Option.mem_toList.mp ht)
    exact htime c hc
  refine ⟨?_, ?_⟩
  · rw [callTimes_concat, List.pairwise_append]
    refine ⟨h.increasing, ?_, ?_⟩
    · cases step.call <;> simp
    · intro t ht t' ht'
      rw [(hmem t' ht').1]
      exact h.past t ht
  · intro t ht
    rw [callTimes_concat] at ht
    rcases List.mem_append.mp ht with ht | ht
    · exact lt_of_lt_of_le (h.past t ht) hle
    · obtain ⟨rfl, hlt⟩ := hmem t ht
      exact hlt

/-- What an active browser makes of a poll. -/
theorem DiscoveryBrowser.pollEvent_some {browser : DiscoveryBrowser} {raw : RawBrowserEvent}
    (hactive : browser.active = true) : browser.pollEvent (some raw) =
      ((browser.state.translate raw).1,
        { browser with state := (browser.state.translate raw).2 }) := by
  rw [DiscoveryBrowser.pollEvent, if_neg (not_not.mpr hactive)]

theorem DiscoveryBrowser.pollEvent_none (browser : DiscoveryBrowser) :
    browser.pollEvent none = (none, browser) := by
  rw [DiscoveryBrowser.pollEvent]
  split <;> rfl

theorem DiscoveryBrowser.stop_state (self : DiscoveryBrowser)
    (stopped : Except DiscoveryBrowserError Unit) : (self.stop stopped).2.state = self.state := by
  unfold stop
  split
  · rfl
  · cases stopped <;> rfl

namespace Pass

variable {world : Surroundings} {self next : Pass} {now later : Duration}
  {history : List PipelineStep}

/-- The two stores of a session. -/
def pipeline (self : Pass) : Pipeline := ⟨self.session.browser.state, self.session.state⟩

/-- A run of the pipeline that a pass refines: its raw events are what the pass has polled, its
expiries are the sweeps of the pass, and it has reached the stores of the session. -/
structure Refines (world : Surroundings) (pass : Pass) (history : List PipelineStep) :
    Prop where
  run : Pipeline.start.run (history.map PipelineStep.input) = .ok history
  reached : Pipeline.start.stateAfter history = pass.pipeline
  polled : history.filterMap (fun step => step.input.event) = world.arrived pass.polls
  swept : history.filterMap PipelineStep.expiry = pass.happened.filterMap Happening.expiry

/-- A pass refines a run whose calls were made before a time. -/
def Follows (world : Surroundings) (now : Duration) (self : Pass) : Prop :=
  ∃ history, self.Refines world history ∧ Ordered now history

theorem Follows.mono (h : self.Follows world now) (hle : now ≤ later) :
    self.Follows world later := by
  obtain ⟨history, hrefines, hordered⟩ := h
  exact ⟨history, hrefines, hordered.mono hle⟩

theorem follows_start (world : Surroundings) (deadline now : Duration) :
    (Pass.start deadline).Follows world now := by
  refine ⟨[], ⟨rfl, rfl, rfl, rfl⟩, .nil, ?_⟩
  intro t ht
  cases ht

/-- A pass that makes one more step of the pipeline. -/
theorem Follows.step {input : PipelineInput} {call : Option LifecycleCall}
    {ts : List DiscoveredPeerTransition} (h : self.Follows world now)
    (hstep : self.pipeline.step input = .ok ⟨input, call, ts, next.pipeline⟩)
    (hpolled : world.arrived next.polls = world.arrived self.polls ++ input.event.toList)
    (hswept : next.happened.filterMap Happening.expiry =
      self.happened.filterMap Happening.expiry ++ (input.expiry ts).toList)
    (htime : ∀ c, call = some c → c.time = now ∧ now < later) (hle : now ≤ later) :
    next.Follows world later := by
  obtain ⟨history, hrefines, hordered⟩ := h
  refine ⟨history ++ [⟨input, call, ts, next.pipeline⟩], ⟨?_, ?_, ?_, ?_⟩,
    hordered.concat htime hle⟩
  · rw [List.map_append]
    exact Pipeline.run_concat hrefines.run (hrefines.reached ▸ hstep)
  · exact Pipeline.stateAfter_concat
  · rw [List.filterMap_append, hrefines.polled, hpolled]
    cases hevent : input.event <;> simp [hevent]
  · rw [List.filterMap_append, hrefines.swept, hswept]
    cases hexpiry : input.expiry ts <;> simp [PipelineStep.expiry, hexpiry]

variable {event : DiscoveryBrowserEvent} {browser : DiscoveryBrowser}
  {s : DiscoveredPeerState}

/-- A poll whose event is applied. -/
theorem Follows.took {t : DiscoveredPeerTransition} {takenAt : Duration}
    (h : self.Follows world now) (hactive : self.session.browser.active = true)
    (hpoll : self.session.browser.pollEvent (world.backend self.polls) = (some event, browser))
    (happly : self.session.state.apply .pruneTombstones event now = .ok (t, s))
    (hlt : now < later) :
    (((self.advance browser).become s).record (.took event now takenAt)).Follows world later := by
  cases hbackend : world.backend self.polls with
  | none =>
      rw [hbackend, DiscoveryBrowser.pollEvent_none] at hpoll
      cases hpoll
  | some raw =>
      rw [hbackend, DiscoveryBrowser.pollEvent_some hactive] at hpoll
      obtain ⟨hevent, rfl⟩ := Prod.mk.inj hpoll
      have htranslate : self.pipeline.browser.translate raw =
          (some event, (self.session.browser.state.translate raw).2) := Prod.ext hevent rfl
      refine h.step (Pipeline.step_took htranslate happly) ?_ ?_ ?_ hlt.le
      · rw [show ((self.advance _).become s |>.record _).polls = self.polls + 1 from rfl,
          world.arrived_succ, hbackend]
        rfl
      · exact List.filterMap_append ..
      · intro c hc
        cases hc
        exact ⟨rfl, hlt⟩

/-- A poll without an event. -/
theorem Follows.quiet (h : self.Follows world now) (hactive : self.session.browser.active = true)
    (hpoll : self.session.browser.pollEvent (world.backend self.polls) = (none, browser)) :
    (self.advance browser).Follows world now := by
  have hpolls : (self.advance browser).polls = self.polls + 1 := rfl
  cases hbackend : world.backend self.polls with
  | none =>
      rw [hbackend, DiscoveryBrowser.pollEvent_none] at hpoll
      obtain ⟨-, rfl⟩ := Prod.mk.inj hpoll
      obtain ⟨history, hrefines, hordered⟩ := h
      refine ⟨history, ⟨hrefines.run, hrefines.reached, ?_, hrefines.swept⟩, hordered⟩
      rw [hrefines.polled, hpolls, world.arrived_succ, hbackend]
      exact (List.append_nil _).symm
  | some raw =>
      rw [hbackend, DiscoveryBrowser.pollEvent_some hactive] at hpoll
      obtain ⟨hevent, rfl⟩ := Prod.mk.inj hpoll
      have htranslate : self.pipeline.browser.translate raw =
          (none, (self.session.browser.state.translate raw).2) := Prod.ext hevent rfl
      have hsilent : self.pipeline.step (.raw raw now) = _ := Pipeline.step_silent htranslate
      refine h.step hsilent ?_ ?_ ?_ le_rfl
      · rw [hpolls, world.arrived_succ, hbackend]
        rfl
      · exact (List.append_nil _).symm
      · intro c hc
        cases hc

/-- A sweep. -/
theorem Follows.expire {args : DiscoverArgs} {events events' : List DiscoveredPeerTransition}
    (h : self.Follows world now) (hexpire : self.expire args now events = (.ok events', next))
    (hlt : now < later) : next.Follows world later := by
  rw [Pass.expire] at hexpire
  split at hexpire
  · cases hexpire
    exact h.mono hlt.le
  · next window hwindow =>
      split at hexpire
      · cases hexpire
      · next ts s hcall =>
          cases hexpire
          refine h.step (Pipeline.step_expired hcall) ?_ ?_ ?_ hlt.le
          · exact (List.append_nil _).symm
          · exact List.filterMap_append ..
          · intro c hc
            cases hc
            exact ⟨rfl, hlt⟩

/-! ## A whole pass -/

/-- A call of `next_transition` that returns. -/
theorem nextTransition_follows (hticks : world.Ticks) {fuel : Nat}
    {answer : Option DiscoveredPeerTransition} (h : self.Follows world now)
    (hactive : self.session.browser.active = true) (hnow : now ≤ world.before self.polls)
    (hcall : self.nextTransition world now fuel = (.ok answer, next)) :
    next.Follows world (world.after next.polls) ∧ next.session.browser.active = true := by
  induction fuel generalizing self with
  | zero => cases hcall
  | succ fuel ih =>
      have hlt : now < world.after (self.polls + 1) := lt_of_le_of_lt hnow (hticks self.polls).2
      cases hpoll : self.session.browser.pollEvent (world.backend self.polls) with
      | mk event browser =>
        have hactive' : browser.active = true := by
          have hsame := self.session.browser.pollEvent_active (world.backend self.polls)
          rw [hpoll] at hsame
          exact hsame.trans hactive
        cases event with
        | some event =>
            cases happly : self.session.state.apply .pruneTombstones event now with
            | error reason =>
                simp only [nextTransition, hpoll, happly] at hcall
                cases hcall
            | ok applied =>
                obtain ⟨t, s⟩ := applied
                rw [nextTransition_took hpoll happly] at hcall
                cases hcall
                exact ⟨h.took hactive hpoll happly hlt, hactive'⟩
        | none =>
            have hquiet := h.quiet hactive hpoll
            by_cases hover : world.cancelledAfter (self.polls + 1) ∨
                self.session.deadline ≤ world.after (self.polls + 1)
            · rw [nextTransition_gaveUp hpoll hover] at hcall
              cases hcall
              obtain ⟨history, hrefines, hordered⟩ := hquiet.mono hlt.le
              refine ⟨⟨history, ⟨hrefines.run, hrefines.reached, hrefines.polled, ?_⟩, hordered⟩,
                hactive'⟩
              rw [hrefines.swept]
              exact ((List.filterMap_append ..).trans (List.append_nil _)).symm
            · rw [nextTransition_waited hpoll hover] at hcall
              exact ih hquiet hactive' (hlt.le.trans (hticks (self.polls + 1)).1.le) hcall

theorem expire_keeps {args : DiscoverArgs} {events events' : List DiscoveredPeerTransition}
    (hexpire : self.expire args now events = (.ok events', next)) :
    next.polls = self.polls ∧ next.session.browser = self.session.browser := by
  rw [Pass.expire] at hexpire
  split at hexpire
  · cases hexpire
    exact ⟨rfl, rfl⟩
  · split at hexpire
    · cases hexpire
    · cases hexpire
      exact ⟨rfl, rfl⟩

/-- The loop, if it returns. -/
theorem watch_follows (hticks : world.Ticks) {args : DiscoverArgs} {fuel : Nat}
    {events events' : List DiscoveredPeerTransition} (h : self.Follows world now)
    (hactive : self.session.browser.active = true) (hnow : now ≤ world.before self.polls)
    (hwatch : self.watch world args fuel events = (.ok events', next)) :
    next.Follows world (world.before next.polls) := by
  induction fuel generalizing self events now with
  | zero => cases hwatch
  | succ fuel ih =>
      rw [watch] at hwatch
      split at hwatch
      · cases hwatch
        exact h.mono hnow
      · cases hcall : self.nextTransition world (world.before self.polls) (fuel + 1) with
        | mk answer called =>
          rw [hcall] at hwatch
          rcases answer with halt | t | t
          · cases hwatch
          · cases hwatch
            obtain ⟨hfollows, -⟩ :=
              nextTransition_follows hticks (h.mono hnow) hactive le_rfl hcall
            exact hfollows.mono (hticks _).1.le
          · obtain ⟨hfollows, hactive'⟩ :=
              nextTransition_follows hticks (h.mono hnow) hactive le_rfl hcall
            dsimp only at hwatch
            cases hsweep : called.expire args (world.after called.polls) (events ++ [t]) with
            | mk answer last =>
              rw [hsweep] at hwatch
              cases answer with
              | error halt => cases hwatch
              | ok rest =>
                  obtain ⟨hpolls, hbrowser⟩ := expire_keeps hsweep
                  have hlast := hfollows.expire hsweep (hticks called.polls).1
                  rw [← hpolls] at hlast
                  exact ih hlast (hbrowser ▸ hactive') le_rfl hwatch

/-- The last sweep, the stop and the report. -/
theorem conclude_follows {args : DiscoverArgs} {events : List DiscoveredPeerTransition}
    {outcome : Except DiscoveryCliError Unit} (h : self.Follows world now) (hlt : now < later)
    (hnow : now = world.before self.polls)
    (hconclude : self.conclude world args events = (.ok outcome, next)) :
    next.Follows world later := by
  subst hnow
  rw [conclude] at hconclude
  cases hsweep : self.expire args (world.before self.polls) events with
  | mk answer last =>
    rw [hsweep] at hconclude
    cases answer with
    | error halt => cases hconclude
    | ok rest =>
        obtain ⟨history, hrefines, hordered⟩ := h.expire hsweep hlt
        have hended : ∀ result report, Follows world later
            (({ last with session := { last.session with
              browser := (last.session.browser.stop world.stop).2 } } : Pass).record
                (.stopped result) |>.record (.wrote report)) := by
          intro result report
          refine ⟨history, ⟨hrefines.run, ?_, hrefines.polled, ?_⟩, hordered⟩
          · rw [hrefines.reached, pipeline, ← last.session.browser.stop_state world.stop]
            rfl
          · rw [hrefines.swept]
            have hquiet : ∀ happened : List Happening,
                (happened ++ [Happening.stopped result] ++ [Happening.wrote report]).filterMap
                  Happening.expiry = happened.filterMap Happening.expiry := by
              intro happened
              rw [List.filterMap_append, List.filterMap_append]
              exact (List.append_nil _).trans (List.append_nil _)
            exact (hquiet _).symm
        dsimp only at hconclude
        split at hconclude
        · cases hconclude
          exact hended _ _
        · cases hconclude
          exact hended _ _

theorem observe_follows (hticks : world.Ticks) {args : DiscoverArgs} {fuel : Nat}
    {deadline : Duration} {outcome : Except DiscoveryCliError Unit}
    (hobserve : (Pass.start deadline).observe world args fuel = (.ok outcome, next)) :
    ∃ later, next.Follows world later := by
  rw [observe] at hobserve
  cases hwatch : (Pass.start deadline).watch world args fuel [] with
  | mk answer last =>
    rw [hwatch] at hobserve
    cases answer with
    | error halt => cases hobserve
    | ok events =>
        have hstart := follows_start world deadline (world.before 0)
        have hlast := watch_follows hticks hstart rfl le_rfl hwatch
        exact ⟨_, conclude_follows hlast (hticks last.polls).2 rfl hobserve⟩

end Pass

/-! ## What the network says -/

namespace Pipeline

variable {p : Pipeline} {input : PipelineInput} {step : PipelineStep}

theorem step_browser (hstep : p.step input = .ok step) :
    step.after.browser = (p.browser.translateAll input.event.toList).2 := by
  have hcalled : step.after.browser = (p.callOf input).2 := by
    rw [Pipeline.step] at hstep
    generalize p.callOf input = called at hstep ⊢
    obtain ⟨made, browser⟩ := called
    cases made with
    | none =>
        cases hstep
        rfl
    | some c =>
        simp only [bind, Except.bind] at hstep
        split at hstep
        · cases hstep
        · cases hstep
          rfl
  rw [hcalled]
  cases input with
  | raw event observedAt => rfl
  | expire now staleAfter => rfl

/-- A run leaves the browser that its raw events make. -/
theorem run_browser {inputs : List PipelineInput} {steps : List PipelineStep}
    (hrun : p.run inputs = .ok steps) :
    (p.stateAfter steps).browser =
      (p.browser.translateAll (inputs.filterMap PipelineInput.event)).2 := by
  induction inputs generalizing p steps with
  | nil =>
      cases hrun
      rfl
  | cons input inputs ih =>
      simp only [Pipeline.run, bind, Except.bind] at hrun
      split at hrun
      · cases hrun
      · next step hstep =>
          split at hrun
          · cases hrun
          · next rest hrest =>
              cases hrun
              have hlast := ih hrest
              rw [step_browser hstep] at hlast
              refine hlast.trans ?_
              rw [List.filterMap_cons]
              cases input.event <;> rfl

end Pipeline

/-- The devices of a report are the peers that the network has told of, but for those that were
swept out since, each once: the pass is a run of the pipeline, whose history says which these
are. -/
structure ListsNetwork (world : Surroundings) (pass : Pass) (report : Report) : Prop where
  distinct : StrictlyOrdered DiscoveredPeer.key report.devices
  view : ∃ history, pass.Refines world history ∧
    ∀ peer, peer ∈ report.devices ↔
      (BrowserState.default.translateAll (world.arrived pass.polls)).2.peers[peer.key]? =
        some peer ∧ ¬ ExpiredSince history peer.key

theorem Pass.Follows.lists {world : Surroundings} {pass : Pass} {now : Duration}
    (h : pass.Follows world now) (showEvents : Option (List DiscoveredPeerTransition)) :
    ListsNetwork world pass ⟨showEvents, pass.session.snapshot⟩ := by
  obtain ⟨history, hrefines, hordered⟩ := h
  have hagrees : Pipeline.Agrees history (Pipeline.start.stateAfter history) :=
    Pipeline.agrees_start.run hrefines.run hordered.increasing (List.append_nil history).symm
  have hbrowser := Pipeline.run_browser hrefines.run
  rw [hrefines.reached] at hagrees hbrowser
  rw [List.filterMap_map] at hbrowser
  have hnetwork : pass.session.browser.state =
      (BrowserState.default.translateAll (world.arrived pass.polls)).2 := by
    rw [← hrefines.polled]
    exact hbrowser
  have hwell : BrowserState.WellFormed pass.session.browser.state := by
    rw [hnetwork]
    exact BrowserState.wellFormed_default.translateAll _
  -- what is visible has not expired, and so is what the browser stores under its key
  have hvisible : ∀ (key : TransientDiscoveryKey) peer,
      pass.session.state.visibleMap[key]? = some peer →
      peer.key = key ∧ pass.session.browser.state.peers[key]? = some peer ∧
        ¬ ExpiredSince history key := by
    intro key peer hpeer
    have hcurrent : ¬ ExpiredSince history key := by
      intro hexpired
      have hnone : pass.session.state.visibleMap[key]? = none := hagrees.expired key hexpired
      rw [hnone] at hpeer
      cases hpeer
    have hstored : pass.session.browser.state.peers[key]? = some peer :=
      (hagrees.current key hcurrent).symm.trans hpeer
    exact ⟨(hwell key peer hstored).key, hstored, hcurrent⟩
  refine ⟨?_, history, hrefines, ?_⟩
  · have hkeyed : Keyed pass.session.state.visibleMap :=
      fun key peer hpeer => (hvisible key peer hpeer).1
    apply strictlyOrdered_sortByKey
    rw [iter_eq_visibleMap, hkeyed.map_key]
    exact nodup_keys _
  intro peer
  have hmem : peer ∈ pass.session.snapshot ↔
      ∃ key : TransientDiscoveryKey, pass.session.state.visibleMap[key]? = some peer := by
    rw [BrowserSession.snapshot, mem_sortByKey, iter_eq_visibleMap, List.mem_map]
    constructor
    · rintro ⟨⟨key, peer⟩, hentry, rfl⟩
      exact ⟨key, Std.ExtTreeMap.mem_toList_iff_getElem?_eq_some.mp hentry⟩
    · rintro ⟨key, hpeer⟩
      exact ⟨(key, peer), Std.ExtTreeMap.mem_toList_iff_getElem?_eq_some.mpr hpeer, rfl⟩
  rw [hmem, ← hnetwork]
  constructor
  · rintro ⟨key, hpeer⟩
    obtain ⟨rfl, hstored, hcurrent⟩ := hvisible key peer hpeer
    exact ⟨hstored, hcurrent⟩
  · rintro ⟨hstored, hcurrent⟩
    exact ⟨peer.key, (hagrees.current peer.key hcurrent).trans hstored⟩

/-- The report of a pass is printed of what a run of the pipeline has reached. -/
theorem Pass.reported {world : Surroundings} (hticks : world.Ticks) {accepts : Nat → Bool}
    {args : DiscoverArgs} {fuel : Nat} {deadline : Duration} {report : Report}
    (hwrote : .wrote report ∈
      ((Pass.start deadline).observe (world.printing accepts) args fuel).2.happened) :
    ∃ later showEvents,
      ((Pass.start deadline).observe (world.printing accepts) args fuel).2.Follows
        (world.printing accepts) later ∧
      report = ⟨showEvents,
        ((Pass.start deadline).observe (world.printing accepts) args fuel).2.session.snapshot⟩ := by
  rcases Pass.observe_concluded world accepts args fuel (Pass.watching_start deadline) with
    ⟨-, hopen⟩ | ⟨outcome, hok, hconcluded⟩
  · cases hopen _ hwrote
  · obtain ⟨events, -, rfl⟩ := hconcluded.report_eq hwrote
    have hworld : (world.printing accepts).Ticks := hticks
    obtain ⟨later, hfollows⟩ := Pass.observe_follows hworld (Prod.ext hok rfl)
    exact ⟨later, _, hfollows, rfl⟩

/-- With a clock that moves between the calls, the devices of a report are the peers that the
polls have told of, but for those that a sweep of the pass has removed since, one for each
key. -/
theorem report_lists_network (world : Surroundings) (hticks : world.Ticks)
    (accepts : Nat → Bool) (args : DiscoverArgs) (fuel : Nat) (deadline : Duration)
    (report : Report)
    (hwrote : .wrote report ∈
      ((Pass.start deadline).observe (world.printing accepts) args fuel).2.happened) :
    ListsNetwork (world.printing accepts)
      ((Pass.start deadline).observe (world.printing accepts) args fuel).2 report := by
  obtain ⟨later, showEvents, hfollows, rfl⟩ := Pass.reported hticks hwrote
  exact hfollows.lists showEvents

/-- A device that is found, by a user who cancels after that. -/
def foundOnce (resolved : RawResolvedService) : Surroundings where
  before n := 2 * n + 1
  polled n := 2 * n + 1
  after n := 2 * n
  ordered _ := ⟨Nat.le_succ _, le_rfl, Nat.le_succ _⟩
  backend _ := some (.resolved resolved)
  cancelledBefore n := n == 1
  cancelledAfter _ := false
  stop := .ok ()
  write _ := .ok ()

theorem ticks_foundOnce (resolved : RawResolvedService) : (foundOnce resolved).Ticks :=
  fun _ => ⟨Nat.lt_succ_self _, Nat.lt_succ_self _⟩

/-- The device is listed. -/
theorem report_lists_network_desk : ∃ report,
    .wrote report ∈ ((Pass.start 100).observe ((foundOnce BrowserState.desk).printing
      fun _ => true) ⟨false, some 1⟩ 2).2.happened ∧
    ListsNetwork ((foundOnce BrowserState.desk).printing fun _ => true) ((Pass.start 100).observe
      ((foundOnce BrowserState.desk).printing fun _ => true) ⟨false, some 1⟩ 2).2 report := by
  have hends : ((Pass.start 100).observe ((foundOnce BrowserState.desk).printing fun _ => true)
      ⟨false, some 1⟩ 2).1.toOption.isSome = true := by decide +kernel
  obtain ⟨report, hmem⟩ := Pass.exists_report hends
  exact ⟨report, hmem, report_lists_network _ (ticks_foundOnce _) (fun _ => true)
    ⟨false, some 1⟩ 2 100 report hmem⟩

end LocalTransfer
