import LocalTransfer.Discovery.ReadReport
import LocalTransfer.Discovery.Sessions

/-!
# What a pass prints

A pass is a run of the lifecycle that ends with one stop and one report, whatever the network,
the clock, the user and the writer do (`pass_reports_once`). The transitions of the report account
for its devices (`RunSoFar`).
-/

namespace LocalTransfer

open Lib

/-! ## Printing -/

/-- What a writer does that accepts the `n`-th line or fails at it. -/
def OutputOp.sem : (o : OutputOp) → Bool → List Text → o.Result × List Text
  | .writeLine text, true, written => (.ok (), written ++ [text])
  | .writeLine _, false, written => (.error (), written)

namespace Report

def lines (self : Report) : List Text := reportOf self.events self.devices

/-- The result of printing a report, and the lines that were written. -/
def print (accepts : Nat → Bool) (self : Report) : Except DiscoveryCliError Unit × List Text :=
  (writeReport self.events.isSome ((self.events.getD []).map renderTransition)
    (self.devices.map DeviceCard.fromPeer)).run.exec OutputOp.sem accepts []

end Report

/-- A pass whose report goes to this writer. -/
def Surroundings.printing (world : Surroundings) (accepts : Nat → Bool) : Surroundings :=
  { world with write := fun report => (report.print accepts).1.mapError fun _ => () }

/-- What a writer has of the lines, by what is left to it. -/
def Written (lines : List Text) : Option (List Text) → List Text → Prop
  | some left, written => lines = written ++ left
  | none, written => ∃ line rest, lines = written ++ line :: rest

/-- Printing writes every line, or ends at the first that cannot be written. -/
theorem Report.print_spec (report : Report) (accepts : Nat → Bool) :
    (report.print accepts).1 = .ok () ∧ (report.print accepts).2 = report.lines ∨
      (report.print accepts).1 = .error .output ∧
        ∃ line rest, report.lines = (report.print accepts).2 ++ line :: rest := by
  have hputs := writeReport_puts report.events.isSome
    ((report.events.getD []).map renderTransition) (report.devices.map DeviceCard.fromPeer) []
  rw [List.append_nil] at hputs
  have hsem : ∀ o a written left left', Written report.lines left written →
      lineWriter.next left o (o.sem a written).1 = some left' →
      Written report.lines left' (o.sem a written).2 := by
    intro o a written left left' h hnext
    obtain ⟨text⟩ := o
    rcases left with _ | _ | ⟨line, rest⟩
    · cases hnext
    · cases hnext
    · simp only [lineWriter] at hnext
      split at hnext
      · next hline =>
          subst hline
          rw [Option.some.injEq] at hnext
          subst hnext
          cases a with
          | true =>
              show report.lines = (written ++ [text]) ++ rest
              rw [List.append_assoc]
              exact h
          | false => exact ⟨text, rest, h⟩
      · cases hnext
  have hstart : Written report.lines (some report.lines) [] := rfl
  obtain ⟨left, hwritten, hput⟩ := hputs.run_exec hsem accepts hstart
  rw [Report.print]
  generalize (writeReport report.events.isSome ((report.events.getD []).map renderTransition)
    (report.devices.map DeviceCard.fromPeer)).run.exec OutputOp.sem accepts [] = printed
    at hwritten hput
  obtain ⟨result, written⟩ := printed
  cases result with
  | ok _ =>
      cases hput
      rw [Written, List.append_nil] at hwritten
      exact .inl ⟨rfl, hwritten.symm⟩
  | error error =>
      obtain ⟨rfl, rfl⟩ := hput
      exact .inr ⟨rfl, hwritten⟩

/-! ## A pass as a run of the lifecycle -/

/-- The call of the lifecycle that a happening stands for. -/
def Happening.call : Happening → Option LifecycleCall
  | .took event stampedAt _ => some (.apply event stampedAt)
  | .swept sweep => some (.expire sweep.now sweep.staleAfter)
  | .gaveUp _ | .stopped _ | .wrote _ => none

/-- Whether it belongs to the end of a pass. -/
def Happening.isEnd : Happening → Bool
  | .stopped _ | .wrote _ => true
  | .took _ _ _ | .gaveUp _ | .swept _ => false

/-- The calls of a pass so far. -/
def calls (happened : List Happening) : List LifecycleCall := happened.filterMap Happening.call

/-- What a pass has done is a run of its calls, and `events` is what the run has returned. -/
structure RunSoFar (happened : List Happening) (state : DiscoveredPeerState)
    (events : List DiscoveredPeerTransition) : Prop where
  run : ∃ steps, DiscoveredPeerState.new.run .pruneTombstones (calls happened) = .ok steps ∧
    steps.flatMap LifecycleStep.transitions = events ∧
    DiscoveredPeerState.new.stateAfter steps = state
  counted : state.Counted
  open_ : ∀ happening ∈ happened, happening.isEnd = false

theorem DiscoveredPeerState.run_concat {prune : Pruning} {s next : DiscoveredPeerState}
    {cs : List LifecycleCall} {c : LifecycleCall} {steps : List LifecycleStep}
    {ts : List DiscoveredPeerTransition} (hrun : s.run prune cs = .ok steps)
    (hcall : (s.stateAfter steps).call prune c = .ok (ts, next)) :
    s.run prune (cs ++ [c]) = .ok (steps ++ [⟨c, ts, next⟩]) := by
  induction cs generalizing s steps with
  | nil =>
      cases hrun
      simp only [List.nil_append, run, bind, Except.bind]
      rw [DiscoveredPeerState.stateAfter_nil] at hcall
      rw [hcall]
  | cons first cs ih =>
      simp only [run, bind, Except.bind] at hrun
      split at hrun
      · cases hrun
      · next called hfirst =>
          split at hrun
          · cases hrun
          · next rest hrest =>
              cases hrun
              have ih := ih hrest hcall
              simp only [List.cons_append, run, bind, Except.bind, hfirst, ih]

namespace RunSoFar

variable {happened : List Happening} {state next : DiscoveredPeerState}
  {events ts : List DiscoveredPeerTransition} {happening : Happening}

theorem start : RunSoFar [] .new [] := by
  refine ⟨⟨[], rfl, rfl, rfl⟩, DiscoveredPeerState.counted_new, ?_⟩
  intro happening h
  cases h

/-- A happening that calls the lifecycle adds its call to the run. -/
theorem call {c : LifecycleCall} (h : RunSoFar happened state events)
    (hhappening : happening.call = some c) (hnext : next.Counted)
    (hcall : state.call .pruneTombstones c = .ok (ts, next)) :
    RunSoFar (happened ++ [happening]) next (events ++ ts) := by
  obtain ⟨⟨steps, hrun, hevents, hstate⟩, -, hopen⟩ := h
  refine ⟨⟨steps ++ [⟨c, ts, next⟩], ?_, ?_, ?_⟩, hnext, ?_⟩
  · have hcalls : calls (happened ++ [happening]) = calls happened ++ [c] := by
      rw [calls, List.filterMap_append, List.filterMap_cons_some hhappening]
      rfl
    rw [hcalls]
    exact DiscoveredPeerState.run_concat hrun (hstate ▸ hcall)
  · rw [List.flatMap_append, hevents]
    simp
  · exact DiscoveredPeerState.stateAfter_concat _ _
  · intro other hother
    rcases List.mem_append.mp hother with hother | hother
    · exact hopen other hother
    · rw [List.mem_singleton.mp hother]
      cases happening <;> first | rfl | cases hhappening

theorem gaveUp (h : RunSoFar happened state events) (checkedAt : Duration) :
    RunSoFar (happened ++ [.gaveUp checkedAt]) state events := by
  obtain ⟨hrun, hcounted, hopen⟩ := h
  have hcalls : calls (happened ++ [.gaveUp checkedAt]) = calls happened := by
    rw [calls, List.filterMap_append]
    exact List.append_nil _
  refine ⟨by rwa [hcalls], hcounted, ?_⟩
  intro other hother
  rcases List.mem_append.mp hother with hother | hother
  · exact hopen other hother
  · rw [List.mem_singleton.mp hother]
    rfl

end RunSoFar

namespace Pass

variable {self : Pass} {events : List DiscoveredPeerTransition}

/-- A pass that has not ended: what it did is a run, and its session is active. -/
structure Watching (pass : Pass) (events : List DiscoveredPeerTransition) : Prop where
  runs : RunSoFar pass.happened pass.session.state events
  active : pass.session.browser.active = true

/-- A part of the loop runs out of fuel, or returns with these transitions added; it never
panics. -/
def Goes {α : Type} (events : List DiscoveredPeerTransition)
    (added : α → List DiscoveredPeerTransition) : Except Halt α × Pass → Prop
  | (.error .outOfFuel, pass) => ∃ events', pass.Watching events'
  | (.error (.panic _), _) => False
  | (.ok answer, pass) => pass.Watching (events ++ added answer)

theorem nextTransition_goes (world : Surroundings) (now : Duration) (fuel : Nat)
    (h : self.Watching events) :
    Goes events Option.toList (self.nextTransition world now fuel) := by
  induction fuel generalizing self with
  | zero => exact ⟨events, h⟩
  | succ fuel ih =>
      cases hpoll : self.session.browser.pollEvent (world.backend self.polls) with
      | mk event browser =>
        have hactive : browser.active = true := by
          have hsame := self.session.browser.pollEvent_active (world.backend self.polls)
          rw [hpoll] at hsame
          exact hsame.trans h.active
        cases event with
        | some event =>
            obtain ⟨t, s, happly, hs, -⟩ := DiscoveredPeerState.apply_truthful
              DiscoveredPeerState.pruneTombstones_safe h.runs.counted event now
            rw [nextTransition_took hpoll happly]
            refine ⟨h.runs.call rfl hs ?_, hactive⟩
            simp only [DiscoveredPeerState.call, happly, bind, Except.bind]
            rfl
        | none =>
            by_cases hover : world.cancelledAfter (self.polls + 1) ∨
                self.session.deadline ≤ world.after (self.polls + 1)
            · rw [nextTransition_gaveUp hpoll hover]
              show Watching _ (events ++ [])
              rw [List.append_nil]
              exact ⟨h.runs.gaveUp _, hactive⟩
            · rw [nextTransition_waited hpoll hover]
              exact ih ⟨h.runs, hactive⟩

/-- A sweep always returns. -/
theorem expire_watching (args : DiscoverArgs) (now : Duration) (h : self.Watching events) :
    ∃ events' last, self.expire args now events = (.ok events', last) ∧
      last.Watching events' := by
  rw [expire]
  split
  · exact ⟨events, self, rfl, h⟩
  · next window hwindow =>
      obtain ⟨ts, s, hexpire, hs, -⟩ := DiscoveredPeerState.expire_truthful
        DiscoveredPeerState.pruneTombstones_safe h.runs.counted now window
      rw [hexpire]
      exact ⟨_, _, rfl, h.runs.call rfl hs hexpire, h.active⟩

theorem watch_goes (world : Surroundings) (args : DiscoverArgs) (fuel : Nat)
    (h : self.Watching events) :
    Goes [] id (self.watch world args fuel events) := by
  induction fuel generalizing self events with
  | zero => exact ⟨events, h⟩
  | succ fuel ih =>
      rw [watch]
      split
      · exact h
      · have hcalled := nextTransition_goes world (world.before self.polls) (fuel + 1) h
        generalize self.nextTransition world (world.before self.polls) (fuel + 1) = called
          at hcalled
        obtain ⟨answer, next⟩ := called
        rcases answer with halt | t | t
        · cases halt with
          | outOfFuel => exact hcalled
          | panic reason => exact hcalled.elim
        · show Watching next ([] ++ events)
          have hnext : Watching next (events ++ []) := hcalled
          rwa [List.append_nil] at hnext
        · obtain ⟨events', last, hexpire, hlast⟩ :=
            expire_watching args (world.after next.polls) hcalled
          dsimp only
          rw [show events ++ [t] = events ++ (some t).toList from rfl, hexpire]
          exact ih hlast

end Pass

/-! ## The end of a pass -/

/-- The end of a pass: its session was stopped, and then its one report printed, of the
transitions its run has returned and the peers it has left. A line that cannot be written is
reported before a stop that failed. -/
structure Concluded (world : Surroundings) (accepts : Nat → Bool) (args : DiscoverArgs)
    (outcome : Except DiscoveryCliError Unit) (pass : Pass) : Prop where
  ended : ∃ earlier events report,
    pass.happened = earlier ++ [.stopped world.stop, .wrote report] ∧
    RunSoFar earlier pass.session.state events ∧
    report = ⟨if args.events then some events else none, pass.session.snapshot⟩ ∧
    ((report.print accepts).2 = report.lines ∧ outcome = world.stop.mapError .shutdown ∨
      (∃ line rest, report.lines = (report.print accepts).2 ++ line :: rest) ∧
        outcome = .error .output)
  active : pass.session.browser.active = !world.stop.isOk

/-- Stopping an active browser. -/
theorem DiscoveryBrowser.stop_spec {self : DiscoveryBrowser} (h : self.active = true)
    (stopped : Except DiscoveryBrowserError Unit) :
    (self.stop stopped).1 = stopped ∧ (self.stop stopped).2.active = !stopped.isOk := by
  simp only [DiscoveryBrowser.stop, h, not_true, if_false]
  cases stopped with
  | error error => exact ⟨rfl, h⟩
  | ok _ => exact ⟨rfl, rfl⟩

theorem Pass.conclude_concluded (world : Surroundings) (accepts : Nat → Bool)
    (args : DiscoverArgs) {self : Pass} {events : List DiscoveredPeerTransition}
    (h : self.Watching events) :
    ∃ outcome, (self.conclude (world.printing accepts) args events).1 = .ok outcome ∧
      Concluded world accepts args outcome
        (self.conclude (world.printing accepts) args events).2 := by
  obtain ⟨events', last, hexpire, hruns, hactive⟩ :=
    expire_watching args (world.before self.polls) h
  obtain ⟨hresult, hstopped⟩ := DiscoveryBrowser.stop_spec hactive world.stop
  have hexpire : self.expire args ((world.printing accepts).before self.polls) events =
    (.ok events', last) := hexpire
  rw [conclude, hexpire]
  dsimp only
  let report : Report := ⟨if args.events then some events' else none, last.session.snapshot⟩
  have hended : ∀ outcome,
      ((report.print accepts).2 = report.lines ∧ outcome = world.stop.mapError .shutdown ∨
        (∃ line rest, report.lines = (report.print accepts).2 ++ line :: rest) ∧
          outcome = .error .output) →
      Concluded world accepts args outcome
        (({ last with session := { last.session with
          browser := (last.session.browser.stop world.stop).2 } } : Pass).record
            (.stopped world.stop) |>.record (.wrote report)) := by
    intro outcome hprinted
    refine ⟨⟨last.happened, events', report, ?_, hruns, rfl, hprinted⟩, hstopped⟩
    exact List.append_assoc ..
  have hstop : last.session.browser.stop (world.printing accepts).stop =
      (world.stop, (last.session.browser.stop world.stop).2) := Prod.ext hresult rfl
  rw [hstop]
  dsimp only
  have hprinted := report.print_spec accepts
  split
  · next hwrite =>
      have hwrite : (report.print accepts).1.mapError (fun _ => ()) = .error () := hwrite
      rcases hprinted with ⟨hok, -⟩ | ⟨-, hsome⟩
      · rw [hok] at hwrite
        cases hwrite
      · exact ⟨_, rfl, hended _ (.inr ⟨hsome, rfl⟩)⟩
  · next hwrite =>
      have hwrite : (report.print accepts).1.mapError (fun _ => ()) = .ok () := hwrite
      rcases hprinted with ⟨-, hall⟩ | ⟨hfailed, -⟩
      · exact ⟨_, rfl, hended _ (.inl ⟨hall, rfl⟩)⟩
      · rw [hfailed] at hwrite
        cases hwrite

/-- From any pass that has not ended, whatever the network, the clock, the user and the writer
do. -/
theorem Pass.observe_concluded (world : Surroundings) (accepts : Nat → Bool)
    (args : DiscoverArgs) (fuel : Nat) {self : Pass} (h : self.Watching []) :
    let pass := self.observe (world.printing accepts) args fuel
    pass.1 = .error .outOfFuel ∧ (∀ happening ∈ pass.2.happened, happening.isEnd = false) ∨
      ∃ outcome, pass.1 = .ok outcome ∧ Concluded world accepts args outcome pass.2 := by
  intro pass
  have hwatched := watch_goes (world.printing accepts) args fuel h
  simp only [pass, observe]
  generalize self.watch (world.printing accepts) args fuel [] = watched at hwatched ⊢
  obtain ⟨answer, last⟩ := watched
  cases answer with
  | error halt =>
      cases halt with
      | outOfFuel =>
          obtain ⟨events, hlast⟩ := hwatched
          exact .inl ⟨rfl, hlast.runs.open_⟩
      | panic reason => exact hwatched.elim
  | ok events => exact .inr (conclude_concluded world accepts args hwatched)

theorem Pass.watching_start (deadline : Duration) : (Pass.start deadline).Watching [] :=
  ⟨.start, rfl⟩

/-- Whatever the network, the clock, the user and the writer do, a pass does not panic, and it
ends with one stop and one report, unless it does not end. -/
theorem pass_reports_once (world : Surroundings) (accepts : Nat → Bool) (args : DiscoverArgs)
    (fuel : Nat) (deadline : Duration) :
    let pass := (Pass.start deadline).observe (world.printing accepts) args fuel
    pass.1 = .error .outOfFuel ∧ (∀ happening ∈ pass.2.happened, happening.isEnd = false) ∨
      ∃ outcome, pass.1 = .ok outcome ∧ Concluded world accepts args outcome pass.2 :=
  Pass.observe_concluded world accepts args fuel (Pass.watching_start deadline)

/-- A pass that ends has printed a report. -/
theorem Pass.exists_report {world : Surroundings} {accepts : Nat → Bool} {args : DiscoverArgs}
    {fuel : Nat} {deadline : Duration}
    (hends : ((Pass.start deadline).observe (world.printing accepts)
      args fuel).1.toOption.isSome = true) :
    ∃ report, .wrote report ∈
      ((Pass.start deadline).observe (world.printing accepts) args fuel).2.happened := by
  rcases Pass.observe_concluded world accepts args fuel (Pass.watching_start deadline) with
    ⟨hfuel, -⟩ | ⟨outcome, -, hconcluded⟩
  · rw [hfuel] at hends
    cases hends
  · obtain ⟨earlier, events, report, hhappened, -⟩ := hconcluded.ended
    refine ⟨report, ?_⟩
    rw [hhappened]
    simp

/-! ## What the transitions say of a device -/

/-- What a transition does to the visibility of a key, if anything. -/
def DiscoveredPeerTransition.change (key : TransientDiscoveryKey) :
    DiscoveredPeerTransition → Option Bool
  | .appeared k => if k = key then some true else none
  | .removed k _ => if k = key then some false else none
  | .refreshed _ | .updated _ | .noop _ _ | .rejected _ => none

/-- A map whose peers are stored under their keys. -/
def Keyed (v : VisibleMap) : Prop :=
  ∀ (k : TransientDiscoveryKey) (peer : DiscoveredPeer), v[k]? = some peer → peer.key = k

/-- Peers that are stored under their keys list the keys. -/
theorem Keyed.map_key {v : VisibleMap} (h : Keyed v) :
    (v.toList.map Prod.snd).map DiscoveredPeer.key = v.toList.map Prod.fst := by
  rw [List.map_map]
  refine List.map_congr_left ?_
  intro entry hentry
  obtain ⟨key, peer⟩ := entry
  exact h key peer (Std.ExtTreeMap.mem_toList_iff_getElem?_eq_some.mp hentry)

section Changes

variable {bound : Option DiscoveredPeer} {v : VisibleMap} {key : TransientDiscoveryKey}

theorem isSome_replay {t : DiscoveredPeerTransition} (h : Truthful bound v t) :
    ((replay bound v t)[key]?).isSome = (t.change key).getD (v[key]?).isSome := by
  cases t with
  | appeared k =>
      obtain ⟨-, peer, rfl, -⟩ := h
      rw [replay, Std.ExtTreeMap.getElem?_insert, DiscoveredPeerTransition.change]
      by_cases hk : k = key <;> simp [hk]
  | refreshed k =>
      obtain ⟨peer, rfl, -, hstored⟩ := h
      rw [replay, Std.ExtTreeMap.getElem?_insert]
      by_cases hk : k = key
      · subst hk
        simp [hstored, DiscoveredPeerTransition.change]
      · simp [hk, DiscoveredPeerTransition.change]
  | updated k =>
      obtain ⟨peer, old, rfl, -, hstored, -⟩ := h
      rw [replay, Std.ExtTreeMap.getElem?_insert]
      by_cases hk : k = key
      · subst hk
        simp [hstored, DiscoveredPeerTransition.change]
      · simp [hk, DiscoveredPeerTransition.change]
  | removed k reason =>
      rw [replay, Std.ExtTreeMap.getElem?_erase, DiscoveredPeerTransition.change]
      by_cases hk : k = key <;> simp [hk]
  | noop k reason => rfl
  | rejected error => rfl

theorem Keyed.replay {t : DiscoveredPeerTransition} (hkeyed : Keyed v) (h : Truthful bound v t) :
    Keyed (replay bound v t) := by
  intro k peer hpeer
  have hinsert : ∀ {k' peer'}, peer'.key = k' →
      (v.insert k' peer')[k]? = some peer → peer.key = k := by
    intro k' peer' hk' hpeer
    rw [Std.ExtTreeMap.getElem?_insert] at hpeer
    split at hpeer
    · next heq =>
        cases hpeer
        rw [hk']
        simpa using heq
    · exact hkeyed k peer hpeer
  cases t with
  | appeared k' =>
      obtain ⟨-, peer', rfl, hk'⟩ := h
      exact hinsert hk' hpeer
  | refreshed k' =>
      obtain ⟨peer', rfl, hk', -⟩ := h
      exact hinsert hk' hpeer
  | updated k' =>
      obtain ⟨peer', old, rfl, hk', -⟩ := h
      exact hinsert hk' hpeer
  | removed k' reason =>
      rw [LocalTransfer.replay, Std.ExtTreeMap.getElem?_erase] at hpeer
      split at hpeer
      · cases hpeer
      · exact hkeyed k peer hpeer
  | noop k' reason => exact hkeyed k peer hpeer
  | rejected error => exact hkeyed k peer hpeer

/-- The visibility of a key after some transitions. -/
def presence (key : TransientDiscoveryKey) (before : Bool) (ts : List DiscoveredPeerTransition) :
    Bool := ts.foldl (fun visible t => (t.change key).getD visible) before

theorem isSome_foldl_replay {ts : List DiscoveredPeerTransition} (h : AllTruthful bound v ts) :
    ((ts.foldl (replay bound) v)[key]?).isSome = presence key (v[key]?).isSome ts := by
  induction ts generalizing v with
  | nil => rfl
  | cons t ts ih =>
      rw [List.foldl_cons, ih h.2, isSome_replay h.1]
      rfl

theorem Keyed.foldl_replay {ts : List DiscoveredPeerTransition} (hkeyed : Keyed v)
    (h : AllTruthful bound v ts) : Keyed (ts.foldl (LocalTransfer.replay bound) v) := by
  induction ts generalizing v with
  | nil => exact hkeyed
  | cons t ts ih => exact ih (hkeyed.replay h.1) h.2

end Changes

/-- After a run the peers are stored under their keys, and the transitions tell which keys are
visible. -/
structure Accounted (events : List DiscoveredPeerTransition) (state : DiscoveredPeerState) :
    Prop where
  keyed : Keyed state.visibleMap
  visible : ∀ key : TransientDiscoveryKey,
    (state.visibleMap[key]?).isSome = presence key false events

/-- What every step of a run explains, the run explains. -/
theorem replaySteps_accounted {v : VisibleMap} {steps : List LifecycleStep} (hkeyed : Keyed v)
    (h : ∀ before step after, steps = before ++ step :: after →
      DiscoveredPeerState.StepExplained (replaySteps v before) step) :
    Keyed (replaySteps v steps) ∧ ∀ key : TransientDiscoveryKey,
      ((replaySteps v steps)[key]?).isSome =
        presence key (v[key]?).isSome (steps.flatMap LifecycleStep.transitions) := by
  induction steps generalizing v with
  | nil => exact ⟨hkeyed, fun _ => rfl⟩
  | cons step steps ih =>
      have htruthful : AllTruthful step.call.peer v step.transitions :=
        (h [] step steps rfl).truthful
      have hrest : ∀ before next after, steps = before ++ next :: after →
          DiscoveredPeerState.StepExplained (replaySteps v (step :: before)) next := by
        intro before next after heq
        exact h (step :: before) next after (by rw [heq]; rfl)
      obtain ⟨hlast, hvisible⟩ := ih (hkeyed.foldl_replay htruthful) hrest
      refine ⟨hlast, ?_⟩
      intro key
      rw [List.flatMap_cons, presence, List.foldl_append, ← presence, ← presence,
        ← isSome_foldl_replay htruthful]
      exact hvisible key

theorem RunSoFar.accounted {happened : List Happening} {state : DiscoveredPeerState}
    {events : List DiscoveredPeerTransition} (h : RunSoFar happened state events) :
    Accounted events state := by
  obtain ⟨steps, hrun, rfl, rfl⟩ := h.run
  have hempty : DiscoveredPeerState.new.visibleMap = ∅ :=
    Std.ExtTreeMap.ext_getElem? fun k => by simp [DiscoveredPeerState.new]
  obtain ⟨steps', hrun', -, hexplained⟩ := DiscoveredPeerState.run_explained
    DiscoveredPeerState.pruneTombstones_safe DiscoveredPeerState.counted_new (calls happened)
  rw [hrun] at hrun'
  cases hrun'
  have hkeyed : Keyed ∅ := by
    intro k peer hpeer
    simp at hpeer
  rw [hempty] at hexplained
  obtain ⟨hlast, hvisible⟩ := replaySteps_accounted hkeyed hexplained
  have hmap : (DiscoveredPeerState.new.stateAfter steps).visibleMap = replaySteps ∅ steps := by
    rcases List.eq_nil_or_concat steps with rfl | ⟨before, step, rfl⟩
    · exact hempty
    · rw [List.concat_eq_append, DiscoveredPeerState.stateAfter_concat,
        (hexplained before step [] List.concat_eq_append).replayed, replaySteps, replaySteps,
        List.foldl_append]
      rfl
  rw [← hmap] at hlast hvisible
  refine ⟨hlast, ?_⟩
  intro key
  rw [hvisible key]
  simp

/-- The report of a concluded pass is the one that it kept. -/
theorem Concluded.report_eq {world : Surroundings} {accepts : Nat → Bool} {args : DiscoverArgs}
    {outcome : Except DiscoveryCliError Unit} {pass : Pass} {report : Report}
    (h : Concluded world accepts args outcome pass) (hmem : .wrote report ∈ pass.happened) :
    ∃ events, Accounted events pass.session.state ∧
      report = ⟨if args.events then some events else none, pass.session.snapshot⟩ := by
  obtain ⟨earlier, events, report', hhappened, hruns, hreport, -⟩ := h.ended
  refine ⟨events, hruns.accounted, ?_⟩
  rw [hhappened, List.mem_append, List.mem_cons, List.mem_singleton] at hmem
  rcases hmem with hearlier | hstopped | hwrote
  · cases hruns.open_ _ hearlier
  · cases hstopped
  · cases hwrote
    exact hreport

end LocalTransfer
