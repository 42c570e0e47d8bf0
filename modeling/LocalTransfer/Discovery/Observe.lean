import LocalTransfer.Discovery.Backend
import LocalTransfer.Discovery.Transitions

/-!
# An observation pass

`discovery.rs` of the command line: `BrowserSession::next_transition` polls until an event
arrives or the window is over, and `observe` drives it and sweeps out stale peers. The
clock, the network and the user are a `Surroundings`; a loop of the source takes fuel, a
poll each, and a pass keeps what happened in it whether or not the fuel sufficed. The text
of a report is left out.
-/

namespace LocalTransfer

open Lib

/-- The sleep between two polls. -/
def pollInterval : Duration := 20000000

/-! ## Sessions -/

/-- The browser of the core: its state, and whether it was stopped. -/
structure DiscoveryBrowser where
  state : BrowserState
  active : Bool

namespace DiscoveryBrowser

def start : DiscoveryBrowser := ⟨.default, true⟩

/-- Translates what the backend has, if the session is active. -/
def pollEvent (self : DiscoveryBrowser) (polled : Option RawBrowserEvent) :
    Option DiscoveryBrowserEvent × DiscoveryBrowser :=
  if ¬ self.active then (none, self)
  else
    match polled with
    | none => (none, self)
    | some raw =>
        let (event, state) := self.state.translate raw
        (event, { self with state })

def stop (self : DiscoveryBrowser) (stopped : Except DiscoveryBrowserError Unit) :
    Except DiscoveryBrowserError Unit × DiscoveryBrowser :=
  if ¬ self.active then (.ok (), self)
  else
    match stopped with
    | .error error => (.error error, self)
    | .ok () => (.ok (), { self with active := false })

end DiscoveryBrowser

/-- The session of the command line. The deadline is a time of the pass's clock. -/
structure BrowserSession where
  browser : DiscoveryBrowser
  state : DiscoveredPeerState
  deadline : Duration

namespace BrowserSession

def start (deadline : Duration) : BrowserSession := ⟨.start, .new, deadline⟩

/-- The visible peers, in the order a report lists them. -/
def snapshot (self : BrowserSession) : List DiscoveredPeer :=
  sortByKey DiscoveredPeer.key self.state.iter

end BrowserSession

/-! ## Surroundings -/

structure DiscoverArgs where
  events : Bool
  staleAfter : Option UInt64

def DiscoverArgs.staleWindow (args : DiscoverArgs) : Option Duration :=
  args.staleAfter.map fun secs => .fromSecs secs.toNat

/-- What is written: the transitions, if they were asked for, and the visible peers. -/
structure Report where
  events : Option (List DiscoveredPeerTransition)
  devices : List DiscoveredPeer

/-- What a pass meets, by the number of polls it has made: the clock before the next poll,
at it, and after the last one; what the poll finds; and whether the user has cancelled. -/
structure Surroundings where
  before : Nat → Duration
  polled : Nat → Duration
  after : Nat → Duration
  ordered : ∀ n, after n ≤ before n ∧ before n ≤ polled n ∧ polled n ≤ after (n + 1)
  backend : Nat → Option RawBrowserEvent
  cancelledBefore : Nat → Bool
  cancelledAfter : Nat → Bool
  stop : Except DiscoveryBrowserError Unit
  write : Report → Except Unit Unit

/-! ## A pass -/

/-- One call of `expire`. -/
structure Sweep where
  now : Duration
  staleAfter : Duration
  before : DiscoveredPeerState
  transitions : List DiscoveredPeerTransition
  after : DiscoveredPeerState

inductive Happening
  | took (event : DiscoveryBrowserEvent) (stampedAt takenAt : Duration)
  | gaveUp (checkedAt : Duration)
  | swept (sweep : Sweep)
  | stopped (result : Except DiscoveryBrowserError Unit)
  | wrote (report : Report)

/-- The session, the polls made so far, and what happened. -/
structure Pass where
  session : BrowserSession
  polls : Nat
  happened : List Happening

/-- Why a pass has no result. -/
inductive Halt
  | outOfFuel
  | panic (reason : LifecyclePanic)

inductive DiscoveryCliError
  | shutdown (source : DiscoveryBrowserError)
  | output

namespace Pass

def start (deadline : Duration) : Pass := ⟨.start deadline, 0, []⟩

def record (self : Pass) (happening : Happening) : Pass :=
  { self with happened := self.happened ++ [happening] }

/-- The pass after one more poll. -/
def advance (self : Pass) (browser : DiscoveryBrowser) : Pass :=
  { self with session := { self.session with browser }, polls := self.polls + 1 }

def become (self : Pass) (state : DiscoveredPeerState) : Pass :=
  { self with session := { self.session with state } }

/-- The loop of `next_transition`, called at `now`. -/
def nextTransition (world : Surroundings) (now : Duration) :
    Nat → Pass → Except Halt (Option DiscoveredPeerTransition) × Pass
  | 0, self => (.error .outOfFuel, self)
  | fuel + 1, self =>
      let n := self.polls
      match self.session.browser.pollEvent (world.backend n) with
      | (some event, browser) =>
          -- stamped with the time of the call, not of the poll
          match self.session.state.apply .pruneTombstones event now with
          | .error reason => (.error (.panic reason), self.advance browser)
          | .ok (transition, state) =>
              (.ok (some transition),
                ((self.advance browser).become state).record (.took event now (world.polled n)))
      | (none, browser) =>
          if world.cancelledAfter (n + 1) ∨ self.session.deadline ≤ world.after (n + 1) then
            (.ok none, (self.advance browser).record (.gaveUp (world.after (n + 1))))
          else nextTransition world now fuel (self.advance browser)

/-- Expires stale peers, if asked to, and appends what was reported. -/
def expire (args : DiscoverArgs) (now : Duration) (events : List DiscoveredPeerTransition)
    (self : Pass) : Except Halt (List DiscoveredPeerTransition) × Pass :=
  match args.staleWindow with
  | none => (.ok events, self)
  | some window =>
      match self.session.state.expire .pruneTombstones now window with
      | .error reason => (.error (.panic reason), self)
      | .ok (expired, state) =>
          (.ok (events ++ expired),
            (self.become state).record (.swept ⟨now, window, self.session.state, expired, state⟩))

/-- The loop of `observe`. -/
def watch (world : Surroundings) (args : DiscoverArgs) :
    Nat → List DiscoveredPeerTransition → Pass →
    Except Halt (List DiscoveredPeerTransition) × Pass
  | 0, _, self => (.error .outOfFuel, self)
  | fuel + 1, events, self =>
      if world.cancelledBefore self.polls then (.ok events, self)
      else
        match self.nextTransition world (world.before self.polls) (fuel + 1) with
        | (.error halt, self) => (.error halt, self)
        | (.ok none, self) => (.ok events, self)
        | (.ok (some transition), self) =>
            match self.expire args (world.after self.polls) (events ++ [transition]) with
            | (.error halt, self) => (.error halt, self)
            | (.ok events, self) => watch world args fuel events self

/-- What follows the loop: the last sweep, the stop, and the report. -/
def conclude (world : Surroundings) (args : DiscoverArgs)
    (events : List DiscoveredPeerTransition) (self : Pass) :
    Except Halt (Except DiscoveryCliError Unit) × Pass :=
  match self.expire args (world.before self.polls) events with
  | (.error halt, self) => (.error halt, self)
  | (.ok events, self) =>
      let (stopResult, browser) := self.session.browser.stop world.stop
      let self : Pass := { self with session := { self.session with browser } }
        |>.record (.stopped stopResult)
      let report : Report :=
        ⟨if args.events then some events else none, self.session.snapshot⟩
      let self := self.record (.wrote report)
      match world.write report with
      | .error () => (.ok (.error .output), self)
      | .ok () => (.ok (stopResult.mapError .shutdown), self)

def observe (world : Surroundings) (args : DiscoverArgs) (fuel : Nat) (self : Pass) :
    Except Halt (Except DiscoveryCliError Unit) × Pass :=
  match self.watch world args fuel [] with
  | (.error halt, self) => (.error halt, self)
  | (.ok events, self) => self.conclude world args events

/-! ## One poll -/

section

variable {world : Surroundings} {args : DiscoverArgs} {self : Pass} {now : Duration} {fuel : Nat}
  {browser : DiscoveryBrowser} {event : DiscoveryBrowserEvent} {t : DiscoveredPeerTransition}
  {s : DiscoveredPeerState}

theorem nextTransition_took
    (hpoll : self.session.browser.pollEvent (world.backend self.polls) = (some event, browser))
    (happly : self.session.state.apply .pruneTombstones event now = .ok (t, s)) :
    self.nextTransition world now (fuel + 1) = (.ok (some t),
      ((self.advance browser).become s).record (.took event now (world.polled self.polls))) := by
  simp only [nextTransition, hpoll, happly]

theorem nextTransition_gaveUp
    (hpoll : self.session.browser.pollEvent (world.backend self.polls) = (none, browser))
    (hover : world.cancelledAfter (self.polls + 1) ∨
      self.session.deadline ≤ world.after (self.polls + 1)) :
    self.nextTransition world now (fuel + 1) = (.ok none,
      (self.advance browser).record (.gaveUp (world.after (self.polls + 1)))) := by
  simp only [nextTransition, hpoll, if_pos hover]

theorem nextTransition_waited
    (hpoll : self.session.browser.pollEvent (world.backend self.polls) = (none, browser))
    (hwait : ¬ (world.cancelledAfter (self.polls + 1) ∨
      self.session.deadline ≤ world.after (self.polls + 1))) :
    self.nextTransition world now (fuel + 1) =
      (self.advance browser).nextTransition world now fuel := by
  simp only [nextTransition, hpoll, if_neg hwait]

/-- Polls that find nothing while the window is open only count. -/
theorem nextTransition_quiet (n : Nat) (hnone : ∀ i < n, world.backend (self.polls + i) = none)
    (hwait : ∀ i < n, ¬ (world.cancelledAfter (self.polls + i + 1) ∨
      self.session.deadline ≤ world.after (self.polls + i + 1))) :
    self.nextTransition world now (fuel + n) =
      { self with polls := self.polls + n }.nextTransition world now fuel := by
  induction n generalizing fuel with
  | zero => rfl
  | succ n ih =>
      have hquiet : self.nextTransition world now (fuel + 1 + n) = _ :=
        ih (fun i hi => hnone i (by omega)) fun i hi => hwait i (by omega)
      rw [show fuel + (n + 1) = fuel + 1 + n by omega, hquiet]
      have hpoll : self.session.browser.pollEvent (world.backend (self.polls + n)) =
          (none, self.session.browser) := by
        rw [hnone n (Nat.lt_succ_self n), DiscoveryBrowser.pollEvent]
        split <;> rfl
      exact nextTransition_waited hpoll (hwait n (Nat.lt_succ_self n))

theorem expire_swept {window : Duration} {ts events : List DiscoveredPeerTransition}
    (hwindow : args.staleWindow = some window)
    (hexpire : self.session.state.expire .pruneTombstones now window = .ok (ts, s)) :
    self.expire args now events = (.ok (events ++ ts),
      (self.become s).record (.swept ⟨now, window, self.session.state, ts, s⟩)) := by
  simp only [expire, hwindow, hexpire]

/-- One round of the loop of `observe`. -/
theorem watch_took {next last : Pass} {events rest : List DiscoveredPeerTransition}
    (hcancel : world.cancelledBefore self.polls = false)
    (hcall : self.nextTransition world (world.before self.polls) (fuel + 1) =
      (.ok (some t), next))
    (hsweep : next.expire args (world.after next.polls) (events ++ [t]) = (.ok rest, last)) :
    self.watch world args (fuel + 1) events = last.watch world args fuel rest := by
  rw [watch, if_neg (by simp [hcancel]), hcall]
  dsimp only
  rw [hsweep]

end

/-! ## What happened stays -/

section

variable (world : Surroundings) (args : DiscoverArgs) (now : Duration) (fuel : Nat)
  (events : List DiscoveredPeerTransition) (self : Pass)

theorem nextTransition_grows :
    self.happened <+: (self.nextTransition world now fuel).2.happened := by
  induction fuel generalizing self with
  | zero => exact List.prefix_refl _
  | succ fuel ih =>
      simp only [nextTransition]
      split
      · split
        · exact List.prefix_refl _
        · exact List.prefix_append ..
      · split
        · exact List.prefix_append ..
        · exact ih (self.advance _)

theorem expire_grows : self.happened <+: (self.expire args now events).2.happened := by
  rw [expire]
  split
  · exact List.prefix_refl _
  · split
    · exact List.prefix_refl _
    · exact List.prefix_append ..

theorem watch_grows : self.happened <+: (self.watch world args fuel events).2.happened := by
  induction fuel generalizing self events with
  | zero => exact List.prefix_refl _
  | succ fuel ih =>
      rw [watch]
      split
      · exact List.prefix_refl _
      · have hcall := nextTransition_grows world (world.before self.polls) (fuel + 1) self
        split
        · next hnext => simpa only [hnext] using hcall
        · next hnext => simpa only [hnext] using hcall
        · next t next hnext =>
            rw [hnext] at hcall
            have hsweep := expire_grows args (world.after next.polls) (events ++ [t]) next
            split
            · next hlast => simpa only [hlast] using hcall.trans hsweep
            · next events last hlast =>
                rw [hlast] at hsweep
                exact hcall.trans (hsweep.trans (ih events last))

theorem conclude_grows : self.happened <+: (self.conclude world args events).2.happened := by
  have hsweep := expire_grows args (world.before self.polls) events self
  rw [conclude]
  split
  · next hlast => simpa only [hlast] using hsweep
  · next events last hlast =>
      rw [hlast] at hsweep
      dsimp only
      split
      · exact hsweep.trans ((List.prefix_append ..).trans (List.prefix_append ..))
      · exact hsweep.trans ((List.prefix_append ..).trans (List.prefix_append ..))

/-- The history of a pass begins with that of its loop. -/
theorem watch_grows_observe :
    (self.watch world args fuel []).2.happened <+:
      (self.observe world args fuel).2.happened := by
  rw [observe]
  split
  · next hlast => simp only [hlast, List.prefix_refl]
  · next events last hlast =>
      simp only [hlast]
      exact conclude_grows world args events last

end

end Pass

end LocalTransfer
