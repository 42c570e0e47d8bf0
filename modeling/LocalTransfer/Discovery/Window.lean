import LocalTransfer.Discovery.Observe

/-!
# The window of a pass

The poll loop looks at the deadline only after a poll without an event. So a pass that is
never cancelled ends exactly if the browser has nothing at some poll whose check finds the
deadline reached; a backend that yields at every poll keeps it from ever looking.
-/

namespace LocalTransfer

open Lib DiscoveredPeerState

/-! ## What the browser has at each poll -/

namespace Surroundings

variable {world : Surroundings} {deadline : Duration} {n : Nat}

/-- The browser when so many polls were made. -/
def browserAt (world : Surroundings) : Nat → DiscoveryBrowser
  | 0 => .start
  | n + 1 => ((world.browserAt n).pollEvent (world.backend n)).2

def eventAt (world : Surroundings) (n : Nat) : Option DiscoveryBrowserEvent :=
  ((world.browserAt n).pollEvent (world.backend n)).1

/-- The user never cancels. -/
def Patient (world : Surroundings) : Prop :=
  ∀ n, world.cancelledBefore n = false ∧ world.cancelledAfter n = false

/-- The browser has nothing at a poll whose check finds the deadline reached. -/
def FallsSilent (world : Surroundings) (deadline : Duration) (n : Nat) : Prop :=
  world.eventAt n = none ∧ deadline ≤ world.after (n + 1)

theorem pollEvent_browserAt (world : Surroundings) (n : Nat) :
    (world.browserAt n).pollEvent (world.backend n) = (world.eventAt n, world.browserAt (n + 1)) :=
  rfl

theorem browserAt_active (world : Surroundings) (n : Nat) : (world.browserAt n).active = true := by
  induction n with
  | zero => rfl
  | succ n ih =>
      rw [browserAt, DiscoveryBrowser.pollEvent.eq_def, if_neg (not_not.mpr ih)]
      cases world.backend n with
      | none => exact ih
      | some raw => exact ih

end Surroundings

/-! ## Calls and rounds -/

namespace Pass

variable {world : Surroundings} {args : DiscoverArgs} {deadline : Duration} {self next : Pass}
  {now : Duration}

/-- A pass that made its polls in these surroundings. -/
structure Aligned (world : Surroundings) (deadline : Duration) (pass : Pass) : Prop where
  counted : Counted pass.session.state
  browser : pass.session.browser = world.browserAt pass.polls
  deadline_eq : pass.session.deadline = deadline

/-- Why a call or a loop came back: the browser had fallen silent. -/
def GaveUp (world : Surroundings) (deadline : Duration) (self : Pass) : Prop :=
  ∃ n, world.FallsSilent deadline n ∧ .gaveUp (world.after (n + 1)) ∈ self.happened

/-- A call yields a transition, gives up, or runs out of fuel; it does not pass over a poll
at which the browser has fallen silent. -/
theorem nextTransition_spec (hpatient : world.Patient) (fuel : Nat)
    (h : Aligned world deadline self) :
    (∃ t next, self.nextTransition world now fuel = (.ok (some t), next) ∧
      Aligned world deadline next ∧ self.polls < next.polls ∧
      ∀ n, self.polls ≤ n → n < next.polls → ¬ world.FallsSilent deadline n) ∨
    (∃ next, self.nextTransition world now fuel = (.ok none, next) ∧
      Aligned world deadline next ∧ GaveUp world deadline next) ∨
    (∃ next, self.nextTransition world now fuel = (.error .outOfFuel, next) ∧
      ∀ n, self.polls ≤ n → n < self.polls + fuel → ¬ world.FallsSilent deadline n) := by
  induction fuel generalizing self with
  | zero => exact .inr (.inr ⟨self, rfl, fun n hle hlt => absurd hlt (Nat.not_lt.mpr hle)⟩)
  | succ fuel ih =>
      have hpoll := world.pollEvent_browserAt self.polls
      rw [← h.browser] at hpoll
      cases hevent : world.eventAt self.polls with
      | some event =>
          rw [hevent] at hpoll
          obtain ⟨t, s, happly, hs, -⟩ := apply_truthful pruneTombstones_safe h.counted event now
          refine .inl ⟨t, _, nextTransition_took hpoll happly, ⟨hs, rfl, h.deadline_eq⟩,
            Nat.lt_succ_self _, fun n hle hlt hsilent => ?_⟩
          have hn : n = self.polls := Nat.le_antisymm (Nat.lt_succ_iff.mp hlt) hle
          rw [Surroundings.FallsSilent, hn, hevent] at hsilent
          exact absurd hsilent.1 (Option.some_ne_none event)
      | none =>
          rw [hevent] at hpoll
          by_cases hover : deadline ≤ world.after (self.polls + 1)
          · refine .inr (.inl ⟨_, nextTransition_gaveUp hpoll (.inr (h.deadline_eq ▸ hover)),
              ⟨h.counted, rfl, h.deadline_eq⟩, self.polls, ⟨hevent, hover⟩, ?_⟩)
            exact List.mem_append_right _ (List.mem_singleton_self _)
          · have hwait : ¬ (world.cancelledAfter (self.polls + 1) ∨
                self.session.deadline ≤ world.after (self.polls + 1)) := by
              rw [h.deadline_eq, (hpatient _).2]
              simpa using hover
            have hself : ¬ world.FallsSilent deadline self.polls := fun hsilent => hover hsilent.2
            rw [nextTransition_waited hpoll hwait]
            -- this poll was not silent, so what holds of the polls after it holds from here
            have halong : ∀ {m : Nat},
                (∀ n, self.polls + 1 ≤ n → n < m → ¬ world.FallsSilent deadline n) →
                ∀ n, self.polls ≤ n → n < m → ¬ world.FallsSilent deadline n := by
              intro m hrest n hle hlt
              rcases Nat.eq_or_lt_of_le hle with rfl | hlater
              · exact hself
              · exact hrest n hlater hlt
            have hnext : Aligned world deadline (self.advance (world.browserAt (self.polls + 1))) :=
              ⟨h.counted, rfl, h.deadline_eq⟩
            rcases ih hnext with ⟨t, next, heq, halign, hlt, hrest⟩ | hgaveUp | ⟨next, heq, hrest⟩
            · exact .inl ⟨t, next, heq, halign, Nat.lt_of_succ_lt hlt, halong hrest⟩
            · exact .inr (.inl hgaveUp)
            · refine .inr (.inr ⟨next, heq, halong fun n hle hlt => hrest n hle ?_⟩)
              show n < self.polls + 1 + fuel
              omega

/-- An aligned pass can always sweep. -/
theorem expire_aligned (args : DiscoverArgs) (now : Duration)
    (events : List DiscoveredPeerTransition) (h : Aligned world deadline self) :
    ∃ rest last, self.expire args now events = (.ok rest, last) ∧
      Aligned world deadline last ∧ last.polls = self.polls := by
  cases hwindow : args.staleWindow with
  | none => exact ⟨events, self, by simp only [expire, hwindow], h, rfl⟩
  | some window =>
      obtain ⟨ts, s, hcall, hs, -⟩ :=
        call_truthful pruneTombstones_safe h.counted (.expire now window)
      exact ⟨_, _, expire_swept hwindow hcall, ⟨hs, h.browser, h.deadline_eq⟩, rfl⟩

/-- The loop of `observe` comes back only when the browser has fallen silent. -/
theorem watch_spec (args : DiscoverArgs) (hpatient : world.Patient) (fuel : Nat)
    (events : List DiscoveredPeerTransition) (h : Aligned world deadline self) :
    (∃ rest last, self.watch world args fuel events = (.ok rest, last) ∧
      Aligned world deadline last ∧ GaveUp world deadline last) ∨
    (∃ last, self.watch world args fuel events = (.error .outOfFuel, last) ∧
      ∀ n, self.polls ≤ n → n < self.polls + fuel → ¬ world.FallsSilent deadline n) := by
  induction fuel generalizing self events with
  | zero => exact .inr ⟨self, rfl, fun n hle hlt => absurd hlt (Nat.not_lt.mpr hle)⟩
  | succ fuel ih =>
      have hcancel := (hpatient self.polls).1
      rcases nextTransition_spec hpatient (fuel + 1) h with
        ⟨t, next, hcall, hnext, hlt, hpassed⟩ | ⟨next, hcall, hnext, hgaveUp⟩ | ⟨next, hcall, hrest⟩
      · obtain ⟨rest, last, hsweep, hlast, hpolls⟩ :=
          expire_aligned args (world.after next.polls) (events ++ [t]) hnext
        rw [watch_took hcancel hcall hsweep]
        rcases ih rest hlast with hended | ⟨final, heq, hrest⟩
        · exact .inl hended
        · refine .inr ⟨final, heq, fun n hle hn => ?_⟩
          -- either the call passed over the poll, or the rest of the loop did
          by_cases hbefore : n < next.polls
          · exact hpassed n hle hbefore
          · apply hrest n
            · omega
            · omega
      · refine .inl ⟨events, next, ?_, hnext, hgaveUp⟩
        rw [watch, if_neg (by simp [hcancel]), hcall]
      · refine .inr ⟨next, ?_, hrest⟩
        rw [watch, if_neg (by simp [hcancel]), hcall]

/-- After the loop the session is stopped and the report is written. -/
theorem conclude_spec (args : DiscoverArgs) (events : List DiscoveredPeerTransition)
    (h : Aligned world deadline self) :
    ∃ result final, self.conclude world args events = (.ok result, final) ∧
      (∃ r, .stopped r ∈ final.happened) ∧ ∃ report, .wrote report ∈ final.happened := by
  obtain ⟨rest, last, hsweep, -, -⟩ := expire_aligned args (world.before self.polls) events h
  rw [conclude, hsweep]
  dsimp only
  generalize last.session.browser.stop world.stop = stopping
  obtain ⟨stopResult, browser⟩ := stopping
  dsimp only
  split
  · exact ⟨_, _, rfl, ⟨stopResult, by simp [record]⟩, _, List.mem_append_right _ (.head _)⟩
  · exact ⟨_, _, rfl, ⟨stopResult, by simp [record]⟩, _, List.mem_append_right _ (.head _)⟩

/-- What a pass does that is bounded by its window: a call finds the deadline reached and
comes back without a transition, the session is stopped, and the report is written. -/
def Ends (world : Surroundings) (args : DiscoverArgs) (deadline : Duration) : Prop :=
  ∃ fuel result final, (start deadline).observe world args fuel = (.ok result, final) ∧
    (∃ checkedAt, .gaveUp checkedAt ∈ final.happened ∧ deadline ≤ checkedAt) ∧
    (∃ r, .stopped r ∈ final.happened) ∧ ∃ report, .wrote report ∈ final.happened

theorem aligned_start (world : Surroundings) (deadline : Duration) :
    Aligned world deadline (start deadline) :=
  ⟨counted_new, rfl, rfl⟩

/-- A pass with a result has found the browser silent. -/
theorem silent_of_observe (hpatient : world.Patient) {fuel : Nat}
    {result : Except DiscoveryCliError Unit} {final : Pass}
    (h : (start deadline).observe world args fuel = (.ok result, final)) :
    ∃ n, world.FallsSilent deadline n := by
  rcases watch_spec args hpatient fuel [] (aligned_start world deadline) with
    ⟨rest, last, -, -, n, hsilent, -⟩ | ⟨last, hwatch, -⟩
  · exact ⟨n, hsilent⟩
  · rw [observe, hwatch] at h
    cases h

end Pass

/-! ## A backend that is gone -/

/-- Polls of a backend whose daemon is gone, an interval apart. -/
def daemonGone : Surroundings where
  before n := n * pollInterval
  polled n := n * pollInterval
  after n := n * pollInterval
  ordered n := ⟨le_refl _, le_refl _, Nat.mul_le_mul_right _ (Nat.le_succ n)⟩
  backend := MdnsBrowserBackend.polls ⟨⟨[], true⟩, ⟨[], true⟩⟩
  cancelledBefore _ := false
  cancelledAfter _ := false
  stop := .ok ()
  write _ := .ok ()

/-- The same polls of a network that has something once. -/
def quietNetwork : Surroundings :=
  { daemonGone with backend := fun n => if n = 10 then some (.removed []) else none }

theorem eventAt_daemonGone (n : Nat) : daemonGone.eventAt n ≠ none := by
  obtain ⟨error, hbackend⟩ : ∃ error, daemonGone.backend n = some (.error error) :=
    MdnsBrowserBackend.polls_of_disconnected rfl rfl n
  have hactive := daemonGone.browserAt_active n
  rw [Surroundings.eventAt, hbackend, DiscoveryBrowser.pollEvent.eq_def,
    if_neg (not_not.mpr hactive)]
  exact Option.some_ne_none _

theorem eventAt_quietNetwork {n : Nat} (h : n ≠ 10) : quietNetwork.eventAt n = none := by
  show ((quietNetwork.browserAt n).pollEvent (if n = 10 then _ else none)).1 = none
  rw [if_neg h, DiscoveryBrowser.pollEvent.eq_def]
  split <;> rfl

/-! ## The law of the window -/

/-- **A pass is bounded by its window if and only if the browser falls silent.** Whatever
the backend does and whatever the clock reads, a pass that the user never cancels ends with
its session stopped and its report written exactly when at some poll the browser has
nothing and the deadline is reached right after it. -/
theorem pass_ends_iff (world : Surroundings) (hpatient : world.Patient) (args : DiscoverArgs)
    (deadline : Duration) :
    Pass.Ends world args deadline ↔ ∃ n, world.FallsSilent deadline n := by
  constructor
  · intro ⟨fuel, result, final, hobserve, _⟩
    exact Pass.silent_of_observe hpatient hobserve
  · intro ⟨n, hsilent⟩
    rcases Pass.watch_spec args hpatient (n + 1) [] (Pass.aligned_start world deadline) with
      ⟨rest, last, hwatch, hlast, m, ⟨-, hreached⟩, hgaveUp⟩ | ⟨last, -, hpassed⟩
    · obtain ⟨result, final, hconclude, hended⟩ := Pass.conclude_spec args rest hlast
      have hgrows := Pass.conclude_grows world args rest last
      rw [hconclude] at hgrows
      refine ⟨n + 1, result, final, ?_, ⟨_, hgrows.subset hgaveUp, hreached⟩, hended⟩
      rw [Pass.observe, hwatch]
      exact hconclude
    · -- the loop cannot have passed over the poll that falls silent
      refine absurd hsilent (hpassed n (Nat.zero_le n) ?_)
      show n < 0 + (n + 1)
      omega

theorem pass_ends_quiet : (quietNetwork.eventAt 10).isSome ∧
    Pass.Ends quietNetwork ⟨true, some 1⟩ (.fromSecs 3) := by
  refine ⟨by decide +kernel, (pass_ends_iff quietNetwork (fun _ => ⟨rfl, rfl⟩) ⟨true, some 1⟩
    _).mpr ⟨149, eventAt_quietNetwork (by decide), ?_⟩⟩
  show 3 * 1000000000 ≤ (149 + 1) * 20000000
  norm_num

/-- Once the daemon is gone a pass of 3 s goes on for ever, though the clock reaches 3 s. -/
theorem daemon_gone_never_ends : daemonGone.Patient ∧
    (∃ n, Duration.fromSecs 3 ≤ daemonGone.after n) ∧
    ¬ Pass.Ends daemonGone ⟨false, none⟩ (.fromSecs 3) := by
  have hpatient : daemonGone.Patient := fun _ => ⟨rfl, rfl⟩
  refine ⟨hpatient, ⟨150, ?_⟩, fun ⟨fuel, result, final, hobserve, _⟩ => ?_⟩
  · show 3 * 1000000000 ≤ 150 * 20000000
    norm_num
  · obtain ⟨n, hsilent, -⟩ := Pass.silent_of_observe hpatient hobserve
    exact eventAt_daemonGone n hsilent

end LocalTransfer
