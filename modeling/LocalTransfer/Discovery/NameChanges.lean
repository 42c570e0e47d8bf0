import LocalTransfer.Discovery.Channels
import LocalTransfer.Discovery.Daemon

/-!
# Name changes

The polls of `MdnsBackend` of `advertisement.rs`, one `try_recv` at a time, while the daemon
goes on sending and may hang up. They report the changes of the advertised names and the errors
of the daemon in the order they were sent and once each (`advertisement_polls_in_order`).
-/

namespace LocalTransfer

open Lib

/-! ## The polls of an advertisement -/

/-- The events of the monitor, as an advertisement tells them apart. -/
inductive MonitorEvent
  | error (source : MdnsError)
  | nameChange (original newName : Text)
  | other
  deriving DecidableEq

/-- The error of a daemon that is gone. -/
def advertisementGone : AdvertisementPoll := .error (.ofDaemon .daemon .disconnected)

def MonitorEvent.pick : MonitorEvent → Option AdvertisementPoll
  | .error source => some (.error (.ofDaemon .daemon (.mdns source)))
  | .nameChange original newName => some (.ok (some (.nameChanged original newName)))
  | .other => none

/-- Whether a poll has found something. -/
def isFinding : AdvertisementPoll → Bool
  | .ok none => false
  | .ok (some _) | .error _ => true

/-- The backend of an advertisement, with what the daemon has sent and what the polls have
returned. -/
structure AdvertisementFeed where
  events : Receiver MonitorEvent
  polling : Bool
  sent : List MonitorEvent
  polls : List AdvertisementPoll

namespace AdvertisementFeed

def start : AdvertisementFeed := ⟨.new, false, [], []⟩

def finish (self : AdvertisementFeed) (polled : AdvertisementPoll) : AdvertisementFeed :=
  { self with polling := false, polls := self.polls ++ [polled] }

/-- A poll begins, or receives once. -/
def turn (self : AdvertisementFeed) : AdvertisementFeed :=
  if ¬ self.polling then { self with polling := true }
  else
    let (round, events) := self.events.round MonitorEvent.pick advertisementGone
    let self := { self with events }
    match round with
    | none => self
    | some none => self.finish (.ok none)
    | some (some polled) => self.finish polled

inductive Step : AdvertisementFeed → AdvertisementFeed → Prop
  | send {self : AdvertisementFeed} (event : MonitorEvent) : self.events.disconnected = false →
      Step self { self with events := self.events.send event, sent := self.sent ++ [event] }
  | hangUp {self : AdvertisementFeed} : Step self { self with events := self.events.hangUp }
  | turn {self : AdvertisementFeed} : Step self self.turn

/-- What the polls have found. -/
def findings (self : AdvertisementFeed) : List AdvertisementPoll := self.polls.filter isFinding

/-- What waits in the channel. -/
def waiting (self : AdvertisementFeed) : List AdvertisementPoll :=
  self.events.queue.filterMap MonitorEvent.pick

end AdvertisementFeed

def advertisementFeed : TSys AdvertisementFeed where
  init feed := feed = .start
  step := AdvertisementFeed.Step

/-- What was sent has been found, in order and once, or waits; the errors that tell that the
daemon is gone come after all of it. -/
def FoundInOrder (feed : AdvertisementFeed) : Prop :=
  ∃ gone, feed.findings ++ feed.waiting =
      feed.sent.filterMap MonitorEvent.pick ++ List.replicate gone advertisementGone ∧
    (gone ≠ 0 → feed.events.queue = [] ∧ feed.events.disconnected = true)

namespace FoundInOrder

variable {self next : AdvertisementFeed}

theorem turn (h : FoundInOrder self) : FoundInOrder self.turn := by
  obtain ⟨gone, horder, hgone⟩ := h
  have hround := self.events.round_spec MonitorEvent.pick advertisementGone
  rw [AdvertisementFeed.turn]
  split
  · exact ⟨gone, horder, hgone⟩
  · dsimp only
    generalize self.events.round MonitorEvent.pick advertisementGone = result at hround ⊢
    cases hround with
    | @skipped message queue hqueue hpick =>
        have hwaiting : self.waiting = queue.filterMap MonitorEvent.pick := by
          rw [AdvertisementFeed.waiting, hqueue, List.filterMap_cons_none hpick]
        rw [hwaiting] at horder
        refine ⟨gone, horder, ?_⟩
        intro hne
        rw [(hgone hne).1] at hqueue
        cases hqueue
    | @picked message queue polled hqueue hpick =>
        have hwaiting : self.waiting = polled :: queue.filterMap MonitorEvent.pick := by
          rw [AdvertisementFeed.waiting, hqueue, List.filterMap_cons_some hpick]
        have hfinding : isFinding polled = true := by
          cases message <;> cases hpick <;> rfl
        refine ⟨gone, ?_, ?_⟩
        · show (self.polls ++ [polled]).filter isFinding ++ queue.filterMap MonitorEvent.pick = _
          rw [List.filter_append, List.filter_cons_of_pos hfinding, List.append_assoc]
          rw [hwaiting] at horder
          exact horder
        · intro hne
          rw [(hgone hne).1] at hqueue
          cases hqueue
    | empty hqueue hopen =>
        refine ⟨gone, ?_, hgone⟩
        show (self.polls ++ [Except.ok none]).filter isFinding ++ self.waiting = _
        rw [List.filter_append, List.filter_cons_of_neg (by decide), List.filter_nil,
          List.append_nil]
        exact horder
    | gone hqueue hclosed =>
        have hwaiting : self.waiting = [] := by
          rw [AdvertisementFeed.waiting, hqueue, List.filterMap_nil]
        refine ⟨gone + 1, ?_, fun _ => ⟨hqueue, hclosed⟩⟩
        rw [hwaiting, List.append_nil] at horder
        show (self.polls ++ [advertisementGone]).filter isFinding ++ self.waiting =
          self.sent.filterMap MonitorEvent.pick ++ _
        rw [hwaiting, List.append_nil, List.replicate_succ', ← List.append_assoc, ← horder,
          List.filter_append]
        rfl

theorem step (h : FoundInOrder self) (hstep : AdvertisementFeed.Step self next) :
    FoundInOrder next := by
  cases hstep with
  | send event hopen =>
      obtain ⟨gone, horder, hgone⟩ := h
      have hnone : gone = 0 := by
        by_contra hne
        rw [(hgone hne).2] at hopen
        cases hopen
      subst hnone
      refine ⟨0, ?_, absurd rfl⟩
      show self.findings ++ (self.events.queue ++ [event]).filterMap MonitorEvent.pick =
        (self.sent ++ [event]).filterMap MonitorEvent.pick ++ []
      rw [List.filterMap_append, List.filterMap_append, List.append_nil, ← List.append_assoc]
      rw [List.replicate_zero, List.append_nil] at horder
      exact congrArg (· ++ _) horder
  | hangUp =>
      obtain ⟨gone, horder, hgone⟩ := h
      exact ⟨gone, horder, fun hne => ⟨(hgone hne).1, rfl⟩⟩
  | turn => exact h.turn

end FoundInOrder

/-- A poll returns nothing only when the channel is empty and open. -/
theorem empty_of_quiet {self next : AdvertisementFeed} (hstep : AdvertisementFeed.Step self next)
    (hquiet : next.polls = self.polls ++ [.ok none]) :
    next.events.queue = [] ∧ next.events.disconnected = false := by
  have hsame : self.polls ≠ self.polls ++ [.ok none] := by simp
  cases hstep with
  | send event hopen => exact absurd hquiet hsame
  | hangUp => exact absurd hquiet hsame
  | turn =>
      have hround := self.events.round_spec MonitorEvent.pick advertisementGone
      rw [AdvertisementFeed.turn] at hquiet ⊢
      split at hquiet
      · exact absurd hquiet hsame
      · next hpolling =>
          rw [if_neg hpolling]
          dsimp only at hquiet ⊢
          generalize self.events.round MonitorEvent.pick advertisementGone = result
            at hround hquiet ⊢
          cases hround with
          | skipped hqueue hpick => exact absurd hquiet hsame
          | @picked message queue polled hqueue hpick =>
              have hfinding : isFinding polled = true := by
                cases message <;> cases hpick <;> rfl
              have hnone : polled = .ok none :=
                (List.cons.inj (List.append_cancel_left hquiet)).1
              rw [hnone] at hfinding
              cases hfinding
          | empty hqueue hopen => exact ⟨hqueue, hopen⟩
          | gone hqueue hgone => cases (List.append_cancel_left hquiet)

/-- An advertisement reports the changes of its name and the errors of the daemon in the order
they were sent and once each, and a poll that finds nothing leaves nothing behind. -/
theorem advertisement_polls_in_order {feed : AdvertisementFeed}
    (h : advertisementFeed.Reachable feed) :
    FoundInOrder feed ∧
      ∀ next, AdvertisementFeed.Step feed next → next.polls = feed.polls ++ [.ok none] →
        next.findings = next.sent.filterMap MonitorEvent.pick := by
  have hinv : FoundInOrder feed := by
    refine TSys.invariant ?_ ?_ h
    · intro feed hinit
      rw [hinit]
      exact ⟨0, rfl, absurd rfl⟩
    · intro feed next h hstep
      exact h.step hstep
  refine ⟨hinv, ?_⟩
  intro next hstep hquiet
  obtain ⟨hqueue, hopen⟩ := empty_of_quiet hstep hquiet
  obtain ⟨gone, horder, hgone⟩ := hinv.step hstep
  have hnone : gone = 0 := by
    by_contra hne
    rw [(hgone hne).2] at hopen
    cases hopen
  rw [AdvertisementFeed.waiting, hqueue, hnone, List.filterMap_nil, List.append_nil,
    List.replicate_zero, List.append_nil] at horder
  exact horder

/-- A daemon changes a name, fails once and hangs up, and all of it is polled. -/
theorem advertisement_polls_in_order_changed :
    let renamed := { AdvertisementFeed.start with
      events := AdvertisementFeed.start.events.send (.nameChange ['a'] ['b'])
      sent := [.nameChange ['a'] ['b']] }.turn.turn
    let failed := { renamed with
      events := renamed.events.send (.error ⟨"no socket".toList⟩)
      sent := renamed.sent ++ [MonitorEvent.error ⟨"no socket".toList⟩] }
    let feed := { failed with events := failed.events.hangUp }.turn.turn.turn.turn
    (FoundInOrder feed ∧
      ∀ next, AdvertisementFeed.Step feed next → next.polls = feed.polls ++ [.ok none] →
        next.findings = next.sent.filterMap MonitorEvent.pick) ∧
    feed.polls = [Except.ok (some (.nameChanged ['a'] ['b'])),
      Except.error (.ofDaemon .daemon (.mdns ⟨"no socket".toList⟩)), advertisementGone] := by
  refine ⟨advertisement_polls_in_order ?_, rfl⟩
  have hstarted : advertisementFeed.Reachable .start := .init rfl
  have hrenamed := ((hstarted.step (.send (.nameChange ['a'] ['b']) rfl)).step .turn).step .turn
  have hfailed := (hrenamed.step (.send (.error ⟨"no socket".toList⟩) rfl)).step .hangUp
  exact (((hfailed.step .turn).step .turn).step .turn).step .turn

end LocalTransfer
