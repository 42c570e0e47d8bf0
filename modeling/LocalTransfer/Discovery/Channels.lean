import LocalTransfer.Discovery.Sessions
import LocalTransfer.Lib.Interleave

/-!
# The channels of the daemon

The polls of a browser, one `try_recv` at a time, while the daemon goes on sending and may hang
up at any moment. Whatever the order, the polls hand over each message about a service and each
error of the daemon once and in the order they were sent, and a poll that finds nothing has left
no service behind (`browser_polls_in_order`). A poll that nothing interferes with is one of
`Backend` (`Feed.turns_pollEvent`).
-/

namespace LocalTransfer

open Lib

/-! ## Receivers -/

inductive TryRecv (α : Type)
  | ok (message : α)
  | empty
  | disconnected

namespace Receiver

variable {α β : Type}

def new : Receiver α := ⟨[], false⟩

def tryRecv (self : Receiver α) : TryRecv α × Receiver α :=
  match self.queue with
  | [] => (if self.disconnected then .disconnected else .empty, self)
  | message :: queue => (.ok message, { self with queue })

/-- One round of a loop that receives: none if it goes on, else what it ends with. -/
def round (pick : α → Option β) (gone : β) (self : Receiver α) :
    Option (Option β) × Receiver α :=
  match self.tryRecv with
  | (.ok message, self) => ((pick message).map some, self)
  | (.empty, self) => (some none, self)
  | (.disconnected, self) => (some (some gone), self)

def send (self : Receiver α) (message : α) : Receiver α :=
  { self with queue := self.queue ++ [message] }

def hangUp (self : Receiver α) : Receiver α := { self with disconnected := true }

/-- What a round does. -/
inductive Round (pick : α → Option β) (gone : β) (self : Receiver α) :
    Option (Option β) × Receiver α → Prop
  | skipped {message queue} : self.queue = message :: queue → pick message = none →
      Round pick gone self (none, { self with queue })
  | picked {message queue picked} : self.queue = message :: queue → pick message = some picked →
      Round pick gone self (some (some picked), { self with queue })
  | empty : self.queue = [] → self.disconnected = false → Round pick gone self (some none, self)
  | gone : self.queue = [] → self.disconnected = true →
      Round pick gone self (some (some gone), self)

theorem round_spec (pick : α → Option β) (gone : β) (self : Receiver α) :
    Round pick gone self (self.round pick gone) := by
  cases hqueue : self.queue with
  | nil =>
      cases hgone : self.disconnected with
      | false =>
          simp only [round, tryRecv, hqueue, hgone, Bool.false_eq_true, if_false]
          exact .empty hqueue hgone
      | true =>
          simp only [round, tryRecv, hqueue, hgone, if_true]
          exact .gone hqueue hgone
  | cons message queue =>
      simp only [round, tryRecv, hqueue]
      cases hpick : pick message with
      | none => exact .skipped hqueue hpick
      | some picked => exact .picked hqueue hpick

end Receiver

/-! ## The polls of a browser -/

/-- What a poll makes of a message about services. -/
def ServiceEvent.pick : ServiceEvent → Option RawBrowserEvent
  | .serviceResolved service =>
      match rawService service with
      | .ok resolved => some (.resolved resolved)
      | .error error => some (.error error)
  | .serviceRemoved fullname => some (.removed fullname)
  | .other => none

def DaemonEvent.pick : DaemonEvent → Option RawBrowserEvent
  | .error source => some (daemonError source)
  | .other => none

/-- Where a poll is: in the loop of `poll_daemon_error`, or in its own. -/
inductive Polling
  | idle
  | monitor
  | services
  deriving DecidableEq, Repr

/-- A browser over its backend, with what the daemon has sent and what the polls have
returned. -/
structure Feed where
  backend : MdnsBrowserBackend
  polling : Polling
  browser : DiscoveryBrowser
  sent : List ServiceEvent
  reported : List DaemonEvent
  polls : List (Option RawBrowserEvent)
  events : List DiscoveryBrowserEvent

namespace Feed

def start : Feed := ⟨⟨.new, .new⟩, .idle, .start, [], [], [], []⟩

/-- A poll of the backend returns, and the browser translates what it has. -/
def finish (self : Feed) (raw : Option RawBrowserEvent) : Feed :=
  let (event, browser) := self.browser.pollEvent raw
  { self with polling := .idle, browser, polls := self.polls ++ [raw],
              events := self.events ++ event.toList }

/-- A poll begins, or receives once. -/
def turn (self : Feed) : Feed :=
  match self.polling with
  | .idle => { self with polling := .monitor }
  | .monitor =>
      let (round, daemonEvents) :=
        self.backend.daemonEvents.round DaemonEvent.pick daemonGoneError
      let self := { self with backend := { self.backend with daemonEvents } }
      match round with
      | none => self
      | some none => { self with polling := .services }
      | some (some error) => self.finish (some error)
  | .services =>
      let (round, services) := self.backend.services.round ServiceEvent.pick daemonGoneError
      let self := { self with backend := { self.backend with services } }
      match round with
      | none => self
      | some raw => self.finish raw

def send (self : Feed) (event : ServiceEvent) : Feed :=
  { self with backend := { self.backend with services := self.backend.services.send event },
              sent := self.sent ++ [event] }

def report (self : Feed) (event : DaemonEvent) : Feed :=
  { self with
    backend := { self.backend with daemonEvents := self.backend.daemonEvents.send event },
    reported := self.reported ++ [event] }

/-- The daemon sends, or hangs up, or the browser goes on polling. -/
inductive Step : Feed → Feed → Prop
  | send {self : Feed} (event : ServiceEvent) : self.backend.services.disconnected = false →
      Step self (self.send event)
  | report {self : Feed} (event : DaemonEvent) :
      self.backend.daemonEvents.disconnected = false → Step self (self.report event)
  | hangUpServices {self : Feed} : Step self
      { self with backend := { self.backend with services := self.backend.services.hangUp } }
  | hangUpMonitor {self : Feed} : Step self
      { self with
        backend := { self.backend with daemonEvents := self.backend.daemonEvents.hangUp } }
  | turn {self : Feed} : Step self self.turn

end Feed

/-- Every run of a browser that has just been started. -/
def browserFeed : TSys Feed where
  init feed := feed = .start
  step := Feed.Step

/-! ### Without interference -/

namespace Feed

variable {self : Feed}

/-- The loop of `poll_daemon_error` returns what it returns as one step. -/
theorem turns_monitor (hpolling : self.polling = .monitor) :
    ∃ n, Nat.iterate turn n self =
      match self.backend.pollDaemonError with
      | (some error, backend) => { self with backend }.finish (some error)
      | (none, backend) => { self with backend, polling := .services } := by
  obtain ⟨⟨services, ⟨queue, disconnected⟩⟩, polling, browser, sent, reported, polls, events⟩ :=
    self
  cases hpolling
  induction queue with
  | nil => cases disconnected <;> exact ⟨1, rfl⟩
  | cons message queue ih =>
      cases message with
      | error source => exact ⟨1, rfl⟩
      | other =>
          obtain ⟨n, hn⟩ := ih
          exact ⟨n + 1, hn⟩

/-- The loop of `poll_event`. -/
theorem turns_services (hpolling : self.polling = .services) :
    ∃ n, Nat.iterate turn n self =
      let (event, queue) := Receiver.poll ServiceEvent.pick daemonGoneError
        self.backend.services.disconnected self.backend.services.queue
      { self with backend := { self.backend with
          services := { self.backend.services with queue } } }.finish event := by
  obtain ⟨⟨⟨queue, disconnected⟩, daemonEvents⟩, polling, browser, sent, reported, polls,
    events⟩ := self
  cases hpolling
  induction queue with
  | nil => cases disconnected <;> exact ⟨1, rfl⟩
  | cons message queue ih =>
      rw [Receiver.poll]
      cases hpick : message.pick with
      | some picked =>
          refine ⟨1, ?_⟩
          rw [Function.iterate_one]
          simp only [turn, Receiver.round, Receiver.tryRecv, hpick, Option.map_some]
      | none =>
          obtain ⟨n, hn⟩ := ih
          refine ⟨n + 1, ?_⟩
          rw [← hn, Function.iterate_succ_apply]
          simp only [turn, Receiver.round, Receiver.tryRecv, hpick, Option.map_none]

/-- A poll that nothing interferes with is a poll of the backend in one step. -/
theorem turns_pollEvent (hpolling : self.polling = .idle) :
    ∃ n, Nat.iterate turn n self =
      { self with backend := self.backend.pollEvent.2 }.finish self.backend.pollEvent.1 := by
  have hbegin : turn self = { self with polling := .monitor } := by rw [turn, hpolling]
  have hservices := (self.backend.pollDaemonError_spec).2
  obtain ⟨n, hmonitor⟩ := @turns_monitor { self with polling := .monitor } rfl
  rw [MdnsBrowserBackend.pollEvent]
  generalize self.backend.pollDaemonError = polled at hmonitor ⊢
  obtain ⟨error, backend⟩ := polled
  cases error with
  | some error =>
      refine ⟨n + 1, ?_⟩
      rw [Function.iterate_succ_apply, hbegin, hmonitor]
      rfl
  | none =>
      obtain ⟨n', hloop⟩ := @turns_services { self with backend, polling := .services } rfl
      refine ⟨n' + (n + 1), ?_⟩
      rw [Function.iterate_add_apply, Function.iterate_succ_apply, hbegin, hmonitor]
      exact hloop

end Feed

/-! ## In order, once -/

/-- An error of the daemon itself. -/
def RawBrowserEvent.fromDaemon : RawBrowserEvent → Bool
  | .error source => source.kind = .daemon
  | .resolved _ | .removed _ => false

/-- The error that the daemon is gone. -/
def RawBrowserEvent.tellsGone : RawBrowserEvent → Bool
  | .error source => source = .withSource .daemon .disconnected
  | .resolved _ | .removed _ => false

/-- An error that the daemon has reported. -/
def RawBrowserEvent.isReport (raw : RawBrowserEvent) : Bool := raw.fromDaemon && !raw.tellsGone

theorem RawBrowserEvent.tellsGone_eq_false {raw : RawBrowserEvent} (h : raw.fromDaemon = false) :
    raw.tellsGone = false := by
  cases raw with
  | error source =>
      have hne : source ≠ .withSource .daemon .disconnected := by
        rintro rfl
        cases h
      exact decide_eq_false hne
  | resolved service => rfl
  | removed fullname => rfl

@[simp] theorem fromDaemon_daemonError (source : MdnsError) :
    (daemonError source).fromDaemon = true := rfl

@[simp] theorem tellsGone_daemonError (source : MdnsError) :
    (daemonError source).tellsGone = false := by
  simp [daemonError, RawBrowserEvent.tellsGone, DiscoveryBrowserError.withSource]

@[simp] theorem fromDaemon_daemonGoneError : daemonGoneError.fromDaemon = true := rfl

@[simp] theorem tellsGone_daemonGoneError : daemonGoneError.tellsGone = true := by decide

theorem rawService_error_kind {service : ResolvedService} {error : DiscoveryBrowserError}
    (h : rawService service = .error error) : error.kind ≠ .daemon := by
  rw [rawService] at h
  cases hkey : TransientDiscoveryKey.new service.fullname with
  | error malformed =>
      rw [hkey] at h
      cases h
      rw [TransientDiscoveryKey.new_eq_error hkey]
      decide
  | ok key =>
      rw [hkey] at h
      dsimp only [bind, Except.bind] at h
      split at h
      · next rejected htxt =>
          cases h
          cases hmap : service.properties.mapM fun property =>
              DiscoveryTxtEntry.new property.1 (property.2.getD []) with
          | error source =>
              rw [hmap] at htxt
              cases htxt
              simp [DiscoveryBrowserError.forKeyWithSource]
          | ok txt =>
              rw [hmap] at htxt
              cases htxt
      · cases h

/-- What is said of a service is never an error of the daemon. -/
theorem ServiceEvent.pick_fromDaemon {event : ServiceEvent} {raw : RawBrowserEvent}
    (h : event.pick = some raw) : raw.fromDaemon = false := by
  cases event with
  | serviceResolved service =>
      simp only [pick] at h
      split at h
      · cases h
        rfl
      · next error herror =>
          cases h
          exact decide_eq_false (rawService_error_kind herror)
  | serviceRemoved fullname =>
      cases h
      rfl
  | other => cases h

theorem DaemonEvent.pick_eq {event : DaemonEvent} {raw : RawBrowserEvent}
    (h : event.pick = some raw) : ∃ source, raw = daemonError source := by
  cases event with
  | error source => exact ⟨source, (Option.some.inj h).symm⟩
  | other => cases h

/-- A channel that holds nothing and that all its senders have left. -/
def Receiver.Drained {α : Type} (self : Receiver α) : Prop :=
  self.queue = [] ∧ self.disconnected = true

namespace Feed

/-- What the polls have found. -/
def found (self : Feed) : List RawBrowserEvent := self.polls.filterMap id

/-- What they have found of services. -/
def delivered (self : Feed) : List RawBrowserEvent :=
  self.found.filter fun raw => !raw.fromDaemon

/-- The errors they have found that the daemon reported. -/
def failures (self : Feed) : List RawBrowserEvent := self.found.filter RawBrowserEvent.isReport

/-- The messages about services that wait in the channel. -/
def waiting (self : Feed) : List RawBrowserEvent :=
  self.backend.services.queue.filterMap ServiceEvent.pick

/-- The errors of the daemon that wait in the channel. -/
def pending (self : Feed) : List RawBrowserEvent :=
  self.backend.daemonEvents.queue.filterMap DaemonEvent.pick

/-- One of the channels is drained. -/
def Gone (self : Feed) : Prop :=
  self.backend.services.Drained ∨ self.backend.daemonEvents.Drained

end Feed

/-- What was sent of services has been delivered or waits, and what was reported of errors has
been found or waits, both in order and once; a poll tells that the daemon is gone only if a
channel is drained; and the browser has translated what was found. -/
structure PolledInOrder (feed : Feed) : Prop where
  order : feed.delivered ++ feed.waiting = feed.sent.filterMap ServiceEvent.pick
  errors : feed.failures ++ feed.pending = feed.reported.filterMap DaemonEvent.pick
  gone : feed.found.any RawBrowserEvent.tellsGone = true → feed.Gone
  active : feed.browser.active = true
  translated : (feed.events, feed.browser.state) = BrowserState.default.translateAll feed.found

section Steps

variable {self : Feed}

theorem Feed.found_finish (raw : Option RawBrowserEvent) :
    (self.finish raw).found = self.found ++ raw.toList := by
  show (self.polls ++ [raw]).filterMap id = _
  rw [List.filterMap_append]
  cases raw <;> rfl

/-- A poll that returns hands over what it took from a channel. -/
theorem PolledInOrder.finish {raw : Option RawBrowserEvent} (hactive : self.browser.active = true)
    (htranslated : (self.events, self.browser.state) =
      BrowserState.default.translateAll self.found)
    (horder : (self.found ++ raw.toList).filter (fun raw => !raw.fromDaemon) ++ self.waiting =
      self.sent.filterMap ServiceEvent.pick)
    (herrors : (self.found ++ raw.toList).filter RawBrowserEvent.isReport ++ self.pending =
      self.reported.filterMap DaemonEvent.pick)
    (hgone : (self.found ++ raw.toList).any RawBrowserEvent.tellsGone = true → self.Gone) :
    PolledInOrder (self.finish raw) := by
  have hfound := @Feed.found_finish self raw
  refine ⟨?_, ?_, ?_, ?_, ?_⟩
  · rw [Feed.delivered, hfound]
    exact horder
  · rw [Feed.failures, hfound]
    exact herrors
  · rw [hfound]
    exact hgone
  · exact (self.browser.pollEvent_active raw).trans hactive
  · rw [hfound]
    cases raw with
    | none =>
        have hsame : self.browser.pollEvent none = (none, self.browser) := by
          rw [DiscoveryBrowser.pollEvent, if_neg (by simp [hactive])]
        show (self.events ++ (self.browser.pollEvent none).1.toList,
          (self.browser.pollEvent none).2.state) = _
        rw [hsame, Option.toList_none, List.append_nil, Option.toList_none, List.append_nil]
        exact htranslated
    | some raw =>
        have htaken : self.browser.pollEvent (some raw) = ((self.browser.state.translate raw).1,
            { self.browser with state := (self.browser.state.translate raw).2 }) := by
          rw [DiscoveryBrowser.pollEvent, if_neg (by simp [hactive])]
        show (self.events ++ (self.browser.pollEvent (some raw)).1.toList,
          (self.browser.pollEvent (some raw)).2.state) = _
        rw [htaken, Option.toList_some, BrowserState.translateAll_concat, ← htranslated]

/-- What a poll finds of a service joins what is delivered. -/
theorem found_delivered (found : List RawBrowserEvent) {raw : RawBrowserEvent}
    (h : raw.fromDaemon = false) :
    (found ++ [raw]).filter (fun raw => !raw.fromDaemon) =
        found.filter (fun raw => !raw.fromDaemon) ++ [raw] ∧
      (found ++ [raw]).filter RawBrowserEvent.isReport = found.filter RawBrowserEvent.isReport ∧
      (found ++ [raw]).any RawBrowserEvent.tellsGone = found.any RawBrowserEvent.tellsGone := by
  simp [List.filter_append, RawBrowserEvent.isReport, h, RawBrowserEvent.tellsGone_eq_false h]

/-- An error that the daemon reported joins the failures. -/
theorem found_reported (found : List RawBrowserEvent) (source : MdnsError) :
    (found ++ [daemonError source]).filter (fun raw => !raw.fromDaemon) =
        found.filter (fun raw => !raw.fromDaemon) ∧
      (found ++ [daemonError source]).filter RawBrowserEvent.isReport =
        found.filter RawBrowserEvent.isReport ++ [daemonError source] ∧
      (found ++ [daemonError source]).any RawBrowserEvent.tellsGone =
        found.any RawBrowserEvent.tellsGone := by
  simp [List.filter_append, RawBrowserEvent.isReport]

/-- That the daemon is gone joins neither. -/
theorem found_gone (found : List RawBrowserEvent) :
    (found ++ [daemonGoneError]).filter (fun raw => !raw.fromDaemon) =
        found.filter (fun raw => !raw.fromDaemon) ∧
      (found ++ [daemonGoneError]).filter RawBrowserEvent.isReport =
        found.filter RawBrowserEvent.isReport := by
  simp [List.filter_append, RawBrowserEvent.isReport]

/-- A poll that ends at a drained channel tells that the daemon is gone. -/
theorem PolledInOrder.tellGone (h : PolledInOrder self) (hgone : self.Gone) :
    PolledInOrder (self.finish (some daemonGoneError)) := by
  obtain ⟨hdelivered, hreported⟩ := found_gone self.found
  refine PolledInOrder.finish h.active h.translated ?_ ?_ fun _ => hgone
  · rw [Option.toList_some, hdelivered]
    exact h.order
  · rw [Option.toList_some, hreported]
    exact h.errors

theorem PolledInOrder.monitor (h : PolledInOrder self) (hpolling : self.polling = .monitor) :
    PolledInOrder self.turn := by
  have hround := self.backend.daemonEvents.round_spec DaemonEvent.pick daemonGoneError
  rw [Feed.turn, hpolling]
  dsimp only
  generalize self.backend.daemonEvents.round DaemonEvent.pick daemonGoneError = result
    at hround ⊢
  -- only a drained channel is gone, and this one still held a message
  have hgone : ∀ {message queue}, self.backend.daemonEvents.queue = message :: queue →
      self.found.any RawBrowserEvent.tellsGone = true → self.backend.services.Drained := by
    intro message queue hqueue htold
    rcases h.gone htold with hservices | hdaemon
    · exact hservices
    · rw [hdaemon.1] at hqueue
      cases hqueue
  cases hround with
  | @skipped message queue hqueue hpick =>
      have hpending : self.pending = queue.filterMap DaemonEvent.pick := by
        rw [Feed.pending, hqueue, List.filterMap_cons_none hpick]
      have herrors := h.errors
      rw [hpending] at herrors
      exact ⟨h.order, herrors, fun htold => .inl (hgone hqueue htold), h.active, h.translated⟩
  | @picked message queue picked hqueue hpick =>
      obtain ⟨source, rfl⟩ := DaemonEvent.pick_eq hpick
      have hpending : self.pending = daemonError source :: queue.filterMap DaemonEvent.pick := by
        rw [Feed.pending, hqueue, List.filterMap_cons_some hpick]
      obtain ⟨hdelivered, hreported, htold⟩ := found_reported self.found source
      refine PolledInOrder.finish h.active h.translated ?_ ?_ ?_
      · exact (congrArg (· ++ _) hdelivered).trans h.order
      · have herrors := h.errors
        rw [hpending] at herrors
        show (self.found ++ [daemonError source]).filter RawBrowserEvent.isReport ++
          queue.filterMap DaemonEvent.pick = _
        rw [hreported, List.append_assoc]
        exact herrors
      · intro h'
        exact .inl (hgone hqueue (htold.symm.trans h'))
  | empty hqueue hopen => exact ⟨h.order, h.errors, h.gone, h.active, h.translated⟩
  | gone hqueue hclosed => exact h.tellGone (.inr ⟨hqueue, hclosed⟩)

theorem PolledInOrder.services (h : PolledInOrder self) (hpolling : self.polling = .services) :
    PolledInOrder self.turn := by
  have hround := self.backend.services.round_spec ServiceEvent.pick daemonGoneError
  rw [Feed.turn, hpolling]
  dsimp only
  generalize self.backend.services.round ServiceEvent.pick daemonGoneError = result at hround ⊢
  have hgone : ∀ {message queue}, self.backend.services.queue = message :: queue →
      self.found.any RawBrowserEvent.tellsGone = true → self.backend.daemonEvents.Drained := by
    intro message queue hqueue htold
    rcases h.gone htold with hservices | hdaemon
    · rw [hservices.1] at hqueue
      cases hqueue
    · exact hdaemon
  cases hround with
  | @skipped message queue hqueue hpick =>
      have hwaiting : self.waiting = queue.filterMap ServiceEvent.pick := by
        rw [Feed.waiting, hqueue, List.filterMap_cons_none hpick]
      have horder := h.order
      rw [hwaiting] at horder
      exact ⟨horder, h.errors, fun htold => .inr (hgone hqueue htold), h.active, h.translated⟩
  | @picked message queue raw hqueue hpick =>
      have hwaiting : self.waiting = raw :: queue.filterMap ServiceEvent.pick := by
        rw [Feed.waiting, hqueue, List.filterMap_cons_some hpick]
      obtain ⟨hdelivered, hreported, htold⟩ :=
        found_delivered self.found (ServiceEvent.pick_fromDaemon hpick)
      refine PolledInOrder.finish h.active h.translated ?_ ?_ ?_
      · have horder := h.order
        rw [hwaiting] at horder
        show (self.found ++ [raw]).filter (fun raw => !raw.fromDaemon) ++
          queue.filterMap ServiceEvent.pick = _
        rw [hdelivered, List.append_assoc]
        exact horder
      · exact (congrArg (· ++ _) hreported).trans h.errors
      · intro h'
        exact .inr (hgone hqueue (htold.symm.trans h'))
  | empty hqueue hopen =>
      refine PolledInOrder.finish h.active h.translated ?_ ?_ ?_
      · rw [Option.toList_none, List.append_nil]
        exact h.order
      · rw [Option.toList_none, List.append_nil]
        exact h.errors
      · rw [Option.toList_none, List.append_nil]
        exact h.gone
  | gone hqueue hclosed => exact h.tellGone (.inl ⟨hqueue, hclosed⟩)

/-- Whatever the daemon does next, and wherever the poll is. -/
theorem PolledInOrder.step {next : Feed} (h : PolledInOrder self) (hstep : Feed.Step self next) :
    PolledInOrder next := by
  cases hstep with
  | send event hopen =>
      refine ⟨?_, h.errors, ?_, h.active, h.translated⟩
      · show self.delivered ++ (self.backend.services.queue ++ [event]).filterMap
            ServiceEvent.pick =
          (self.sent ++ [event]).filterMap ServiceEvent.pick
        rw [List.filterMap_append, List.filterMap_append, ← List.append_assoc]
        exact congrArg (· ++ _) h.order
      · intro htold
        rcases h.gone htold with hservices | hdaemon
        · cases hopen.symm.trans hservices.2
        · exact .inr hdaemon
  | report event hopen =>
      refine ⟨h.order, ?_, ?_, h.active, h.translated⟩
      · show self.failures ++
            (self.backend.daemonEvents.queue ++ [event]).filterMap DaemonEvent.pick =
          (self.reported ++ [event]).filterMap DaemonEvent.pick
        rw [List.filterMap_append, List.filterMap_append, ← List.append_assoc]
        exact congrArg (· ++ _) h.errors
      · intro htold
        rcases h.gone htold with hservices | hdaemon
        · exact .inl hservices
        · cases hopen.symm.trans hdaemon.2
  | hangUpServices =>
      refine ⟨h.order, h.errors, ?_, h.active, h.translated⟩
      intro htold
      rcases h.gone htold with hservices | hdaemon
      · exact .inl ⟨hservices.1, rfl⟩
      · exact .inr hdaemon
  | hangUpMonitor =>
      refine ⟨h.order, h.errors, ?_, h.active, h.translated⟩
      intro htold
      rcases h.gone htold with hservices | hdaemon
      · exact .inl hservices
      · exact .inr ⟨hdaemon.1, rfl⟩
  | turn =>
      cases hpolling : self.polling with
      | idle =>
          rw [Feed.turn, hpolling]
          exact ⟨h.order, h.errors, h.gone, h.active, h.translated⟩
      | monitor => exact h.monitor hpolling
      | services => exact h.services hpolling

/-- A poll returns nothing only when the channel of services is empty. -/
theorem waiting_of_quiet {next : Feed} (hstep : Feed.Step self next)
    (hquiet : next.polls = self.polls ++ [none]) : next.waiting = [] := by
  have hsame : self.polls ≠ self.polls ++ [none] := by simp
  cases hstep with
  | send event hopen => exact absurd hquiet hsame
  | report event hopen => exact absurd hquiet hsame
  | hangUpServices => exact absurd hquiet hsame
  | hangUpMonitor => exact absurd hquiet hsame
  | turn =>
      cases hpolling : self.polling with
      | idle =>
          rw [Feed.turn, hpolling] at hquiet
          exact absurd hquiet hsame
      | monitor =>
          have hround := self.backend.daemonEvents.round_spec DaemonEvent.pick daemonGoneError
          rw [Feed.turn, hpolling] at hquiet
          dsimp only at hquiet
          generalize self.backend.daemonEvents.round DaemonEvent.pick daemonGoneError = result
            at hround hquiet
          cases hround with
          | skipped hqueue hpick => exact absurd hquiet hsame
          | picked hqueue hpick =>
              cases (List.append_cancel_left hquiet)
          | empty hqueue hopen => exact absurd hquiet hsame
          | gone hqueue hgone =>
              cases (List.append_cancel_left hquiet)
      | services =>
          have hround := self.backend.services.round_spec ServiceEvent.pick daemonGoneError
          rw [Feed.turn, hpolling] at hquiet ⊢
          dsimp only at hquiet ⊢
          generalize self.backend.services.round ServiceEvent.pick daemonGoneError = result
            at hround hquiet ⊢
          cases hround with
          | skipped hqueue hpick => exact absurd hquiet hsame
          | picked hqueue hpick =>
              cases (List.append_cancel_left hquiet)
          | empty hqueue hopen =>
              show self.backend.services.queue.filterMap ServiceEvent.pick = []
              rw [hqueue, List.filterMap_nil]
          | gone hqueue hgone =>
              cases (List.append_cancel_left hquiet)

theorem polledInOrder_start : PolledInOrder .start :=
  ⟨rfl, rfl, fun h => (Bool.false_ne_true h).elim, rfl, rfl⟩

end Steps

/-- An error of the daemon changes no peer. -/
theorem translateAll_filter (self : BrowserState) (raws : List RawBrowserEvent) :
    (self.translateAll (raws.filter fun raw => !raw.fromDaemon)).2 =
      (self.translateAll raws).2 := by
  induction raws generalizing self with
  | nil => rfl
  | cons raw raws ih =>
      cases hdaemon : raw.fromDaemon with
      | false =>
          rw [List.filter_cons_of_pos (by simp [hdaemon]), BrowserState.translateAll,
            BrowserState.translateAll]
          exact ih _
      | true =>
          have hsame : (self.translate raw).2 = self := by
            cases raw with
            | error source => rfl
            | resolved service => cases hdaemon
            | removed fullname => cases hdaemon
          rw [List.filter_cons_of_neg (by simp [hdaemon]), BrowserState.translateAll]
          show _ = ((self.translate raw).2.translateAll raws).2
          rw [hsame]
          exact ih self

/-- In every run, whenever the daemon sends and hangs up: what was sent of services and what
was reported of errors has been found, in order and once, or waits; that the daemon is gone is
told only at a drained channel; and the events and the peers of the browser are what translating
says. A poll that finds nothing leaves no service behind. -/
theorem browser_polls_in_order {feed : Feed} (h : browserFeed.Reachable feed) :
    PolledInOrder feed ∧
      feed.browser.state = (BrowserState.default.translateAll feed.delivered).2 ∧
      ∀ next, Feed.Step feed next → next.polls = feed.polls ++ [none] →
        next.delivered = next.sent.filterMap ServiceEvent.pick := by
  have hinv : PolledInOrder feed := by
    refine TSys.invariant ?_ ?_ h
    · intro feed hinit
      rw [hinit]
      exact polledInOrder_start
    · intro feed next h hstep
      exact h.step hstep
  refine ⟨hinv, ?_, ?_⟩
  · rw [Feed.delivered, translateAll_filter, ← hinv.translated]
  · intro next hstep hquiet
    have hwaiting := waiting_of_quiet hstep hquiet
    rw [← (hinv.step hstep).order, hwaiting, List.append_nil]

/-- A browser polls while the daemon fails once, finds a printer, and hangs up. -/
theorem browser_polls_in_order_removed :
    let feed := ((Feed.start.report (.error ⟨"no socket".toList⟩)).send
      (.serviceRemoved "Printer".toList)).turn.turn.turn.turn.turn
    let last := { feed with
      backend := { feed.backend with services := feed.backend.services.hangUp } }.turn.turn.turn
    (PolledInOrder last ∧
      last.browser.state = (BrowserState.default.translateAll last.delivered).2 ∧
      ∀ next, Feed.Step last next → next.polls = last.polls ++ [none] →
        next.delivered = next.sent.filterMap ServiceEvent.pick) ∧
    last.found = [daemonError ⟨"no socket".toList⟩, .removed "Printer".toList,
      daemonGoneError] := by
  refine ⟨browser_polls_in_order ?_, rfl⟩
  have hstarted : browserFeed.Reachable .start := .init rfl
  have hsent := (hstarted.step (.report (.error ⟨"no socket".toList⟩) rfl)).step
    (.send (.serviceRemoved "Printer".toList) rfl)
  have hpolled := ((((hsent.step .turn).step .turn).step .turn).step .turn).step .turn
  exact (((hpolled.step .hangUpServices).step .turn).step .turn).step .turn

end LocalTransfer
