import LocalTransfer.Discovery.Browser

/-!
# The mDNS backend

`MdnsBrowserBackend` of `browser.rs` over the two channels of its daemon, and the
conversion of a resolved service. The monitor's channel is read first, so a failing
daemon is reported before anything it found. Once the channel of services is
disconnected and drained, every later poll yields a daemon error.
-/

namespace LocalTransfer

open Lib

/-! ## Resolved services -/

inductive ScopedIp
  | v4 (address : BitVec 32)
  | v6 (address : BitVec 128) (scopeIndex : UInt32)
  | other

/-- A resolution as the mDNS library reports it. -/
structure ResolvedService where
  fullname : Text
  port : UInt16
  properties : List (Text × Option Bytes)
  addresses : List ScopedIp

def ScopedIp.endpoint : ScopedIp → Option DiscoveryEndpoint
  | .v4 address => some ⟨.v4 address, none⟩
  | .v6 address scopeIndex => some ⟨.v6 address, some scopeIndex⟩
  | .other => none

def rawService (service : ResolvedService) : Except DiscoveryBrowserError RawResolvedService := do
  let key ← TransientDiscoveryKey.new service.fullname
  let txt ← (service.properties.mapM fun property =>
      DiscoveryTxtEntry.new property.1 (property.2.getD [])).mapError fun source =>
    .forKeyWithSource .metadata key source
  .ok {
    fullname := service.fullname
    port := service.port
    endpoints := service.addresses.filterMap ScopedIp.endpoint
    txt }

/-! ## Channels -/

inductive ServiceEvent
  | serviceResolved (service : ResolvedService)
  | serviceRemoved (fullname : Text)
  | other

inductive DaemonEvent
  | error (source : MdnsError)
  | other

/-- The messages a channel still holds, and whether all its senders are gone. -/
structure Receiver (α : Type) where
  queue : List α
  disconnected : Bool

/-- Receives until `pick` takes a message: nothing if the channel is empty, `gone` if it is
disconnected as well. -/
def Receiver.poll {α β : Type} (pick : α → Option β) (gone : β) (disconnected : Bool) :
    List α → Option β × List α
  | [] => (if disconnected then some gone else none, [])
  | message :: queue =>
      match pick message with
      | some picked => (some picked, queue)
      | none => poll pick gone disconnected queue

/-- An error that the daemon has reported. -/
def daemonError (source : MdnsError) : RawBrowserEvent :=
  .error (.withSource .daemon (.mdns source))

/-- The error of a daemon that is gone. -/
def daemonGoneError : RawBrowserEvent := .error (.withSource .daemon .disconnected)

structure MdnsBrowserBackend where
  services : Receiver ServiceEvent
  daemonEvents : Receiver DaemonEvent

namespace MdnsBrowserBackend

def pollDaemonError (self : MdnsBrowserBackend) : Option RawBrowserEvent × MdnsBrowserBackend :=
  let pick : DaemonEvent → Option RawBrowserEvent
    | .error source => some (daemonError source)
    | .other => none
  let (error, queue) :=
    Receiver.poll pick daemonGoneError self.daemonEvents.disconnected self.daemonEvents.queue
  (error, { self with daemonEvents := { self.daemonEvents with queue } })

def pollEvent (self : MdnsBrowserBackend) : Option RawBrowserEvent × MdnsBrowserBackend :=
  match self.pollDaemonError with
  | (some error, self) => (some error, self)
  | (none, self) =>
      let pick : ServiceEvent → Option RawBrowserEvent
        | .serviceResolved service =>
            match rawService service with
            | .ok resolved => some (.resolved resolved)
            | .error error => some (.error error)
        | .serviceRemoved fullname => some (.removed fullname)
        | .other => none
      let (event, queue) :=
        Receiver.poll pick daemonGoneError self.services.disconnected self.services.queue
      (event, { self with services := { self.services with queue } })

/-- The polls of a backend that nothing reaches any more. -/
def polls (self : MdnsBrowserBackend) : Nat → Option RawBrowserEvent
  | 0 => self.pollEvent.1
  | n + 1 => self.pollEvent.2.polls n

/-- A poll of the monitor yields an error it holds, or that the daemon is gone. -/
theorem pollDaemonError_spec (self : MdnsBrowserBackend) :
    (self.pollDaemonError.1 = none ∨
      (∃ source, self.pollDaemonError.1 = some (daemonError source)) ∨
      self.pollDaemonError.1 = some daemonGoneError) ∧
      self.pollDaemonError.2.services = self.services := by
  refine ⟨?_, rfl⟩
  rw [pollDaemonError]
  dsimp only
  induction self.daemonEvents.queue with
  | nil =>
      rw [Receiver.poll]
      split
      · exact .inr (.inr rfl)
      · exact .inl rfl
  | cons message queue ih =>
      cases message with
      | error source => exact .inr (.inl ⟨source, rfl⟩)
      | other => exact ih

/-- A poll of a disconnected, drained channel yields an error and leaves it as it was. -/
theorem pollEvent_of_disconnected {self : MdnsBrowserBackend} (hqueue : self.services.queue = [])
    (hgone : self.services.disconnected = true) :
    (∃ error, self.pollEvent.1 = some (.error error)) ∧
      self.pollEvent.2.services = self.services := by
  obtain ⟨herror, hservices⟩ := pollDaemonError_spec self
  rw [pollEvent]
  generalize self.pollDaemonError = polled at herror hservices
  obtain ⟨error, next⟩ := polled
  rcases herror with rfl | ⟨source, rfl⟩ | rfl
  · -- the monitor is silent: the drained channel answers
    dsimp only at hservices ⊢
    rw [hservices, hqueue, hgone]
    refine ⟨⟨_, rfl⟩, ?_⟩
    obtain ⟨⟨queue, disconnected⟩, daemonEvents⟩ := self
    cases hqueue
    cases hgone
    rfl
  · exact ⟨⟨_, rfl⟩, hservices⟩
  · exact ⟨⟨_, rfl⟩, hservices⟩

/-- A disconnected backend never falls silent. -/
theorem polls_of_disconnected {self : MdnsBrowserBackend} (hqueue : self.services.queue = [])
    (hgone : self.services.disconnected = true) (n : Nat) :
    ∃ error, self.polls n = some (.error error) := by
  induction n generalizing self with
  | zero => exact (pollEvent_of_disconnected hqueue hgone).1
  | succ n ih =>
      have hnext := (pollEvent_of_disconnected hqueue hgone).2
      rw [polls]
      apply ih
      · rw [hnext, hqueue]
      · rw [hnext, hgone]

end MdnsBrowserBackend

end LocalTransfer
