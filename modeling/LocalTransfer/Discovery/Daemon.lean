import LocalTransfer.Discovery.Sessions

/-!
# The mDNS daemon

`MdnsBrowserBackend` and `MdnsBackend` as programs over the requests they make of the mDNS
daemon, whose answers are anything. No life of a browser or an advertisement leaves a daemon
behind that was not asked to shut down, and a stop that reports success has seen the daemon
grant the withdrawal of the very service that was submitted and then confirm its end
(`browser_leaves_no_daemon`, `advertisement_leaves_no_daemon`).
-/

namespace LocalTransfer

open Lib

/-! ## Requests -/

inductive DaemonStatus
  | running
  | shutdown
  deriving DecidableEq, Repr

inductive UnregisterStatus
  | ok
  | notFound
  deriving DecidableEq, Repr

/-- A request to the daemon, a wait for its acknowledgement, or a poll of its channels. -/
inductive DaemonOp
  | serviceInfo (spec : ServiceSpec)
  | new
  | monitor
  | browse (serviceType : Text)
  | register (spec : ServiceSpec)
  | stopBrowse (serviceType : Text)
  | unregister (fullname : Text)
  | recvUnregister
  | shutdown
  | recvShutdown
  | pollServices
  | pollEvents

abbrev DaemonOp.Result : DaemonOp → Type
  | .recvUnregister => Except RecvTimeoutError UnregisterStatus
  | .recvShutdown => Except RecvTimeoutError DaemonStatus
  | .pollServices => Option RawBrowserEvent
  | .pollEvents => AdvertisementPoll
  | _ => Except MdnsError Unit

abbrev DaemonProg := Prog DaemonOp DaemonOp.Result

abbrev DaemonFallible (ε : Type) := Fallible DaemonOp DaemonOp.Result ε

section Shared

variable {ε : Type}

/-- Creates a daemon, watches it and submits a service to it. A daemon that cannot be used is
told to shut down. -/
def startWith (startup submission : DaemonErrorSource → ε)
    (submit : DaemonProg (Except MdnsError Unit)) : DaemonFallible ε Unit := do
  match (← call .new : Except MdnsError Unit) with
  | .error source => throw (startup (.mdns source))
  | .ok () =>
      match (← call .monitor : Except MdnsError Unit) with
      | .error source => do
          let _ ← call .shutdown
          throw (startup (.mdns source))
      | .ok () =>
          match ← ExceptT.lift submit with
          | .error source => do
              let _ ← call .shutdown
              throw (submission (.mdns source))
          | .ok () => pure ()

/-- Shuts the daemon down and waits for it. -/
def shutdownWith (withSource : DaemonErrorSource → ε) (withoutSource : ε) :
    DaemonFallible ε Unit := do
  match (← call .shutdown : Except MdnsError Unit) with
  | .error source => throw (withSource (.mdns source))
  | .ok () =>
      match (← call .recvShutdown : Except RecvTimeoutError DaemonStatus) with
      | .ok .shutdown => pure ()
      | .ok .running => throw withoutSource
      | .error source => throw (withSource (.recvTimeout source))

/-- Withdraws the service and shuts down, whatever came of the first, and reports the first
error. -/
def stopWith (withdraw shutdown : DaemonFallible ε Unit) : DaemonProg (Except ε Unit) :=
  withdraw.run.bind fun withdrawn => shutdown.run.bind fun ended =>
    .ret (withdrawn.bind fun _ => ended)

end Shared

/-! ## The backend of a browser -/

/-- The service type with its domain, as the browser asks for it. -/
def localServiceType : Text := "_local-transfer._tcp.local.".toList

/-- What `MdnsBrowserBackend::start` asserts: the browser asks for what is advertised. -/
example : localServiceType = discoveryServiceType ++ localDomainSuffix := by decide

namespace MdnsBrowserBackend

def start : DaemonFallible DiscoveryBrowserError Unit :=
  startWith (.withSource .initialization) (.withSource .browse)
    (.op (.browse localServiceType) .ret)

def shutdown : DaemonFallible DiscoveryBrowserError Unit :=
  shutdownWith (.withSource .shutdown) (.withoutSource .shutdown)

def stopBrowse : DaemonFallible DiscoveryBrowserError Unit := do
  match (← call (.stopBrowse localServiceType) : Except MdnsError Unit) with
  | .error source => throw (.withSource .stopBrowse (.mdns source))
  | .ok () => pure ()

def stop : DaemonProg (Except DiscoveryBrowserError Unit) := stopWith stopBrowse shutdown

def bestEffortStop : DaemonProg Unit :=
  .op (.stopBrowse localServiceType) fun _ => .op .shutdown fun _ => .ret ()

/-- The methods of the backend. -/
def method : (o : BackendOp) →
    DaemonProg (o.Result (Option RawBrowserEvent) DiscoveryBrowserError)
  | .pollEvent => .op .pollServices .ret
  | .stop => stop
  | .bestEffortStop => bestEffortStop

end MdnsBrowserBackend

/-- `DiscoveryBrowser::start`, the calls made on the browser, and its drop. -/
def DiscoveryBrowser.lifetime (calls : List SessionCall) : DaemonFallible DiscoveryBrowserError
    (List (SessionReply (Option DiscoveryBrowserEvent) DiscoveryBrowserError)) := do
  MdnsBrowserBackend.start
  ExceptT.lift ((DiscoveryBrowser.life calls).handle MdnsBrowserBackend.method)

/-! ## The backend of an advertisement -/

/-- An error that the daemon caused. -/
def DiscoveryAdvertisementError.ofDaemon (kind : DiscoveryAdvertisementErrorKind)
    (source : DaemonErrorSource) : DiscoveryAdvertisementError :=
  .withSource kind (.infrastructure source)

namespace MdnsBackend

def buildServiceInfo (spec : ServiceSpec) : DaemonFallible DiscoveryAdvertisementError Unit := do
  match (← call (.serviceInfo spec) : Except MdnsError Unit) with
  | .error source => throw (.ofDaemon .serviceConstruction (.mdns source))
  | .ok () => pure ()

def start (spec : ServiceSpec) : DaemonFallible DiscoveryAdvertisementError Unit := do
  buildServiceInfo spec
  startWith (.ofDaemon .daemonStartup) (.ofDaemon .registration) (.op (.register spec) .ret)

def unregister (fullname : Text) : DaemonFallible DiscoveryAdvertisementError Unit := do
  match (← call (.unregister fullname) : Except MdnsError Unit) with
  | .error source => throw (.ofDaemon .unregister (.mdns source))
  | .ok () =>
      match (← call .recvUnregister : Except RecvTimeoutError UnregisterStatus) with
      | .ok .ok | .ok .notFound => pure ()
      | .error source => throw (.ofDaemon .unregister (.recvTimeout source))

def shutdown : DaemonFallible DiscoveryAdvertisementError Unit :=
  shutdownWith (.ofDaemon .shutdown) (.withoutSource .shutdown)

def stop (fullname : Text) : DaemonProg (Except DiscoveryAdvertisementError Unit) :=
  stopWith (unregister fullname) shutdown

def bestEffortStop (fullname : Text) : DaemonProg Unit :=
  .op (.unregister fullname) fun _ => .op .shutdown fun _ => .ret ()

def method (fullname : Text) : (o : BackendOp) →
    DaemonProg (o.Result AdvertisementPoll DiscoveryAdvertisementError)
  | .pollEvent => .op .pollEvents .ret
  | .stop => stop fullname
  | .bestEffortStop => bestEffortStop fullname

end MdnsBackend

/-- `DiscoveryAdvertisement::start`, the calls made on the advertisement, and its drop. -/
def AdvertisementSession.lifetime (spec : ServiceSpec) (calls : List SessionCall) :
    DaemonFallible DiscoveryAdvertisementError
      (List (SessionReply AdvertisementPoll DiscoveryAdvertisementError)) := do
  MdnsBackend.start spec
  ExceptT.lift ((AdvertisementSession.life spec calls).handle (MdnsBackend.method spec.fullname))

/-! ## What becomes of a daemon -/

/-- Where the last request to withdraw a service is. -/
inductive Withdrawal
  | missing
  | requested
  | granted
  deriving DecidableEq, Repr

/-- How far a daemon is, which service it was given, where the withdrawal of that service is,
and whether it owes an answer to a request to shut down. -/
inductive DaemonState
  | absent
  | opened
  | monitored
  | serving (service : Text) (withdrawal : Withdrawal)
  | closing (service : Option Text) (withdrawal : Withdrawal) (owing : Bool)
  | closed
  deriving DecidableEq, Repr

namespace DaemonState

/-- The daemon of a session that has not stopped it, asked to shut down before or not. -/
def up (asked : Bool) (service : Text) (withdrawal : Withdrawal) : DaemonState :=
  if asked then .closing (some service) withdrawal false else .serving service withdrawal

/-- The service is asked to be withdrawn, and what was granted before no longer counts. -/
def withdraw (self : DaemonState) (service : Text) (withdrawal : Withdrawal) :
    Option DaemonState :=
  match self with
  | .serving held _ => if held = service then some (.serving held withdrawal) else none
  | .closing held _ false =>
      if held = some service then some (.closing held withdrawal false) else none
  | _ => none

/-- The pending request to withdraw the service is answered. -/
def answered (self : DaemonState) (granted : Bool) : Option DaemonState :=
  match self with
  | .serving held .requested => some (.serving held (if granted then .granted else .missing))
  | .closing held .requested false =>
      some (.closing held (if granted then .granted else .missing) false)
  | _ => none

/-- The daemon is asked to shut down, and owes an answer if it takes the request. -/
def shutdown (self : DaemonState) (taken : Bool) : Option DaemonState :=
  match self with
  | .opened | .monitored => some (.closing none .missing taken)
  | .serving held withdrawal => some (.closing (some held) withdrawal taken)
  | .closing held withdrawal false => some (.closing held withdrawal taken)
  | _ => none

/-- The answer that the daemon owes: it has ended or it has not. -/
def ended (self : DaemonState) (confirmed : Bool) : Option DaemonState :=
  match self with
  | .closing held withdrawal true =>
      some (if withdrawal = .granted ∧ confirmed then .closed
        else .closing held withdrawal false)
  | _ => none

/-- The channels are read; those of a closed daemon only if `pollsClosed`. -/
def polled (pollsClosed : Bool) : DaemonState → Option DaemonState
  | .serving held withdrawal => some (.serving held withdrawal)
  | .closing held withdrawal false => some (.closing held withdrawal false)
  | .closed => if pollsClosed then some .closed else none
  | _ => none

end DaemonState

/-- One daemon is created, watched and given one service, in this order. Only that service is
withdrawn, an answer is awaited only where a request is pending, and the daemon is closed once
it has granted the last withdrawal and then confirmed its end. A closed daemon is asked nothing
more. -/
def daemonLife (pollsClosed : Bool) : Monitor DaemonOp DaemonOp.Result DaemonState where
  next
    | .absent, .serviceInfo _, _ => some .absent
    | .absent, .new, .ok () => some .opened
    | .absent, .new, .error _ => some .absent
    | .opened, .monitor, .ok () => some .monitored
    | .opened, .monitor, .error _ => some .opened
    | .monitored, .browse serviceType, .ok () => some (.serving serviceType .missing)
    | .monitored, .register spec, .ok () => some (.serving spec.fullname .missing)
    | .monitored, .browse _, .error _ | .monitored, .register _, .error _ => some .monitored
    | left, .stopBrowse serviceType, granted =>
        left.withdraw serviceType (if granted.isOk then .granted else .missing)
    | left, .unregister fullname, taken =>
        left.withdraw fullname (if taken.isOk then .requested else .missing)
    | left, .recvUnregister, granted => left.answered granted.isOk
    | left, .shutdown, taken => left.shutdown taken.isOk
    | left, .recvShutdown, .ok .shutdown => left.ended true
    | left, .recvShutdown, _ => left.ended false
    | left, .pollServices, _ | left, .pollEvents, _ => left.polled pollsClosed
    | _, _, _ => none

namespace daemonLife

variable {pollsClosed : Bool} (left : DaemonState)

theorem next_stopBrowse (serviceType : Text) (granted : Except MdnsError Unit) :
    (daemonLife pollsClosed).next left (.stopBrowse serviceType) granted =
      left.withdraw serviceType (if granted.isOk then .granted else .missing) := by
  cases left <;> rfl

theorem next_unregister (fullname : Text) (taken : Except MdnsError Unit) :
    (daemonLife pollsClosed).next left (.unregister fullname) taken =
      left.withdraw fullname (if taken.isOk then .requested else .missing) := by
  cases left <;> rfl

theorem next_recvUnregister (granted : Except RecvTimeoutError UnregisterStatus) :
    (daemonLife pollsClosed).next left .recvUnregister granted = left.answered granted.isOk := by
  cases left <;> rfl

theorem next_shutdown (taken : Except MdnsError Unit) :
    (daemonLife pollsClosed).next left .shutdown taken = left.shutdown taken.isOk := by
  cases left <;> rfl

theorem next_pollServices (polled : Option RawBrowserEvent) :
    (daemonLife pollsClosed).next left .pollServices polled = left.polled pollsClosed := by
  cases left <;> rfl

theorem next_pollEvents (polled : AdvertisementPoll) :
    (daemonLife pollsClosed).next left .pollEvents polled = left.polled pollsClosed := by
  cases left <;> rfl

end daemonLife

namespace DaemonState

variable (asked : Bool) (service : Text) (withdrawal : Withdrawal)

theorem withdraw_up (next : Withdrawal) :
    (up asked service withdrawal).withdraw service next = some (up asked service next) := by
  cases asked <;> simp [up, withdraw]

theorem answered_up (granted : Bool) :
    (up asked service .requested).answered granted =
      some (up asked service (if granted then .granted else .missing)) := by
  cases asked <;> rfl

theorem shutdown_up (taken : Bool) :
    (up asked service withdrawal).shutdown taken =
      some (.closing (some service) withdrawal taken) := by
  cases asked <;> rfl

theorem polled_up (pollsClosed : Bool) :
    (up asked service withdrawal).polled pollsClosed = some (up asked service withdrawal) := by
  cases asked <;> rfl

end DaemonState

/-- A daemon that was given the service and has been asked to shut down. -/
def AskedToEnd (service : Option Text) (left : DaemonState) : Prop :=
  ∃ withdrawal owing, left = .closing service withdrawal owing

/-- How a start ends: with a daemon that serves, or with none, or with one that was given no
service and was asked to shut down. -/
def Started {ε : Type} (service : Text) : Except ε Unit → DaemonState → Prop
  | .ok (), left => left = .serving service .missing
  | .error _, left => left = .absent ∨ AskedToEnd none left

/-- How a stop ends: with a closed daemon if it succeeds, else with one that was asked to shut
down and owes nothing. -/
def Stopped {ε : Type} (service : Text) : Except ε Unit → DaemonState → Prop
  | .ok (), left => left = .closed
  | .error _, left => ∃ withdrawal, left = .up true service withdrawal

/-- No daemon is left running: one that was created has been asked to shut down, and it is
closed exactly if a stop succeeded. -/
structure LeftBehind {Event ε : Type} (service : Text)
    (result : Except ε (List (SessionReply Event ε))) (left : DaemonState) : Prop where
  closed : left = .closed ↔ ∃ replies, result = .ok replies ∧ .stopped (.ok ()) ∈ replies
  started : ∀ replies, result = .ok replies → left = .closed ∨ AskedToEnd (some service) left
  failed : ∀ error, result = .error error → left = .absent ∨ AskedToEnd none left

section Guarded

variable {ε : Type} {pollsClosed asked : Bool} {service : Text} {withdrawal : Withdrawal}

theorem startWith_guarded {startup submission : DaemonErrorSource → ε}
    {submit : DaemonProg (Except MdnsError Unit)}
    (hsubmit : (daemonLife pollsClosed).Guarded submit
      (fun r left => left = if r.isOk then .serving service .missing else .monitored)
      .monitored) :
    (daemonLife pollsClosed).Guarded (startWith startup submission submit).run (Started service)
      .absent := by
  intro created
  cases created with
  | error _ => exact ⟨.absent, rfl, .inl rfl⟩
  | ok _ =>
      refine ⟨.opened, rfl, ?_⟩
      intro watched
      cases watched with
      | error _ =>
          refine ⟨.opened, rfl, ?_⟩
          intro taken
          exact ⟨.closing none .missing taken.isOk, rfl, .inr ⟨_, _, rfl⟩⟩
      | ok _ =>
          refine ⟨.monitored, rfl, ?_⟩
          refine Monitor.Guarded.andThen (Monitor.Guarded.lift (hsubmit.mono ?_))
          intro submitted left h
          subst h
          cases submitted with
          | error _ =>
              intro taken
              exact ⟨.closing none .missing taken.isOk, rfl, .inr ⟨_, _, rfl⟩⟩
          | ok _ => rfl

/-- A shutdown closes a daemon that has granted the withdrawal, if it succeeds. -/
theorem shutdownWith_guarded {withSource : DaemonErrorSource → ε} {withoutSource : ε} :
    (daemonLife pollsClosed).Guarded (shutdownWith withSource withoutSource).run
      (fun r left => left =
        if withdrawal = .granted ∧ r.isOk then .closed else .up true service withdrawal)
      (.up asked service withdrawal) := by
  have hfailed : ∀ error : ε, DaemonState.up true service withdrawal =
      if withdrawal = .granted ∧ (Except.error error : Except ε Unit).isOk then .closed
      else .up true service withdrawal := by
    intro error
    exact (if_neg (by simp [Except.isOk, Except.toBool])).symm
  intro requested
  refine ⟨.closing (some service) withdrawal requested.isOk,
    (daemonLife.next_shutdown _ _).trans (DaemonState.shutdown_up asked service withdrawal _), ?_⟩
  cases requested with
  | error source => exact hfailed (withSource (.mdns source))
  | ok _ =>
      have hrunning : DaemonState.ended (.closing (some service) withdrawal true) false =
          some (.up true service withdrawal) := by
        simp [DaemonState.ended, DaemonState.up]
      intro status
      cases status with
      | error source => exact ⟨_, hrunning, hfailed (withSource (.recvTimeout source))⟩
      | ok status =>
          cases status with
          | running => exact ⟨_, hrunning, hfailed withoutSource⟩
          | shutdown => exact ⟨_, rfl, rfl⟩

theorem stopWith_guarded {withSource : DaemonErrorSource → ε} {withoutSource : ε}
    {withdraw : DaemonFallible ε Unit}
    (hwithdraw : (daemonLife pollsClosed).Guarded withdraw.run
      (fun r left => left = .up asked service (if r.isOk then .granted else .missing))
      (.up asked service withdrawal)) :
    (daemonLife pollsClosed).Guarded (stopWith withdraw (shutdownWith withSource withoutSource))
      (Stopped service) (.up asked service withdrawal) := by
  refine Monitor.Guarded.bind (hwithdraw.mono ?_)
  intro granted left h
  subst h
  refine Monitor.Guarded.bind (shutdownWith_guarded.mono ?_)
  intro ended left h
  subst h
  cases granted with
  | error _ => exact ⟨.missing, rfl⟩
  | ok _ =>
      cases ended with
      | error _ => exact ⟨.granted, rfl⟩
      | ok _ => rfl

end Guarded

/-! ## What a session knows of its daemon -/

/-- A daemon whose session owns this much of it. -/
def Ownership.Owns (service : Text) : Ownership → DaemonState → Prop
  | .held, left => ∃ asked withdrawal, left = .up asked service withdrawal
  | .stopped, left => left = .closed
  | .abandoned, left => AskedToEnd (some service) left

section Sessions

variable {Polled Event ε : Type} {pollsStopped : Bool} {service : Text}

/-- The methods of a backend move the daemon as the session expects of them. -/
theorem method_moves {poll : DaemonProg Polled} {stop : DaemonProg (Except ε Unit)}
    {bestEffortStop : DaemonProg Unit} (someEvent : Polled)
    (hpoll : ∀ left left', left.polled pollsStopped = some left' →
      (daemonLife pollsStopped).Guarded poll (fun _ last => last = left') left)
    (hstop : ∀ asked withdrawal, (daemonLife pollsStopped).Guarded stop (Stopped service)
      (.up asked service withdrawal))
    (hdrop : ∀ asked withdrawal, (daemonLife pollsStopped).Guarded bestEffortStop
      (fun _ left => AskedToEnd (some service) left) (.up asked service withdrawal))
    (method : (o : BackendOp) → DaemonProg (o.Result Polled ε))
    (hmethod : method .pollEvent = poll ∧ method .stop = stop ∧
      method .bestEffortStop = bestEffortStop)
    (o : BackendOp) (owned : Ownership) (left : DaemonState) (howns : owned.Owns service left)
    (hallowed : ∀ r, ∃ owned', (ownership Polled ε pollsStopped).next owned o r = some owned') :
    (daemonLife pollsStopped).Guarded (method o)
      (fun r left' => ∃ owned', (ownership Polled ε pollsStopped).next owned o r = some owned' ∧
        owned'.Owns service left') left := by
  obtain ⟨rfl, rfl, rfl⟩ := hmethod
  cases o with
  | pollEvent =>
      cases owned with
      | held =>
          obtain ⟨asked, withdrawal, rfl⟩ := howns
          refine (hpoll _ _ (DaemonState.polled_up asked service withdrawal _)).mono ?_
          intro r left h
          exact ⟨.held, rfl, asked, withdrawal, h⟩
      | stopped =>
          obtain ⟨owned', howned⟩ := hallowed someEvent
          have hpolls : pollsStopped = true := by
            cases pollsStopped with
            | true => rfl
            | false => cases howned
          subst hpolls
          subst howns
          refine (hpoll .closed .closed rfl).mono ?_
          intro r left h
          exact ⟨.stopped, rfl, h⟩
      | abandoned =>
          obtain ⟨owned', howned⟩ := hallowed someEvent
          cases howned
  | stop =>
      cases owned with
      | held =>
          obtain ⟨asked, withdrawal, rfl⟩ := howns
          refine (hstop asked withdrawal).mono ?_
          intro r left h
          cases r with
          | ok _ => exact ⟨.stopped, rfl, h⟩
          | error _ =>
              obtain ⟨withdrawal, rfl⟩ := h
              exact ⟨.held, rfl, true, withdrawal, rfl⟩
      | stopped =>
          obtain ⟨owned', howned⟩ := hallowed (.ok ())
          cases howned
      | abandoned =>
          obtain ⟨owned', howned⟩ := hallowed (.ok ())
          cases howned
  | bestEffortStop =>
      cases owned with
      | held =>
          obtain ⟨asked, withdrawal, rfl⟩ := howns
          refine (hdrop asked withdrawal).mono ?_
          intro r left h
          exact ⟨.abandoned, rfl, h⟩
      | stopped =>
          obtain ⟨owned', howned⟩ := hallowed ()
          cases howned
      | abandoned =>
          obtain ⟨owned', howned⟩ := hallowed ()
          cases howned

/-- A session over a daemon that serves leaves none behind. -/
theorem leftBehind_of_released {quiet : Event → Prop} {replies : List (SessionReply Event ε)}
    {owned : Ownership} {left : DaemonState} (howns : owned.Owns service left)
    (h : Released quiet replies owned) : LeftBehind service (.ok replies : Except ε _) left := by
  constructor
  · constructor
    · intro hclosed
      refine ⟨replies, rfl, h.stopped.mp ?_⟩
      cases owned with
      | held => exact absurd rfl h.released
      | stopped => rfl
      | abandoned =>
          obtain ⟨withdrawal, owing, hclosing⟩ := howns
          rw [hclosed] at hclosing
          cases hclosing
    · intro hstopped
      obtain ⟨replies', hreplies, hmem⟩ := hstopped
      cases hreplies
      rw [h.stopped.mpr hmem] at howns
      exact howns
  · intro _ _
    cases owned with
    | held => exact absurd rfl h.released
    | stopped => exact .inl howns
    | abandoned => exact .inr howns
  · intro error herror
    cases herror

/-- Nor does a session that could not be started. -/
theorem leftBehind_of_failed {error : ε} {left : DaemonState}
    (h : left = .absent ∨ AskedToEnd none left) :
    LeftBehind service (.error error : Except ε (List (SessionReply Event ε))) left := by
  constructor
  · constructor
    · intro hclosed
      rcases h with h | ⟨withdrawal, owing, h⟩ <;> cases hclosed.symm.trans h
    · intro hstopped
      obtain ⟨replies, hreplies, -⟩ := hstopped
      cases hreplies
  · intro replies hreplies
    cases hreplies
  · intro _ _
    exact h

/-- A session that starts with its daemon leaves none behind, if it is released. -/
theorem lifetime_guarded {start : DaemonFallible ε Unit} {quiet : Event → Prop}
    {life : BackendProg Polled ε (List (SessionReply Event ε))}
    {method : (o : BackendOp) → DaemonProg (o.Result Polled ε)}
    (hstart : (daemonLife pollsStopped).Guarded start.run (Started service) .absent)
    (hmethod : ∀ o owned left, owned.Owns service left →
      (∀ r, ∃ owned', (ownership Polled ε pollsStopped).next owned o r = some owned') →
      (daemonLife pollsStopped).Guarded (method o)
        (fun r left' => ∃ owned', (ownership Polled ε pollsStopped).next owned o r = some owned' ∧
          owned'.Owns service left') left)
    (hlife : (ownership Polled ε pollsStopped).Guarded life
      (fun replies owned => Released quiet replies owned) .held) :
    (daemonLife pollsStopped).Guarded
      (start >>= fun _ => ExceptT.lift (life.handle method) :
        DaemonFallible ε (List (SessionReply Event ε))).run
      (fun result left => LeftBehind service result left) .absent := by
  refine Monitor.Guarded.andThen (hstart.mono ?_)
  intro r left h
  cases r with
  | error _ => exact leftBehind_of_failed h
  | ok _ =>
      subst h
      refine Monitor.Guarded.lift ?_
      have hserving : Ownership.held.Owns service (.serving service .missing) :=
        ⟨false, .missing, rfl⟩
      refine (Monitor.Guarded.handle hmethod hlife hserving).mono ?_
      intro replies left h
      obtain ⟨owned, howns, hreleased⟩ := h
      exact leftBehind_of_released howns hreleased

end Sessions

/-! ## The browser -/

namespace MdnsBrowserBackend

theorem start_guarded :
    (daemonLife false).Guarded start.run (Started localServiceType) .absent := by
  refine startWith_guarded ?_
  intro submitted
  cases submitted with
  | error _ => exact ⟨.monitored, rfl, rfl⟩
  | ok _ => exact ⟨.serving localServiceType .missing, rfl, rfl⟩

theorem stopBrowse_guarded {asked : Bool} {withdrawal : Withdrawal} :
    (daemonLife false).Guarded stopBrowse.run
      (fun r left =>
        left = .up asked localServiceType (if r.isOk then .granted else .missing))
      (.up asked localServiceType withdrawal) := by
  intro granted
  refine ⟨.up asked localServiceType (if granted.isOk then .granted else .missing), ?_, ?_⟩
  · rw [daemonLife.next_stopBrowse, DaemonState.withdraw_up]
  · cases granted with
    | error _ => rfl
    | ok _ => rfl

theorem method_guarded (o : BackendOp) (owned : Ownership) (left : DaemonState)
    (howns : owned.Owns localServiceType left)
    (hallowed : ∀ r, ∃ owned',
      (ownership (Option RawBrowserEvent) DiscoveryBrowserError false).next owned o r =
        some owned') :
    (daemonLife false).Guarded (method o)
      (fun r left' => ∃ owned',
        (ownership (Option RawBrowserEvent) DiscoveryBrowserError false).next owned o r =
          some owned' ∧ owned'.Owns localServiceType left') left := by
  refine method_moves none ?_ ?_ ?_ method ⟨rfl, rfl, rfl⟩ o owned left howns hallowed
  · intro left left' hpolled polled
    exact ⟨left', by rw [daemonLife.next_pollServices, hpolled], rfl⟩
  · intro asked withdrawal
    exact stopWith_guarded stopBrowse_guarded
  · intro asked withdrawal granted
    refine ⟨.up asked localServiceType (if granted.isOk then .granted else .missing), ?_, ?_⟩
    · rw [daemonLife.next_stopBrowse, DaemonState.withdraw_up]
    · intro _
      exact ⟨_, (daemonLife.next_shutdown _ _).trans (DaemonState.shutdown_up _ _ _ _), _, _, rfl⟩

end MdnsBrowserBackend

/-- However the daemon answers, no life of a browser leaves one running, and the browser is
stopped exactly if, in one stop, its daemon has granted the withdrawal of the browse and then
confirmed its end. -/
theorem browser_leaves_no_daemon {D A : Type}
    (sem : (o : DaemonOp) → A → D → o.Result × D) (oracle : Nat → A) (daemon : D)
    (calls : List SessionCall) :
    ∃ left, (daemonLife false).run .absent
        ((DiscoveryBrowser.lifetime calls).run.trace sem oracle daemon) = some left ∧
      LeftBehind localServiceType
        ((DiscoveryBrowser.lifetime calls).run.exec sem oracle daemon).1 left := by
  have hlife := life_guarded DiscoveryBrowser.request_guarded DiscoveryBrowser.dropping_guarded
    (rfl : DiscoveryBrowser.start.active = true) calls
  exact (lifetime_guarded MdnsBrowserBackend.start_guarded MdnsBrowserBackend.method_guarded
    hlife).run_trace sem oracle daemon

/-! ## The advertisement -/

namespace MdnsBackend

variable (spec : ServiceSpec)

theorem start_guarded :
    (daemonLife true).Guarded (start spec).run (Started spec.fullname) .absent := by
  intro built
  refine ⟨.absent, rfl, ?_⟩
  cases built with
  | error _ => exact .inl rfl
  | ok _ =>
      refine startWith_guarded ?_
      intro submitted
      cases submitted with
      | error _ => exact ⟨.monitored, rfl, rfl⟩
      | ok _ => exact ⟨.serving spec.fullname .missing, rfl, rfl⟩

theorem unregister_guarded {asked : Bool} {withdrawal : Withdrawal} (fullname : Text) :
    (daemonLife true).Guarded (unregister fullname).run
      (fun r left => left = .up asked fullname (if r.isOk then .granted else .missing))
      (.up asked fullname withdrawal) := by
  intro requested
  refine ⟨.up asked fullname (if requested.isOk then .requested else .missing), ?_, ?_⟩
  · rw [daemonLife.next_unregister, DaemonState.withdraw_up]
  · cases requested with
    | error _ => rfl
    | ok _ =>
        intro granted
        refine ⟨.up asked fullname (if granted.isOk then .granted else .missing), ?_, ?_⟩
        · exact (daemonLife.next_recvUnregister _ _).trans (DaemonState.answered_up _ _ _)
        · rcases granted with _ | (_ | _) <;> rfl

theorem method_guarded (fullname : Text) (o : BackendOp) (owned : Ownership) (left : DaemonState)
    (howns : owned.Owns fullname left)
    (hallowed : ∀ r, ∃ owned',
      (ownership AdvertisementPoll DiscoveryAdvertisementError true).next owned o r =
        some owned') :
    (daemonLife true).Guarded (method fullname o)
      (fun r left' => ∃ owned',
        (ownership AdvertisementPoll DiscoveryAdvertisementError true).next owned o r =
          some owned' ∧ owned'.Owns fullname left') left := by
  refine method_moves (.ok none) ?_ ?_ ?_ (method fullname) ⟨rfl, rfl, rfl⟩ o owned left howns
    hallowed
  · intro left left' hpolled polled
    exact ⟨left', by rw [daemonLife.next_pollEvents, hpolled], rfl⟩
  · intro asked withdrawal
    exact stopWith_guarded (unregister_guarded fullname)
  · intro asked withdrawal requested
    refine ⟨.up asked fullname (if requested.isOk then .requested else .missing), ?_, ?_⟩
    · rw [daemonLife.next_unregister, DaemonState.withdraw_up]
    · intro _
      exact ⟨_, (daemonLife.next_shutdown _ _).trans (DaemonState.shutdown_up _ _ _ _), _, _, rfl⟩

end MdnsBackend

/-- Nor does the life of an advertisement, which withdraws the very service it registered and
is stopped on the same condition. -/
theorem advertisement_leaves_no_daemon {D A : Type}
    (sem : (o : DaemonOp) → A → D → o.Result × D) (oracle : Nat → A) (daemon : D)
    (spec : ServiceSpec) (calls : List SessionCall) :
    ∃ left, (daemonLife true).run .absent
        ((AdvertisementSession.lifetime spec calls).run.trace sem oracle daemon) = some left ∧
      LeftBehind spec.fullname
        ((AdvertisementSession.lifetime spec calls).run.exec sem oracle daemon).1 left := by
  have hlife := life_guarded AdvertisementSession.request_guarded
    AdvertisementSession.dropping_guarded
    (rfl : (AdvertisementSession.start spec).active = true) calls
  exact (lifetime_guarded (MdnsBackend.start_guarded spec)
    (MdnsBackend.method_guarded spec.fullname) hlife).run_trace sem oracle daemon

end LocalTransfer
