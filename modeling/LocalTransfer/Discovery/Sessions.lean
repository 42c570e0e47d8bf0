import LocalTransfer.Discovery.Advertisement
import LocalTransfer.Discovery.Observe
import LocalTransfer.Lib.Monitor

/-!
# Sessions over a backend

`BrowserSession` of `browser.rs` and `AdvertisementSession` of `advertisement.rs`, over any
backend: their methods are programs over those of the backend. A session owns its backend
until a stop succeeds, and a session that is dropped before gives it up
(`browser_session_owned`). The two differ in one thing: a stopped browser no longer polls its
backend, a stopped advertisement still does.
-/

namespace LocalTransfer

open Lib

/-! ## Backends -/

/-- The methods of a backend. -/
inductive BackendOp
  | pollEvent
  | stop
  | bestEffortStop
  deriving DecidableEq, Repr

abbrev BackendOp.Result (Polled ε : Type) : BackendOp → Type
  | .pollEvent => Polled
  | .stop => Except ε Unit
  | .bestEffortStop => Unit

/-- A program over the methods of a backend. -/
abbrev BackendProg (Polled ε : Type) := Prog BackendOp (BackendOp.Result Polled ε)

/-- What a session owns of its backend. -/
inductive Ownership
  | held
  | stopped
  | abandoned
  deriving DecidableEq, Repr

/-- Nothing is asked of a backend that is not held; only polls may still reach a stopped one,
where the session lets them. -/
def ownership (Polled ε : Type) (pollsStopped : Bool) :
    Monitor BackendOp (BackendOp.Result Polled ε) Ownership where
  next
    | .held, .pollEvent, _ => some .held
    | .held, .stop, .ok () => some .stopped
    | .held, .stop, .error _ => some .held
    | .held, .bestEffortStop, () => some .abandoned
    | .stopped, .pollEvent, _ => if pollsStopped then some .stopped else none
    | .stopped, .stop, _ => none
    | .stopped, .bestEffortStop, _ => none
    | .abandoned, _, _ => none

/-! ## Calls -/

/-- What a caller asks of a session. -/
inductive SessionCall
  | pollEvent
  | stop
  deriving DecidableEq, Repr

inductive SessionReply (Event ε : Type)
  | polled (event : Event)
  | stopped (result : Except ε Unit)

/-- What a session owns while it is active, and once it is stopped. -/
def Ownership.of (active : Bool) : Ownership := if active then .held else .stopped

/-- What a stopped session answers. -/
def SessionReply.Idle {Event ε : Type} (quiet : Event → Prop) : SessionReply Event ε → Prop
  | .polled event => quiet event
  | .stopped result => result = .ok ()

/-- A session has been stopped exactly if a stop succeeded, and since then its calls have come
to nothing. -/
structure Lived {Event ε : Type} (quiet : Event → Prop) (replies : List (SessionReply Event ε))
    (active : Bool) : Prop where
  stopped : active = false ↔ .stopped (.ok ()) ∈ replies
  after : ∀ before after, replies = before ++ .stopped (.ok ()) :: after →
    ∀ reply ∈ after, reply.Idle quiet

namespace Lived

variable {Event ε : Type} {quiet : Event → Prop} {replies : List (SessionReply Event ε)}
  {active active' : Bool} {reply : SessionReply Event ε}

theorem nil : Lived quiet ([] : List (SessionReply Event ε)) true :=
  ⟨by simp, by simp⟩

/-- A further reply, which is idle if the session is stopped. -/
theorem concat (h : Lived quiet replies active)
    (hstopped : active' = false ↔ active = false ∨ reply = .stopped (.ok ()))
    (hidle : active = false → reply.Idle quiet) : Lived quiet (replies ++ [reply]) active' := by
  refine ⟨?_, ?_⟩
  · rw [hstopped, h.stopped, List.mem_append, List.mem_singleton, eq_comm (a := reply)]
  · intro before after hsplit
    rcases List.eq_nil_or_concat after with rfl | ⟨earlier, last, rfl⟩
    · simp
    · have hsplit' : replies ++ [reply] = (before ++ .stopped (.ok ()) :: earlier) ++ [last] := by
        rw [hsplit]
        simp
      obtain ⟨rfl, hlast⟩ := List.append_inj' hsplit' rfl
      cases hlast
      intro r hr
      rcases List.mem_append.mp (List.concat_eq_append ▸ hr) with hr | hr
      · exact h.after before earlier rfl r hr
      · rw [List.mem_singleton.mp hr]
        exact hidle (h.stopped.mpr (by simp))

theorem polled {event : Event} (h : Lived quiet replies active)
    (hquiet : active = false → quiet event) : Lived quiet (replies ++ [.polled event]) active :=
  h.concat (by simp) hquiet

theorem refused {error : ε} (h : Lived quiet replies true) :
    Lived quiet (replies ++ [.stopped (.error error)]) true :=
  h.concat (by simp) (by simp)

theorem ended (h : Lived quiet replies active) :
    Lived quiet (replies ++ [.stopped (.ok ())]) false :=
  h.concat (by simp) fun _ => rfl

end Lived

/-! ## Lives -/

section Life

variable {S Event Polled ε : Type}

/-- The life of a session whose backend has started: the calls made on it, and its drop. -/
def sessionLife (request : S → SessionCall → BackendProg Polled ε (SessionReply Event ε × S))
    (dropping : S → BackendProg Polled ε Unit) (self : S) (calls : List SessionCall) :
    BackendProg Polled ε (List (SessionReply Event ε)) :=
  (Prog.sequence request self calls).bind fun last =>
    (dropping last.2).bind fun _ => .ret last.1

/-- The end of a life: the backend is stopped if a stop succeeded, given up otherwise, and a
stopped session has answered `quiet` polls only. -/
structure Released (quiet : Event → Prop) (replies : List (SessionReply Event ε))
    (left : Ownership) : Prop where
  released : left ≠ .held
  stopped : left = .stopped ↔ .stopped (.ok ()) ∈ replies
  after : ∀ before after, replies = before ++ .stopped (.ok ()) :: after →
    ∀ reply ∈ after, reply.Idle quiet

/-- A session whose calls ask no more than it owns is released in the end. -/
theorem life_guarded {active : S → Bool} {quiet : Event → Prop} {pollsStopped : Bool}
    {request : S → SessionCall → BackendProg Polled ε (SessionReply Event ε × S)}
    {dropping : S → BackendProg Polled ε Unit}
    (hrequest : ∀ replies self c, Lived quiet replies (active self) →
      (ownership Polled ε pollsStopped).Guarded (request self c)
        (fun next left => left = .of (active next.2) ∧
          Lived quiet (replies ++ [next.1]) (active next.2)) (.of (active self)))
    (hdropping : ∀ self, (ownership Polled ε pollsStopped).Guarded (dropping self)
      (fun _ left => left = if active self then .abandoned else .stopped) (.of (active self)))
    {self : S} (hactive : active self = true) (calls : List SessionCall) :
    (ownership Polled ε pollsStopped).Guarded (sessionLife request dropping self calls)
      (fun replies left => Released quiet replies left) .held := by
  let inv := fun (replies : List (SessionReply Event ε)) (self : S) (left : Ownership) =>
    left = .of (active self) ∧ Lived quiet replies (active self)
  have hstep : ∀ replies self c left, inv replies self left →
      (ownership Polled ε pollsStopped).Guarded (request self c)
        (fun next left' => inv (replies ++ [next.1]) next.2 left') left := by
    intro replies self c left h
    obtain ⟨rfl, hlived⟩ := h
    exact hrequest replies self c hlived
  have hstart : inv [] self .held := by
    simp only [inv, hactive]
    exact ⟨rfl, .nil⟩
  have hcalls := Monitor.Guarded.sequence hstep hstart calls
  refine Monitor.Guarded.bind (hcalls.mono ?_)
  intro last left h
  obtain ⟨rfl, hlived⟩ := h
  refine Monitor.Guarded.bind ((hdropping last.2).mono ?_)
  intro _ left h
  subst h
  obtain ⟨hstopped, hafter⟩ := hlived
  refine ⟨?_, ?_, hafter⟩
  · split <;> simp
  · rw [List.nil_append] at hstopped
    rw [← hstopped]
    cases active last.2 <;> simp

end Life

/-! ## The browser -/

/-- A program over the backend of a browser. -/
abbrev BrowserProg := BackendProg (Option RawBrowserEvent) DiscoveryBrowserError

namespace DiscoveryBrowser

/-- `BrowserSession::poll_event`. -/
def polling (self : DiscoveryBrowser) :
    BrowserProg (Option DiscoveryBrowserEvent × DiscoveryBrowser) :=
  if ¬ self.active then .ret (none, self)
  else .op .pollEvent fun polled =>
    match polled with
    | none => .ret (none, self)
    | some raw =>
        let (event, state) := self.state.translate raw
        .ret (event, { self with state })

/-- `BrowserSession::stop`. -/
def stopping (self : DiscoveryBrowser) :
    BrowserProg (Except DiscoveryBrowserError Unit × DiscoveryBrowser) :=
  if ¬ self.active then .ret (.ok (), self)
  else .op .stop fun stopped =>
    match stopped with
    | .error error => .ret (.error error, self)
    | .ok () => .ret (.ok (), { self with active := false })

/-- `BrowserSession::drop`. -/
def dropping (self : DiscoveryBrowser) : BrowserProg Unit :=
  if self.active then .op .bestEffortStop fun _ => .ret () else .ret ()

def request (self : DiscoveryBrowser) :
    SessionCall → BrowserProg (SessionReply (Option DiscoveryBrowserEvent) DiscoveryBrowserError ×
      DiscoveryBrowser)
  | .pollEvent => self.polling.bind fun (event, self) => .ret (.polled event, self)
  | .stop => self.stopping.bind fun (result, self) => .ret (.stopped result, self)

/-- The life of a browser whose backend has started. -/
def life (calls : List SessionCall) :
    BrowserProg (List (SessionReply (Option DiscoveryBrowserEvent) DiscoveryBrowserError)) :=
  sessionLife request dropping start calls

/-- What the backend answers goes through the functions an observation pass uses. -/
theorem polling_of_active {self : DiscoveryBrowser} (h : self.active = true) :
    self.polling = .op .pollEvent fun polled => .ret (self.pollEvent polled) := by
  simp only [polling, pollEvent, h, not_true, if_false]
  congr
  funext polled
  cases polled with
  | none => rfl
  | some raw => rfl

theorem stopping_of_active {self : DiscoveryBrowser} (h : self.active = true) :
    self.stopping = .op .stop fun stopped => .ret (self.stop stopped) := by
  simp only [stopping, stop, h, not_true, if_false]
  congr
  funext stopped
  cases stopped with
  | error error => rfl
  | ok value => rfl

theorem pollEvent_active (self : DiscoveryBrowser) (polled : Option RawBrowserEvent) :
    (self.pollEvent polled).2.active = self.active := by
  unfold pollEvent
  split
  · rfl
  · cases polled with
    | none => rfl
    | some raw => rfl

/-- What a call asks of the backend, and how it is answered. -/
theorem request_guarded (replies) (self : DiscoveryBrowser) (c : SessionCall)
    (h : Lived (· = none) replies self.active) :
    (ownership (Option RawBrowserEvent) DiscoveryBrowserError false).Guarded (self.request c)
      (fun next left => left = .of next.2.active ∧
        Lived (· = none) (replies ++ [next.1]) next.2.active) (.of self.active) := by
  cases hactive : self.active with
  | false =>
      rw [hactive] at h
      cases c with
      | pollEvent =>
          simp only [request, polling, hactive]
          refine ⟨by rw [hactive], ?_⟩
          rw [hactive]
          exact h.polled fun _ => rfl
      | stop =>
          simp only [request, stopping, hactive]
          refine ⟨by rw [hactive], ?_⟩
          rw [hactive]
          exact h.ended
  | true =>
      rw [hactive] at h
      cases c with
      | pollEvent =>
          rw [request, polling_of_active hactive]
          intro polled
          have hsame := (self.pollEvent_active polled).trans hactive
          refine ⟨.held, rfl, ?_⟩
          show Ownership.held = .of (self.pollEvent polled).2.active ∧
            Lived _ _ (self.pollEvent polled).2.active
          rw [hsame]
          exact ⟨rfl, h.polled (by simp)⟩
      | stop =>
          rw [request, stopping_of_active hactive]
          intro stopped
          cases stopped with
          | ok value =>
              refine ⟨.stopped, rfl, ?_⟩
              simp only [stop, hactive]
              exact ⟨rfl, h.ended⟩
          | error error =>
              have hkept : self.stop (.error error) = (.error error, self) := by
                rw [stop, if_neg (by simp [hactive])]
              refine ⟨.held, rfl, ?_⟩
              show Ownership.held = .of (self.stop (.error error)).2.active ∧ Lived _
                (replies ++ [.stopped (self.stop (.error error)).1])
                (self.stop (.error error)).2.active
              rw [hkept]
              show Ownership.held = .of self.active ∧
                Lived _ (replies ++ [.stopped (.error error)]) self.active
              rw [hactive]
              exact ⟨rfl, h.refused⟩

theorem dropping_guarded (self : DiscoveryBrowser) :
    (ownership (Option RawBrowserEvent) DiscoveryBrowserError false).Guarded self.dropping
      (fun _ left => left = if self.active then .abandoned else .stopped) (.of self.active) := by
  cases hactive : self.active with
  | false =>
      rw [dropping, hactive]
      rfl
  | true =>
      rw [dropping, hactive]
      intro _
      exact ⟨.abandoned, rfl, rfl⟩

end DiscoveryBrowser

/-! ### What its polls return -/

/-- What a poll takes from a backend. -/
def BackendOp.raw : (o : BackendOp) → o.Result (Option RawBrowserEvent) DiscoveryBrowserError →
    Option RawBrowserEvent
  | .pollEvent, polled => polled
  | .stop, _ | .bestEffortStop, _ => none

def SessionReply.event {Event ε : Type} : SessionReply (Option Event) ε → Option Event
  | .polled event => event
  | .stopped _ => none

theorem BrowserState.translateAll_concat (self : BrowserState) (events : List RawBrowserEvent)
    (event : RawBrowserEvent) :
    self.translateAll (events ++ [event]) =
      ((self.translateAll events).1 ++ ((self.translateAll events).2.translate event).1.toList,
        ((self.translateAll events).2.translate event).2) := by
  induction events generalizing self with
  | nil => simp [translateAll]
  | cons first events ih => simp only [List.cons_append, translateAll, ih, List.append_assoc]

/-- What the polls have returned is what translating the backend's events emits. -/
structure Translated (replies : List (SessionReply (Option DiscoveryBrowserEvent)
    DiscoveryBrowserError)) (browser : DiscoveryBrowser) (raws : List RawBrowserEvent) :
    Prop where
  events : replies.filterMap SessionReply.event = (BrowserState.default.translateAll raws).1
  state : browser.state = (BrowserState.default.translateAll raws).2

namespace Translated

variable {replies : List (SessionReply (Option DiscoveryBrowserEvent) DiscoveryBrowserError)}
  {self : DiscoveryBrowser} {raws : List RawBrowserEvent}

theorem silent (h : Translated replies self raws)
    {reply : SessionReply (Option DiscoveryBrowserEvent) DiscoveryBrowserError}
    {next : DiscoveryBrowser} (hreply : reply.event = none) (hnext : next.state = self.state) :
    Translated (replies ++ [reply]) next raws := by
  refine ⟨?_, hnext.trans h.state⟩
  rw [List.filterMap_append, h.events]
  simp [hreply]

theorem polled (h : Translated replies self raws) (hactive : self.active = true)
    (polled : Option RawBrowserEvent) :
    Translated (replies ++ [.polled (self.pollEvent polled).1]) (self.pollEvent polled).2
      (raws ++ polled.toList) := by
  cases polled with
  | none =>
      have hsame : self.pollEvent none = (none, self) := by
        rw [DiscoveryBrowser.pollEvent, if_neg (by simp [hactive])]
      rw [hsame, Option.toList_none, List.append_nil]
      exact h.silent rfl rfl
  | some raw =>
      have htaken : self.pollEvent (some raw) =
          ((self.state.translate raw).1, { self with state := (self.state.translate raw).2 }) := by
        rw [DiscoveryBrowser.pollEvent, if_neg (by simp [hactive])]
      rw [htaken, Option.toList_some]
      constructor
      · rw [List.filterMap_append, h.events, BrowserState.translateAll_concat, ← h.state]
        cases hemitted : (self.state.translate raw).1 <;> simp [SessionReply.event]
      · rw [BrowserState.translateAll_concat, ← h.state]

end Translated

namespace DiscoveryBrowser

end DiscoveryBrowser

/-! ### What its stops return -/

/-- What a stop takes from a backend. -/
def BackendOp.stopResult {Polled ε : Type} :
    (o : BackendOp) → o.Result Polled ε → Option (Except ε Unit)
  | .stop, result => some result
  | .pollEvent, _ | .bestEffortStop, _ => none

def SessionReply.stopResult {Event ε : Type} : SessionReply Event ε → Option (Except ε Unit)
  | .stopped result => some result
  | .polled _ => none

/-- The stops have returned what the backend answered to each of them, until one succeeded, and
success since then. -/
def Asked {Event ε : Type} (replies : List (SessionReply Event ε)) (active : Bool)
    (results : List (Except ε Unit)) : Prop :=
  ∃ idle, replies.filterMap SessionReply.stopResult = results ++ List.replicate idle (.ok ()) ∧
    if active then idle = 0 else .ok () ∈ results

namespace Asked

variable {Event ε : Type} {replies : List (SessionReply Event ε)} {active : Bool}
  {results : List (Except ε Unit)}

theorem polled {event : Event} (h : Asked replies active results) :
    Asked (replies ++ [.polled event]) active results := by
  obtain ⟨idle, hstops, hidle⟩ := h
  refine ⟨idle, ?_, hidle⟩
  rw [List.filterMap_append, hstops]
  exact List.append_nil _

theorem refused {error : ε} (h : Asked replies true results) :
    Asked (replies ++ [.stopped (.error error)]) true (results ++ [.error error]) := by
  obtain ⟨idle, hstops, hidle⟩ := h
  obtain rfl : idle = 0 := by simpa using hidle
  refine ⟨0, ?_, by simp⟩
  rw [List.filterMap_append, hstops, List.replicate_zero, List.append_nil, List.append_nil]
  rfl

theorem ended (h : Asked replies true results) :
    Asked (replies ++ [.stopped (.ok ())]) false (results ++ [.ok ()]) := by
  obtain ⟨idle, hstops, hidle⟩ := h
  obtain rfl : idle = 0 := by simpa using hidle
  refine ⟨0, ?_, by simp⟩
  rw [List.filterMap_append, hstops, List.replicate_zero, List.append_nil, List.append_nil]
  rfl

end Asked

namespace DiscoveryBrowser

end DiscoveryBrowser

/-- A noteworthy event of an active advertisement. -/
inductive DiscoveryAdvertisementEvent
  | nameChanged (original replacement : Text)
  deriving DecidableEq

abbrev AdvertisementPoll :=
  Except DiscoveryAdvertisementError (Option DiscoveryAdvertisementEvent)

/-- A program over the backend of an advertisement. -/
abbrev AdvertisementProg := BackendProg AdvertisementPoll DiscoveryAdvertisementError

structure AdvertisementSession where
  spec : ServiceSpec
  active : Bool

namespace AdvertisementSession

def start (spec : ServiceSpec) : AdvertisementSession := ⟨spec, true⟩

/-- `DiscoveryAdvertisement::poll_event`, which asks the backend without looking at the
session. -/
def polling (self : AdvertisementSession) :
    AdvertisementProg (AdvertisementPoll × AdvertisementSession) :=
  .op .pollEvent fun polled => .ret (polled, self)

def stopping (self : AdvertisementSession) :
    AdvertisementProg (Except DiscoveryAdvertisementError Unit × AdvertisementSession) :=
  if ¬ self.active then .ret (.ok (), self)
  else .op .stop fun stopped =>
    match stopped with
    | .error error => .ret (.error error, self)
    | .ok () => .ret (.ok (), { self with active := false })

def dropping (self : AdvertisementSession) : AdvertisementProg Unit :=
  if self.active then .op .bestEffortStop fun _ => .ret () else .ret ()

def request (self : AdvertisementSession) :
    SessionCall → AdvertisementProg (SessionReply AdvertisementPoll DiscoveryAdvertisementError ×
      AdvertisementSession)
  | .pollEvent => self.polling.bind fun (event, self) => .ret (.polled event, self)
  | .stop => self.stopping.bind fun (result, self) => .ret (.stopped result, self)

def life (spec : ServiceSpec) (calls : List SessionCall) :
    AdvertisementProg (List (SessionReply AdvertisementPoll DiscoveryAdvertisementError)) :=
  sessionLife request dropping (start spec) calls

theorem request_guarded (replies) (self : AdvertisementSession) (c : SessionCall)
    (h : Lived (fun _ => True) replies self.active) :
    (ownership AdvertisementPoll DiscoveryAdvertisementError true).Guarded (self.request c)
      (fun next left => left = .of next.2.active ∧
        Lived (fun _ => True) (replies ++ [next.1]) next.2.active) (.of self.active) := by
  cases c with
  | pollEvent =>
      intro polled
      refine ⟨.of self.active, ?_, rfl, h.polled fun _ => trivial⟩
      cases self.active <;> rfl
  | stop =>
      cases hactive : self.active with
      | false =>
          rw [hactive] at h
          simp only [request, stopping, hactive]
          refine ⟨by rw [hactive], ?_⟩
          rw [hactive]
          exact h.ended
      | true =>
          rw [hactive] at h
          simp only [request, stopping, hactive]
          intro stopped
          cases stopped with
          | ok value => exact ⟨.stopped, rfl, rfl, h.ended⟩
          | error error =>
              refine ⟨.held, rfl, by rw [hactive]; rfl, ?_⟩
              rw [hactive]
              exact h.refused

theorem dropping_guarded (self : AdvertisementSession) :
    (ownership AdvertisementPoll DiscoveryAdvertisementError true).Guarded self.dropping
      (fun _ left => left = if self.active then .abandoned else .stopped) (.of self.active) := by
  cases hactive : self.active with
  | false =>
      rw [dropping, hactive]
      rfl
  | true =>
      rw [dropping, hactive]
      intro _
      exact ⟨.abandoned, rfl, rfl⟩

end AdvertisementSession

end LocalTransfer
