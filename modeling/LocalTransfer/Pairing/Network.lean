import LocalTransfer.Lib.Interleave
import LocalTransfer.Pairing.Request
import LocalTransfer.Pairing.Response

/-!
# Pairing over a network

Any number of initiators and responders, and a network that keeps every message the
parties ever produced and may deliver each of them to anyone, any number of times, at
any moment or never. The invariant ties what is in the network to the decisions of the
responders; every conclusion about two parties is read off it.
-/

namespace LocalTransfer

open Lib

/-- An object with the calls made on it so far and what they returned. -/
structure Recorded (Object Call Reply : Type) where
  object : Object
  calls : List (Call × Reply)

abbrev Initiator := Recorded PairingRequest PairingRequestCall PairingRequestReply
abbrev Responder := Recorded PairingResponse PairingResponseCall PairingResponseEvent

def Initiator.apply (self : Initiator) (call : PairingRequestCall) : Initiator where
  object := (self.object.apply call).2
  calls := self.calls ++ [(call, (self.object.apply call).1)]

def Responder.apply (self : Responder) (call : PairingResponseCall) : Responder where
  object := (self.object.apply call).2
  calls := self.calls ++ [(call, (self.object.apply call).1)]

/-- The bytes a call on an initiator hands out for sending. -/
def PairingRequestReply.bytes : PairingRequestReply → Option Bytes
  | .message bytes => bytes
  | .event _ => none

/-- The parties, and every message they have produced. -/
structure Network (P : Type) where
  initiators : P → Initiator
  responders : List Responder
  pool : List Bytes

/-- The initiator handed out the bytes of its request. -/
def Initiator.Served (self : Initiator) : Prop :=
  ∃ now, (.requestMessage now,
    .message (some (PairingMessage.request self.object.attemptId).encode)) ∈ self.calls

/-- The initiator was marked sent in time. -/
def Initiator.WasSent (self : Initiator) : Prop :=
  ∃ now, (.markRequestSent now, .event .awaitingResponse) ∈ self.calls

/-- The responder has accepted, whatever happened to it since. -/
def Responder.Accepted (self : Responder) : Prop :=
  ∃ now reply, (.accept now, .accepted reply) ∈ self.calls

section System

variable {P : Type} [DecidableEq P]

def Network.callInitiator (net : Network P) (p : P) (call : PairingRequestCall) : Network P where
  initiators := Function.update net.initiators p ((net.initiators p).apply call)
  responders := net.responders
  pool := net.pool ++ ((net.initiators p).object.apply call).1.bytes.toList

def Network.build (net : Network P) (response : PairingResponse) : Network P where
  initiators := net.initiators
  responders := net.responders ++ [⟨response, []⟩]
  pool := net.pool

def Network.callResponder (net : Network P) (i : Nat) (r : Responder)
    (call : PairingResponseCall) : Network P where
  initiators := net.initiators
  responders := net.responders.set i (r.apply call)
  pool := net.pool ++ (r.object.apply call).1.reply.toList

/-- One call on a party. A message is delivered if it is in the network; a responder is
built from one. -/
inductive Network.Step : Network P → Network P → Prop
  | initiator {net : Network P} (p : P) (call : PairingRequestCall) :
      (∀ raw now, call = .handleRemoteMessage raw now → raw ∈ net.pool) →
      Network.Step net (net.callInitiator p call)
  | build {net : Network P} (raw : Bytes) (deadline : Duration) (response : PairingResponse) :
      raw ∈ net.pool → PairingResponse.fromRequest raw deadline = .ok response →
      Network.Step net (net.build response)
  | responder {net : Network P} (i : Nat) (r : Responder) (call : PairingResponseCall) :
      net.responders[i]? = some r → Network.Step net (net.callResponder i r call)

/-- Every run from fresh attempts with these identifiers and deadlines. -/
def pairingNetwork (ids : P → PairingAttemptId) (deadlines : P → Duration) :
    TSys (Network P) where
  init net := net =
    ⟨fun p => ⟨PairingRequest.withAttemptId (ids p) (deadlines p), []⟩, [], []⟩
  step := Network.Step

end System

/-! ## The invariant -/

section Invariant

variable {P : Type}

/-- Some responder for the attempt has accepted it. -/
def AcceptedFor (net : Network P) (id : PairingAttemptId) : Prop :=
  ∃ r ∈ net.responders, r.object.attemptId = id ∧ Responder.Accepted r

/-- Some responder for the attempt is in `Rejected` with that reason. -/
def RejectedFor (net : Network P) (id : PairingAttemptId) (reason : PairingRejectionReason) :
    Prop :=
  ∃ r ∈ net.responders, r.object.attemptId = id ∧ r.object.state = .rejected reason

/-- The initiator of the attempt has handed out its request. -/
def ServedFor (net : Network P) (id : PairingAttemptId) : Prop :=
  ∃ p, (net.initiators p).object.attemptId = id ∧ Initiator.Served (net.initiators p)

/-- A message in the network stands for a decision somebody took. -/
inductive Justified (net : Network P) : PairingMessage → Prop
  | request {id} : ServedFor net id → Justified net (.request id)
  | requestAccepted {id} : AcceptedFor net id → Justified net (.requestAccepted id)
  | requestRejected {id reason} : RejectedFor net id reason →
      Justified net (.requestRejected id reason)

/-- What an initiator's state tells about itself and the responders. -/
structure InitiatorOk (net : Network P) (x : Initiator) : Prop where
  sent : x.object.state = .awaitingRemoteResponse ∨
    x.object.state = .readyForNextPairingStage → x.WasSent
  ready : x.object.state = .readyForNextPairingStage → AcceptedFor net x.object.attemptId
  rejected : ∀ reason, x.object.state = .rejected reason →
    RejectedFor net x.object.attemptId reason

/-- A responder answers a request that was handed out, and decides at most once. -/
structure ResponderOk (net : Network P) (r : Responder) : Prop where
  served : ServedFor net r.object.attemptId
  undecided : r.object.state = .awaitingDecision → ¬ r.Accepted
  exclusive : ∀ reason, r.object.state = .rejected reason → ¬ r.Accepted

structure NetworkInv (ids : P → PairingAttemptId) (net : Network P) : Prop where
  attempts : ∀ p, (net.initiators p).object.attemptId = ids p
  initiators : ∀ p, InitiatorOk net (net.initiators p)
  responders : ∀ r ∈ net.responders, ResponderOk net r
  pool : ∀ raw ∈ net.pool, ∃ m : PairingMessage, raw = m.encode ∧ Justified net m

/-- What no step takes back. -/
structure Grows (net net' : Network P) : Prop where
  served : ∀ id, ServedFor net id → ServedFor net' id
  accepted : ∀ id, AcceptedFor net id → AcceptedFor net' id
  rejected : ∀ id reason, RejectedFor net id reason → RejectedFor net' id reason

variable {net net' : Network P}

theorem Justified.mono {m : PairingMessage} (h : Justified net m) (hg : Grows net net') :
    Justified net' m := by
  cases h with
  | request h => exact .request (hg.served _ h)
  | requestAccepted h => exact .requestAccepted (hg.accepted _ h)
  | requestRejected h => exact .requestRejected (hg.rejected _ _ h)

theorem InitiatorOk.mono {x : Initiator} (h : InitiatorOk net x) (hg : Grows net net') :
    InitiatorOk net' x where
  sent := h.sent
  ready hx := hg.accepted _ (h.ready hx)
  rejected reason hx := hg.rejected _ _ (h.rejected reason hx)

theorem ResponderOk.mono {r : Responder} (h : ResponderOk net r) (hg : Grows net net') :
    ResponderOk net' r where
  served := hg.served _ h.served
  undecided := h.undecided
  exclusive := h.exclusive

end Invariant

/-! ## One call of a party -/

section Calls

variable {P : Type}

theorem RequestStep.attemptId {self self' : PairingRequest} {call : PairingRequestCall}
    {reply : PairingRequestReply} (h : RequestStep self call reply self') :
    self'.attemptId = self.attemptId := by
  cases h <;> rfl

theorem ResponseStep.attemptId {self self' : PairingResponse} {call : PairingResponseCall}
    {event : PairingResponseEvent} (h : ResponseStep self call event self') :
    self'.attemptId = self.attemptId := by
  cases h <;> rfl

/-- A rejection is final. -/
theorem ResponseStep.rejected_stays {self self' : PairingResponse} {call : PairingResponseCall}
    {event : PairingResponseEvent} {reason : PairingRejectionReason}
    (h : ResponseStep self call event self') (hstate : self.state = .rejected reason) :
    self'.state = .rejected reason := by
  cases h with
  | same => exact hstate
  | ended hterm => simp [PairingResponse.isTerminal, hstate] at hterm
  | accepted h | rejected h | sent h => simp [hstate] at h

variable {x : Initiator} {r : Responder}

@[simp] theorem Initiator.apply_attemptId (call : PairingRequestCall) :
    (x.apply call).object.attemptId = x.object.attemptId :=
  (x.object.requestStep_apply call).attemptId

@[simp] theorem Responder.apply_attemptId (call : PairingResponseCall) :
    (r.apply call).object.attemptId = r.object.attemptId :=
  (r.object.responseStep_apply call).attemptId

theorem Initiator.Served.apply (h : x.Served) (call : PairingRequestCall) :
    (x.apply call).Served := by
  obtain ⟨now, h⟩ := h
  rw [Initiator.Served, apply_attemptId]
  exact ⟨now, List.mem_append_left _ h⟩

theorem Initiator.WasSent.apply (h : x.WasSent) (call : PairingRequestCall) :
    (x.apply call).WasSent := by
  obtain ⟨now, h⟩ := h
  exact ⟨now, List.mem_append_left _ h⟩

theorem Responder.Accepted.apply (h : r.Accepted) (call : PairingResponseCall) :
    (r.apply call).Accepted := by
  obtain ⟨now, reply, h⟩ := h
  exact ⟨now, reply, List.mem_append_left _ h⟩

/-- Only the call itself can add an acceptance. -/
theorem Responder.accepted_of_apply {call : PairingResponseCall} (h : (r.apply call).Accepted)
    (hevent : ∀ reply, (r.object.apply call).1 ≠ .accepted reply) : r.Accepted := by
  obtain ⟨now, reply, h⟩ := h
  rcases List.mem_append.mp h with h | h
  · exact ⟨now, reply, h⟩
  · have := List.mem_singleton.mp h
    simp only [Prod.mk.injEq] at this
    exact absurd this.2.symm (hevent reply)

/-- What an initiator hands out is its own request, served. -/
theorem Initiator.served_of_bytes {call : PairingRequestCall} {raw : Bytes}
    (h : (x.object.apply call).1.bytes = some raw) :
    raw = (PairingMessage.request x.object.attemptId).encode ∧ (x.apply call).Served := by
  have hstep := x.object.requestStep_apply call
  have hcalls : (x.apply call).calls = x.calls ++ [(call, (x.object.apply call).1)] := rfl
  rw [Initiator.Served, apply_attemptId, hcalls]
  generalize (x.object.apply call).1 = reply at h hstep
  generalize (x.object.apply call).2 = object at hstep
  cases hstep with
  | same hreply | ended _ hreply _ =>
      cases reply with
      | message bytes => exact absurd (congrArg PairingRequestReply.message h) (hreply raw)
      | event event => cases h
  | served =>
      cases h
      exact ⟨rfl, _, List.mem_append_right _ (List.mem_singleton.mpr rfl)⟩
  | sent | accepted | rejected => cases h

/-- A responder's reply is its decision on its own attempt. -/
theorem Responder.justified_of_reply {net : Network P} {call : PairingResponseCall} {raw : Bytes}
    (hr : r.apply call ∈ net.responders) (h : (r.object.apply call).1.reply = some raw) :
    ∃ m : PairingMessage, raw = m.encode ∧ Justified net m := by
  have hstep := r.object.responseStep_apply call
  have hcalls : (r.apply call).calls = r.calls ++ [(call, (r.object.apply call).1)] := rfl
  have hobject : (r.apply call).object = (r.object.apply call).2 := rfl
  generalize (r.object.apply call).1 = event at h hstep hcalls
  generalize (r.object.apply call).2 = object at hstep hobject
  cases hstep with
  | same hreply | ended _ hreply _ =>
      rw [hreply] at h
      cases h
  | @accepted now hstate =>
      cases h
      refine ⟨.requestAccepted r.object.attemptId, rfl, .requestAccepted ⟨_, hr, by simp, now,
        (PairingMessage.requestAccepted r.object.attemptId).encode, ?_⟩⟩
      rw [hcalls]
      exact List.mem_append_right _ (List.mem_singleton.mpr rfl)
  | rejected hstate =>
      cases h
      exact ⟨_, rfl, .requestRejected ⟨_, hr, by simp, by rw [hobject]⟩⟩
  | sent => cases h

/-- A call on an initiator keeps what its state tells, if the messages delivered to it stand
for decisions. -/
theorem InitiatorOk.apply {net net' : Network P} (h : InitiatorOk net x) (hg : Grows net net')
    {call : PairingRequestCall}
    (hraw : ∀ raw now m, call = .handleRemoteMessage raw now →
      PairingMessage.decode raw = .ok m → Justified net m) :
    InitiatorOk net' (x.apply call) := by
  have hstep := x.object.requestStep_apply call
  have hmono := h.mono hg
  have hcalls : (x.apply call).calls = x.calls ++ [(call, (x.object.apply call).1)] := rfl
  have hobject : (x.apply call).object = (x.object.apply call).2 := rfl
  have hwas := fun hs => (h.sent hs).apply call
  generalize (x.object.apply call).1 = reply at hstep hcalls
  generalize (x.object.apply call).2 = object at hstep hobject
  cases hstep with
  | same | served =>
      exact ⟨by rwa [hobject], by rw [hobject]; exact hmono.ready,
        by rw [hobject]; exact hmono.rejected⟩
  | ended _ _ hstate =>
      constructor <;> rw [hobject] <;> rcases hstate with rfl | rfl | ⟨failure, rfl⟩ <;> simp
  | @sent now hstate =>
      have hsent : (x.apply (.markRequestSent now)).WasSent :=
        ⟨now, by rw [hcalls]; exact List.mem_append_right _ (List.mem_singleton.mpr rfl)⟩
      exact ⟨fun _ => hsent, by simp [hobject], by simp [hobject]⟩
  | accepted hstate hdec =>
      cases hraw _ _ _ rfl hdec with
      | requestAccepted haccepted =>
          refine ⟨fun _ => hwas (.inl hstate), fun _ => ?_, by simp [hobject]⟩
          rw [hobject]
          exact hg.accepted _ haccepted
  | rejected hstate hdec =>
      cases hraw _ _ _ rfl hdec with
      | requestRejected hrejected =>
          refine ⟨by simp [hobject], by simp [hobject], fun reason hreason => ?_⟩
          rw [hobject] at hreason ⊢
          cases hreason
          exact hg.rejected _ _ hrejected

/-- A call on a responder keeps its decision the only one. -/
theorem ResponderOk.apply {net net' : Network P} (h : ResponderOk net r) (hg : Grows net net')
    (call : PairingResponseCall) : ResponderOk net' (r.apply call) := by
  have hserved : ServedFor net' (r.apply call).object.attemptId := by
    rw [Responder.apply_attemptId]
    exact hg.served _ h.served
  have hstep := r.object.responseStep_apply call
  have hback := @Responder.accepted_of_apply r call
  have hobject : (r.apply call).object = (r.object.apply call).2 := rfl
  generalize (r.object.apply call).1 = event at hstep hback
  generalize (r.object.apply call).2 = object at hstep hobject
  refine ⟨hserved, ?_, ?_⟩
  · intro hstate hacc
    rw [hobject] at hstate
    cases hstep with
    | same hreply =>
        exact h.undecided hstate (hback hacc fun reply heq => by simp [heq,
          PairingResponseEvent.reply] at hreply)
    | ended _ _ hended =>
        rcases hended with rfl | rfl | rfl <;> cases hstate
    | accepted | rejected | sent => cases hstate
  · intro reason hstate hacc
    rw [hobject] at hstate
    cases hstep with
    | same hreply =>
        exact h.exclusive reason hstate (hback hacc fun reply heq => by simp [heq,
          PairingResponseEvent.reply] at hreply)
    | ended _ _ hended =>
        rcases hended with rfl | rfl | rfl <;> cases hstate
    | rejected hwaiting => exact h.undecided hwaiting (hback hacc (by simp))
    | accepted | sent => cases hstate

end Calls

/-! ## Steps of the network -/

section Steps

variable {P : Type} {ids : P → PairingAttemptId} {net net' : Network P}

/-- A message that decodes was produced as such. -/
theorem NetworkInv.justified (h : NetworkInv ids net) {raw : Bytes} {m : PairingMessage}
    (hraw : raw ∈ net.pool) (hdec : PairingMessage.decode raw = .ok m) : Justified net m := by
  obtain ⟨m', rfl, hm⟩ := h.pool raw hraw
  rw [PairingMessage.decode_encode] at hdec
  cases hdec
  exact hm

variable [DecidableEq P]

theorem mem_set_or {α : Type} {l : List α} {i : Nat} {a b x : α} (h : l[i]? = some a)
    (hx : x ∈ l) : x = a ∨ x ∈ l.set i b := by
  obtain ⟨j, hj⟩ := List.getElem?_of_mem hx
  by_cases hij : i = j
  · subst hij
    rw [h] at hj
    exact .inl (Option.some.inj hj).symm
  · exact .inr (List.mem_of_getElem? (by rwa [List.getElem?_set_ne hij]))

theorem Network.Step.grows (h : Network.Step net net') : Grows net net' := by
  cases h with
  | initiator p call hraw =>
      refine ⟨fun id => ?_, fun _ => id, fun _ _ => id⟩
      rintro ⟨q, hid, hserved⟩
      refine ⟨q, ?_⟩
      by_cases hq : q = p
      · subst hq
        simp only [Network.callInitiator, Function.update_self, Initiator.apply_attemptId]
        exact ⟨hid, hserved.apply call⟩
      · simp only [Network.callInitiator, Function.update_of_ne hq]
        exact ⟨hid, hserved⟩
  | build raw deadline response hraw hbuild =>
      refine ⟨fun _ => id, ?_, ?_⟩
      · rintro id ⟨r, hr, hacc⟩
        exact ⟨r, List.mem_append_left _ hr, hacc⟩
      · rintro id reason ⟨r, hr, hrej⟩
        exact ⟨r, List.mem_append_left _ hr, hrej⟩
  | responder i r call hi =>
      have hlt := (List.getElem?_eq_some_iff.mp hi).1
      refine ⟨fun _ => id, ?_, ?_⟩
      · rintro id ⟨x, hx, hid, hacc⟩
        rcases mem_set_or (b := r.apply call) hi hx with rfl | hx
        · exact ⟨_, List.mem_set hlt _, by simpa using hid, hacc.apply call⟩
        · exact ⟨x, hx, hid, hacc⟩
      · rintro id reason ⟨x, hx, hid, hstate⟩
        rcases mem_set_or (b := r.apply call) hi hx with rfl | hx
        · exact ⟨_, List.mem_set hlt _, by simpa using hid,
            (x.object.responseStep_apply call).rejected_stays hstate⟩
        · exact ⟨x, hx, hid, hstate⟩

theorem NetworkInv.step (h : NetworkInv ids net) (hstep : Network.Step net net') :
    NetworkInv ids net' := by
  -- what justified a message before the step still does, since logs only grow
  have hg := hstep.grows
  have hpool : ∀ raw ∈ net.pool, ∃ m : PairingMessage, raw = m.encode ∧ Justified net' m := by
    intro raw hraw
    obtain ⟨m, rfl, hm⟩ := h.pool raw hraw
    exact ⟨m, rfl, hm.mono hg⟩
  cases hstep with
  | initiator p call hraw =>
      refine ⟨fun q => ?_, fun q => ?_, fun r hr => (h.responders r hr).mono hg, ?_⟩
      · by_cases hq : q = p
        · subst hq
          simpa [Network.callInitiator] using h.attempts q
        · simpa [Network.callInitiator, Function.update_of_ne hq] using h.attempts q
      · by_cases hq : q = p
        · subst hq
          simp only [Network.callInitiator, Function.update_self]
          refine (h.initiators q).apply hg fun raw now m hcall hdec => ?_
          exact h.justified (hraw raw now hcall) hdec
        · simpa [Network.callInitiator, Function.update_of_ne hq] using (h.initiators q).mono hg
      · intro raw hmem
        rcases List.mem_append.mp hmem with hmem | hmem
        · exact hpool raw hmem
        · obtain ⟨rfl, hserved⟩ := Initiator.served_of_bytes (Option.mem_toList.mp hmem)
          exact ⟨_, rfl, .request ⟨p, by simp [Network.callInitiator],
            by simpa [Network.callInitiator] using hserved⟩⟩
  | build raw deadline response hraw hbuild =>
      refine ⟨h.attempts, fun p => (h.initiators p).mono hg, fun r hr => ?_, hpool⟩
      rcases List.mem_append.mp hr with hr | hr
      · exact (h.responders r hr).mono hg
      · rw [List.mem_singleton.mp hr]
        -- a responder is built from a request that some initiator has served
        unfold PairingResponse.fromRequest at hbuild
        split at hbuild
        · cases hbuild
        · next id hdec =>
            cases hbuild
            cases h.justified hraw hdec with
            | request hserved =>
                refine ⟨hg.served _ hserved, fun _ => ?_, fun reason hstate => by cases hstate⟩
                rintro ⟨now, reply, hmem⟩
                cases hmem
        · cases hbuild
        · cases hbuild
  | responder i r call hi =>
      have hlt := (List.getElem?_eq_some_iff.mp hi).1
      refine ⟨h.attempts, fun p => (h.initiators p).mono hg, fun x hx => ?_, ?_⟩
      · rcases List.mem_or_eq_of_mem_set hx with hx | rfl
        · exact (h.responders x hx).mono hg
        · exact (h.responders r (List.mem_of_getElem? hi)).apply hg call
      · intro raw hmem
        rcases List.mem_append.mp hmem with hmem | hmem
        · exact hpool raw hmem
        · exact Responder.justified_of_reply (List.mem_set hlt _) (Option.mem_toList.mp hmem)

theorem networkInv_init (ids : P → PairingAttemptId) (deadlines : P → Duration)
    (h : (pairingNetwork ids deadlines).init net) : NetworkInv ids net := by
  obtain rfl := h
  refine ⟨fun _ => rfl, fun p => ⟨?_, ?_, ?_⟩, by simp, by simp⟩
  all_goals simp [PairingRequest.withAttemptId]

theorem networkInv_of_reachable {deadlines : P → Duration}
    (h : (pairingNetwork ids deadlines).Reachable net) : NetworkInv ids net :=
  TSys.invariant (fun _ => networkInv_init ids deadlines) (fun _ _ hI hs => hI.step hs) h

end Steps

/-! ## What holds in every reachable state -/

/-- What two parties know of each other. -/
structure PairingSafe {P : Type} (ids : P → PairingAttemptId) (net : Network P) : Prop where
  /-- A ready initiator was marked sent, and a responder for its attempt has accepted. -/
  ready : ∀ p, (net.initiators p).object.state = .readyForNextPairingStage →
    (net.initiators p).WasSent ∧ ∃ r ∈ net.responders, r.object.attemptId = ids p ∧ r.Accepted
  /-- A rejected initiator has the reason of a responder that rejected its attempt. -/
  rejected : ∀ p reason, (net.initiators p).object.state = .rejected reason →
    ∃ r ∈ net.responders, r.object.attemptId = ids p ∧ r.object.state = .rejected reason
  /-- A responder's attempt is one whose initiator served its request bytes. -/
  served : ∀ r ∈ net.responders, ∃ p, r.object.attemptId = ids p ∧ (net.initiators p).Served
  /-- With a single responder the two sides never hold opposite outcomes. -/
  agree : ∀ p, (∀ (i j : Nat) (x y : Responder),
      net.responders[i]? = some x → net.responders[j]? = some y →
      x.object.attemptId = ids p → y.object.attemptId = ids p → i = j) →
    ∀ r ∈ net.responders, r.object.attemptId = ids p →
      ¬ ((net.initiators p).object.state = .readyForNextPairingStage ∧
        ∃ reason, r.object.state = .rejected reason) ∧
      ¬ ((∃ reason, (net.initiators p).object.state = .rejected reason) ∧ r.Accepted)

/-- **The parties agree**, whatever the network delivers and whenever the callers act.
Attempt identifiers need not even be distinct. -/
theorem pairing_network_safe {P : Type} [DecidableEq P] {ids : P → PairingAttemptId}
    {deadlines : P → Duration} {net : Network P}
    (h : (pairingNetwork ids deadlines).Reachable net) : PairingSafe ids net := by
  have hinv := networkInv_of_reachable h
  have hready : ∀ p, (net.initiators p).object.state = .readyForNextPairingStage →
      AcceptedFor net (ids p) := fun p hp => hinv.attempts p ▸ (hinv.initiators p).ready hp
  have hrejected : ∀ p reason, (net.initiators p).object.state = .rejected reason →
      RejectedFor net (ids p) reason :=
    fun p reason hp => hinv.attempts p ▸ (hinv.initiators p).rejected reason hp
  have hsingle : ∀ p, (∀ (i j : Nat) (x y : Responder),
      net.responders[i]? = some x → net.responders[j]? = some y →
      x.object.attemptId = ids p → y.object.attemptId = ids p → i = j) →
      ∀ x ∈ net.responders, x.object.attemptId = ids p →
      ∀ y ∈ net.responders, y.object.attemptId = ids p → x = y := by
    intro p hone x hx hxid y hy hyid
    obtain ⟨i, hi⟩ := List.getElem?_of_mem hx
    obtain ⟨j, hj⟩ := List.getElem?_of_mem hy
    obtain rfl := hone i j x y hi hj hxid hyid
    exact Option.some.inj (hi.symm.trans hj)
  refine ⟨fun p hp => ⟨(hinv.initiators p).sent (.inr hp), hready p hp⟩, hrejected, ?_, ?_⟩
  · intro r hr
    obtain ⟨p, hid, hserved⟩ := (hinv.responders r hr).served
    exact ⟨p, by rw [← hid, hinv.attempts], hserved⟩
  · intro p hone r hr hid
    constructor
    · rintro ⟨hp, reason, hreason⟩
      obtain ⟨x, hx, hxid, hacc⟩ := hready p hp
      obtain rfl := hsingle p hone x hx hxid r hr hid
      exact (hinv.responders x hx).exclusive reason hreason hacc
    · rintro ⟨⟨reason, hp⟩, hacc⟩
      obtain ⟨x, hx, hxid, hreason⟩ := hrejected p reason hp
      obtain rfl := hsingle p hone x hx hxid r hr hid
      exact (hinv.responders x hx).exclusive reason hreason hacc

/-- A request served, sent, accepted and answered. -/
theorem pairing_network_safe_accepted :
    let id : PairingAttemptId := ⟨List.replicate 16 7, by decide⟩
    ∃ net : Network Unit, PairingSafe (fun _ => id) net ∧
      (net.initiators ()).object.state = .readyForNextPairingStage := by
  intro id
  let request := (PairingMessage.request id).encode
  let reply := (PairingMessage.requestAccepted id).encode
  let T := pairingNetwork (fun _ : Unit => id) (fun _ => 100)
  have h₀ : T.Reachable _ := .init rfl
  have h₁ := h₀.step (.initiator () (.requestMessage 1) nofun)
  have h₂ := h₁.step (.initiator () (.markRequestSent 2) nofun)
  have h₃ := h₂.step (.build request 100 ⟨id, 100, .awaitingDecision⟩ (by decide) (by decide))
  have h₄ := h₃.step (.responder 0 _ (.accept 3) rfl)
  have h₅ := h₄.step (.initiator () (.handleRemoteMessage reply 4) (by
    rintro raw now heq
    cases heq
    decide))
  exact ⟨_, pairing_network_safe h₅, by decide⟩

end LocalTransfer
