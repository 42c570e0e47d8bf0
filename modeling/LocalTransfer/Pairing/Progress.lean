import LocalTransfer.Pairing.Network
import LocalTransfer.Pairing.Replies
import Mathlib.Logic.Relation

/-!
# Pairing can succeed

In every reachable state of the network, whatever was lost or delayed so far, an attempt that
is still live can be completed at any moment before its deadline: by calls made at that moment,
by messages the network has or the parties still hand out, and without a call on any other
attempt (`live_attempt_can_succeed`).
-/

namespace LocalTransfer

open Lib

variable {P : Type} [DecidableEq P]

/-- The time a responder's call is made at. -/
def PairingResponseCall.now : PairingResponseCall → Option Duration
  | .accept now | .reject _ now | .markReplySent now | .checkDeadline now => some now
  | .cancel | .noteTransportFailure => none

/-- A step of the network whose call is made at this time. A responder is built without a look at
the clock. -/
inductive Network.StepAt (now : Duration) : Network P → Network P → Prop
  | initiator {net : Network P} (p : P) (call : PairingRequestCall) : call.now = some now →
      (∀ raw now, call = .handleRemoteMessage raw now → raw ∈ net.pool) →
      Network.StepAt now net (net.callInitiator p call)
  | build {net : Network P} (raw : Bytes) (deadline : Duration) (response : PairingResponse) :
      raw ∈ net.pool → PairingResponse.fromRequest raw deadline = .ok response →
      Network.StepAt now net (net.build response)
  | responder {net : Network P} (i : Nat) (r : Responder) (call : PairingResponseCall) :
      call.now = some now → net.responders[i]? = some r →
      Network.StepAt now net (net.callResponder i r call)

theorem Network.StepAt.step {now : Duration} {net net' : Network P}
    (h : Network.StepAt now net net') : Network.Step net net' := by
  cases h with
  | initiator p call hnow hpool => exact .initiator p call hpool
  | build raw deadline response hpool hnew => exact .build raw deadline response hpool hnew
  | responder i r call hnow hget => exact .responder i r call hget

/-- Steps of the network at one time, one after the other. -/
abbrev Network.RunsAt (now : Duration) : Network P → Network P → Prop :=
  Relation.ReflTransGen (Network.StepAt now)

/-- They lead from one reachable network to another. -/
theorem Network.RunsAt.reachable {ids : P → PairingAttemptId} {deadlines : P → Duration}
    {now : Duration} {net net' : Network P} (h : (pairingNetwork ids deadlines).Reachable net)
    (hrun : Network.RunsAt now net net') : (pairingNetwork ids deadlines).Reachable net' := by
  induction hrun with
  | refl => exact h
  | tail _ hstep ih => exact ih.step hstep.step

/-- What a party hands out stays in the network. -/
def Kept (net : Network P) : Prop :=
  ∀ p, (net.initiators p).Served →
    (PairingMessage.request (net.initiators p).object.attemptId).encode ∈ net.pool

/-- Serving a request puts it into the network. -/
theorem Initiator.bytes_of_served {x : Initiator} {call : PairingRequestCall}
    (h : (x.apply call).Served) : x.Served ∨ (x.object.apply call).1.bytes =
      some (PairingMessage.request x.object.attemptId).encode := by
  obtain ⟨now, hmem⟩ := h
  rw [apply_attemptId] at hmem
  rcases List.mem_append.mp hmem with hmem | hmem
  · exact .inl ⟨now, hmem⟩
  · have heq := List.mem_singleton.mp hmem
    exact .inr (congrArg (fun entry => entry.2.bytes) heq).symm

theorem kept_of_reachable {ids : P → PairingAttemptId} {deadlines : P → Duration}
    {net : Network P} (h : (pairingNetwork ids deadlines).Reachable net) : Kept net := by
  refine TSys.invariant ?_ ?_ h
  · rintro net rfl p ⟨now, hmem⟩
    cases hmem
  · intro net net' hkept hstep p hserved
    cases hstep with
    | initiator q call _ =>
        by_cases hp : p = q
        · subst hp
          simp only [Network.callInitiator, Function.update_self] at hserved ⊢
          rw [Initiator.apply_attemptId]
          rcases Initiator.bytes_of_served hserved with hbefore | hbytes
          · exact List.mem_append_left _ (hkept p hbefore)
          · exact List.mem_append_right _ (Option.mem_toList.mpr hbytes)
        · simp only [Network.callInitiator, Function.update_of_ne hp] at hserved ⊢
          exact List.mem_append_left _ (hkept p hserved)
    | build raw deadline response _ _ => exact hkept p hserved
    | responder i r call _ => exact List.mem_append_left _ (hkept p hserved)

/-! ## Calls in time -/

section Calls

variable {now : Duration}

namespace PairingRequest

variable {self : PairingRequest}

theorem not_terminal_iff : self.isTerminal = false ↔
    self.state = .requestCreated ∨ self.state = .awaitingRemoteResponse := by
  rw [isTerminal]
  cases self.state <;> simp

theorem requestMessage_in_time (hstate : self.state = .requestCreated)
    (hnow : now < self.deadline) :
    self.requestMessage now = (some (PairingMessage.request self.attemptId).encode, self) := by
  rw [requestMessage, shortCircuit_of_lt (not_terminal_iff.mpr (.inl hstate)) hnow]
  simp only [hstate]

theorem markRequestSent_in_time (hstate : self.state = .requestCreated)
    (hnow : now < self.deadline) :
    self.markRequestSent now =
      (.awaitingResponse, { self with state := .awaitingRemoteResponse }) := by
  rw [markRequestSent, shortCircuit_of_lt (not_terminal_iff.mpr (.inl hstate)) hnow]
  simp only [hstate]

theorem handleAccepted_in_time (hstate : self.state = .awaitingRemoteResponse)
    (hnow : now < self.deadline) :
    self.handleRemoteMessage (PairingMessage.requestAccepted self.attemptId).encode now =
      (.readyForNextPairingStage, { self with state := .readyForNextPairingStage }) := by
  have hid : (PairingMessage.requestAccepted self.attemptId).attemptId = self.attemptId := rfl
  rw [handleRemoteMessage, shortCircuit_of_lt (not_terminal_iff.mpr (.inr hstate)) hnow]
  simp only [PairingMessage.decode_encode, hid, ne_eq, not_true, if_false, hstate, reduceCtorEq]

end PairingRequest

namespace PairingResponse

variable {id : PairingAttemptId} {deadline : Duration}

theorem fromRequest_encode (id : PairingAttemptId) (deadline : Duration) :
    fromRequest (PairingMessage.request id).encode deadline =
      .ok ⟨id, deadline, .awaitingDecision⟩ := by
  rw [fromRequest, PairingMessage.decode_encode]

theorem accept_in_time (hnow : now < deadline) :
    accept ⟨id, deadline, .awaitingDecision⟩ now =
      (.accepted (PairingMessage.requestAccepted id).encode,
        ⟨id, deadline, .acceptedAwaitingSend⟩) := by
  rw [accept, shortCircuit_of_lt rfl hnow]

theorem markReplySent_in_time (hnow : now < deadline) :
    markReplySent ⟨id, deadline, .acceptedAwaitingSend⟩ now =
      (.readyForNextPairingStage, ⟨id, deadline, .readyForNextPairingStage⟩) := by
  rw [markReplySent, shortCircuit_of_lt rfl hnow]

end PairingResponse

end Calls

/-! ## Completing an attempt -/

section Runs

variable {net net' : Network P} {p : P} {now deadline : Duration} {id : PairingAttemptId}

theorem callInitiator_object (call : PairingRequestCall) :
    ((net.callInitiator p call).initiators p).object =
      ((net.initiators p).object.apply call).2 := by
  simp only [Network.callInitiator, Function.update_self]
  rfl

/-- A run at one time that calls on one attempt only, among the initiators. -/
structure OnlyFor (p : P) (now : Duration) (net net' : Network P) : Prop where
  run : Network.RunsAt now net net'
  others : ∀ q, q ≠ p → net'.initiators q = net.initiators q

theorem OnlyFor.trans {net'' : Network P} (h : OnlyFor p now net net')
    (h' : OnlyFor p now net' net'') : OnlyFor p now net net'' :=
  ⟨h.run.trans h'.run, fun q hq => (h'.others q hq).trans (h.others q hq)⟩

theorem OnlyFor.call {call : PairingRequestCall} (hnow : call.now = some now)
    (h : ∀ raw now, call = .handleRemoteMessage raw now → raw ∈ net.pool) :
    OnlyFor p now net (net.callInitiator p call) :=
  ⟨.single (.initiator p call hnow h), fun _ hq => Function.update_of_ne hq _ _⟩

/-- A request that was created is handed out and marked sent. -/
theorem send_request (hid : (net.initiators p).object.attemptId = id)
    (hstate : (net.initiators p).object.state = .requestCreated)
    (hnow : now < (net.initiators p).object.deadline) :
    ∃ net', OnlyFor p now net net' ∧ net'.responders = net.responders ∧
      (PairingMessage.request id).encode ∈ net'.pool ∧
      (net'.initiators p).object =
        { (net.initiators p).object with state := .awaitingRemoteResponse } := by
  subst hid
  let served := net.callInitiator p (.requestMessage now)
  have hmessage := PairingRequest.requestMessage_in_time hstate hnow
  have hserved : (served.initiators p).object = (net.initiators p).object :=
    (callInitiator_object _).trans (congrArg Prod.snd hmessage)
  have hpool : (PairingMessage.request (net.initiators p).object.attemptId).encode ∈
      served.pool := by
    refine List.mem_append_right _ (Option.mem_toList.mpr ?_)
    exact congrArg Prod.fst hmessage
  refine ⟨served.callInitiator p (.markRequestSent now), ?_, rfl,
    List.mem_append_left _ hpool, ?_⟩
  · exact (OnlyFor.call rfl fun raw now heq => by cases heq).trans
      (OnlyFor.call rfl fun raw now heq => by cases heq)
  · rw [callInitiator_object, hserved]
    exact congrArg Prod.snd (PairingRequest.markRequestSent_in_time hstate hnow)

/-- A request in the network is answered by a new responder. -/
theorem answer_request (hpool : (PairingMessage.request id).encode ∈ net.pool)
    (hnow : now < deadline) :
    ∃ net', Network.RunsAt now net net' ∧ net'.initiators = net.initiators ∧
      (PairingMessage.requestAccepted id).encode ∈ net'.pool ∧
      ∃ r : Responder, net'.responders = net.responders ++ [r] ∧
        r.object = ⟨id, deadline, .readyForNextPairingStage⟩ := by
  let fresh : Responder := ⟨⟨id, deadline, .awaitingDecision⟩, []⟩
  let built := net.build ⟨id, deadline, .awaitingDecision⟩
  let i := net.responders.length
  have hbuild : Network.StepAt now net built :=
    .build _ deadline _ hpool (PairingResponse.fromRequest_encode id deadline)
  have hfresh : built.responders[i]? = some fresh := List.getElem?_concat_length
  let accepted := built.callResponder i fresh (.accept now)
  have haccept : accepted.responders = net.responders ++ [fresh.apply (.accept now)] := by
    show (net.responders ++ [fresh]).set i _ = _
    rw [List.set_append_right _ _ le_rfl, Nat.sub_self]
    rfl
  have hreply : (PairingMessage.requestAccepted id).encode ∈ accepted.pool := by
    refine List.mem_append_right _ (Option.mem_toList.mpr ?_)
    exact congrArg (fun result => result.1.reply) (PairingResponse.accept_in_time hnow)
  have hobject : (fresh.apply (.accept now)).object = ⟨id, deadline, .acceptedAwaitingSend⟩ :=
    congrArg Prod.snd (PairingResponse.accept_in_time hnow)
  have hget : accepted.responders[i]? = some (fresh.apply (.accept now)) := by
    rw [haccept]
    exact List.getElem?_concat_length
  let sent := accepted.callResponder i (fresh.apply (.accept now)) (.markReplySent now)
  refine ⟨sent, ?_, rfl, List.mem_append_left _ hreply,
    (fresh.apply (.accept now)).apply (.markReplySent now), ?_, ?_⟩
  · exact ((Relation.ReflTransGen.single hbuild).tail (.responder i _ _ rfl hfresh)).tail
      (.responder i _ _ rfl hget)
  · show accepted.responders.set i _ = _
    rw [haccept, List.set_append_right _ _ le_rfl, Nat.sub_self]
    rfl
  · show ((fresh.apply (.accept now)).object.apply (.markReplySent now)).2 = _
    rw [hobject]
    exact congrArg Prod.snd (PairingResponse.markReplySent_in_time hnow)

/-- The reply is delivered. -/
theorem deliver_reply (hid : (net.initiators p).object.attemptId = id)
    (hstate : (net.initiators p).object.state = .awaitingRemoteResponse)
    (hpool : (PairingMessage.requestAccepted id).encode ∈ net.pool)
    (hnow : now < (net.initiators p).object.deadline) :
    ∃ net', OnlyFor p now net net' ∧ net'.responders = net.responders ∧
      (net'.initiators p).object.state = .readyForNextPairingStage := by
  subst hid
  let reply := (PairingMessage.requestAccepted (net.initiators p).object.attemptId).encode
  refine ⟨net.callInitiator p (.handleRemoteMessage reply now), OnlyFor.call rfl ?_, rfl, ?_⟩
  · rintro raw now' ⟨rfl, -⟩
    exact hpool
  · rw [callInitiator_object]
    exact congrArg (fun result => result.2.state)
      (PairingRequest.handleAccepted_in_time hstate hnow)

end Runs

/-- An attempt was completed on both sides, by calls made at this time: its initiator is ready, and
so is one new responder, with this deadline. No other attempt was called on. -/
structure Completed (p : P) (now deadline : Duration) (net net' : Network P) : Prop where
  only : OnlyFor p now net net'
  initiator : (net'.initiators p).object.state = .readyForNextPairingStage
  responder : ∃ r : Responder, net'.responders = net.responders ++ [r] ∧
    r.object = ⟨(net.initiators p).object.attemptId, deadline, .readyForNextPairingStage⟩

/-- Whatever has happened in the network: an attempt that is live, and whose request was not marked
sent without being handed out, can be completed by calls made at any time before the two
deadlines. -/
theorem live_attempt_can_succeed {ids : P → PairingAttemptId} {deadlines : P → Duration}
    {net : Network P} (h : (pairingNetwork ids deadlines).Reachable net) (p : P)
    (hlive : (net.initiators p).object.isTerminal = false)
    (hserved : (net.initiators p).object.state = .awaitingRemoteResponse →
      (net.initiators p).Served)
    {now deadline : Duration} (hnow : now < (net.initiators p).object.deadline)
    (hdeadline : now < deadline) : ∃ net', Completed p now deadline net net' := by
  let id := (net.initiators p).object.attemptId
  obtain ⟨waiting, hsend, hresponders, hpool, hobject⟩ : ∃ waiting, OnlyFor p now net waiting ∧
      waiting.responders = net.responders ∧ (PairingMessage.request id).encode ∈ waiting.pool ∧
      (waiting.initiators p).object =
        { (net.initiators p).object with state := .awaitingRemoteResponse } := by
    rcases PairingRequest.not_terminal_iff.mp hlive with hstate | hstate
    · exact send_request rfl hstate hnow
    · refine ⟨net, ⟨.refl, fun _ _ => rfl⟩, rfl, kept_of_reachable h p (hserved hstate), ?_⟩
      rw [← hstate]
  obtain ⟨answered, hanswer, hinitiators, hreply, r, hr, hready⟩ :=
    answer_request hpool hdeadline
  have hanswered : (answered.initiators p).object =
      { (net.initiators p).object with state := .awaitingRemoteResponse } := by
    rw [hinitiators, hobject]
  obtain ⟨net', hdeliver, hsame, hdone⟩ := deliver_reply (p := p) (by rw [hanswered])
    (by rw [hanswered]) hreply (by rw [hanswered]; exact hnow)
  refine ⟨net', (hsend.trans ⟨hanswer, ?_⟩).trans hdeliver, hdone, r, ?_, hready⟩
  · intro q _
    rw [hinitiators]
  · rw [hsame, hr, hresponders]

/-- An attempt whose request was handed out and marked sent, and lost since, with another attempt
that was cancelled. -/
theorem live_attempt_can_succeed_lost :
    let ids : Bool → PairingAttemptId := fun p =>
      ⟨List.replicate 16 (if p then 7 else 8), List.length_replicate⟩
    ∃ net net', (pairingNetwork ids fun _ => 100).Reachable net' ∧
      (net.initiators true).object.state = .awaitingRemoteResponse ∧
      Completed true 99 120 net net' := by
  intro ids
  let T := pairingNetwork ids fun _ => 100
  have h₀ : T.Reachable _ := .init rfl
  have h₁ := h₀.step (.initiator true (.requestMessage 1) nofun)
  have h₂ := h₁.step (.initiator false .cancel nofun)
  have h₃ := h₂.step (.initiator true (.markRequestSent 2) nofun)
  have hserved : Initiator.Served
      (Initiator.apply ⟨PairingRequest.withAttemptId (ids true) 100, []⟩ (.requestMessage 1)) :=
    ⟨1, List.mem_singleton_self _⟩
  obtain ⟨net', hdone⟩ := live_attempt_can_succeed h₃ true (by decide)
    (fun _ => hserved.apply (.markRequestSent 2)) (show (99 : Duration) < 100 by decide)
    (show (99 : Duration) < 120 by decide)
  exact ⟨_, net', hdone.only.run.reachable h₃, by decide, hdone⟩

end LocalTransfer
