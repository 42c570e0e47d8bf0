import LocalTransfer.Pairing.Network

/-!
# Pairing against an adversary

The network of the parties, and an adversary who may deliver any bytes to any party and start
responders with them. It cannot make up a message of an attempt whose identifier it does not
know. Such an attempt is resolved by a decision on it and by nothing else, whatever is sent to
its initiator (`hostile_network_safe`).
-/

namespace LocalTransfer

open Lib

/-- What the adversary can deliver: bytes that are no message, messages of the attempts that it
knows, and what a party has produced. -/
def Deliverable (known : PairingAttemptId → Prop) (pool : List Bytes) (raw : Bytes) : Prop :=
  ∀ m, PairingMessage.decode raw = .ok m → known m.attemptId ∨ raw ∈ pool

section System

variable {P : Type} [DecidableEq P]

/-- One call on a party, with what the adversary delivers to it. -/
inductive Network.HostileStep (known : PairingAttemptId → Prop) :
    Network P → Network P → Prop
  | initiator {net : Network P} (p : P) (call : PairingRequestCall) :
      (∀ raw now, call = .handleRemoteMessage raw now → Deliverable known net.pool raw) →
      Network.HostileStep known net (net.callInitiator p call)
  | build {net : Network P} (raw : Bytes) (deadline : Duration) (response : PairingResponse) :
      Deliverable known net.pool raw → PairingResponse.fromRequest raw deadline = .ok response →
      Network.HostileStep known net (net.build response)
  | responder {net : Network P} (i : Nat) (r : Responder) (call : PairingResponseCall) :
      net.responders[i]? = some r → Network.HostileStep known net (net.callResponder i r call)

/-- Every run from fresh attempts, with an adversary who knows these identifiers. -/
def hostileNetwork (known : PairingAttemptId → Prop) (ids : P → PairingAttemptId)
    (deadlines : P → Duration) : TSys (Network P) where
  init := (pairingNetwork ids deadlines).init
  step := Network.HostileStep known

/-- The network with one more message in it. -/
def Network.expose (net : Network P) (raw : Bytes) : Network P :=
  { net with pool := raw :: net.pool }

/-- An adversary's step is a step of the network that holds what it delivers. -/
theorem Network.HostileStep.exposed {known : PairingAttemptId → Prop} {net net' : Network P}
    (h : Network.HostileStep known net net') :
    ∃ raw pool, Network.Step (net.expose raw) { net' with pool := raw :: pool } := by
  cases h with
  | initiator p call _ =>
      obtain ⟨raw, hraw⟩ : ∃ raw, ∀ raw' now,
          call = .handleRemoteMessage raw' now → raw' = raw := by
        cases call with
        | handleRemoteMessage raw now =>
            refine ⟨raw, ?_⟩
            rintro raw' now' ⟨rfl, -⟩
            rfl
        | requestMessage | markRequestSent | checkDeadline | cancel | noteTransportFailure =>
            refine ⟨[], ?_⟩
            intro raw' now' heq
            cases heq
      refine ⟨raw, _, Network.Step.initiator p call ?_⟩
      intro raw' now heq
      rw [hraw raw' now heq]
      exact List.mem_cons_self
  | build raw deadline response _ hbuild =>
      exact ⟨raw, _, Network.Step.build raw deadline response List.mem_cons_self hbuild⟩
  | responder i r call hi => exact ⟨[], _, Network.Step.responder i r call hi⟩

/-- What nobody takes back, the adversary does not either. -/
theorem Network.HostileStep.grows {known : PairingAttemptId → Prop} {net net' : Network P}
    (h : Network.HostileStep known net net') : Grows net net' := by
  obtain ⟨raw, pool, hstep⟩ := h.exposed
  exact ⟨hstep.grows.served, hstep.grows.accepted, hstep.grows.rejected⟩

end System

/-! ## The invariant -/

/-- What ties the parties of an attempt that the adversary does not know. -/
structure HostileInv {P : Type} (known : PairingAttemptId → Prop) (ids : P → PairingAttemptId)
    (net : Network P) : Prop where
  attempts : ∀ p, (net.initiators p).object.attemptId = ids p
  initiators : ∀ p, ¬ known (ids p) → InitiatorOk net (net.initiators p)
  responders : ∀ r ∈ net.responders, ¬ known r.object.attemptId → ResponderOk net r
  pool : ∀ raw ∈ net.pool, ∃ m : PairingMessage, raw = m.encode ∧ Justified net m

section Calls

variable {P : Type} {net net' : Network P} {x : Initiator} {raw : Bytes} {now : Duration}

/-- A message of another attempt is like no message: only the deadline may have passed. -/
theorem PairingRequest.handleRemoteMessage_foreign {self : PairingRequest} {m : PairingMessage}
    (hdec : PairingMessage.decode raw = .ok m) (hforeign : m.attemptId ≠ self.attemptId) :
    (self.handleRemoteMessage raw now).2 = (self.checkDeadline now).2 := by
  rw [handleRemoteMessage, checkDeadline]
  rcases self.shortCircuit_cases now with h | ⟨-, h⟩ | ⟨-, h⟩ <;>
    simp only [h, hdec, if_pos hforeign]

/-- It leaves an initiator with what its state tells. -/
theorem InitiatorOk.foreign {m : PairingMessage} (h : InitiatorOk net x) (hg : Grows net net')
    (hdec : PairingMessage.decode raw = .ok m) (hforeign : m.attemptId ≠ x.object.attemptId) :
    InitiatorOk net' (x.apply (.handleRemoteMessage raw now)) := by
  have hcheck : InitiatorOk net' (x.apply (.checkDeadline now)) := by
    refine h.apply hg ?_
    intro raw now m heq
    cases heq
  have hobject : (x.apply (.handleRemoteMessage raw now)).object =
      (x.apply (.checkDeadline now)).object :=
    PairingRequest.handleRemoteMessage_foreign hdec hforeign
  have hsent : (x.apply (.checkDeadline now)).WasSent → x.WasSent := by
    rintro ⟨at', hmem⟩
    rcases List.mem_append.mp hmem with hmem | hmem
    · exact ⟨at', hmem⟩
    · cases List.mem_singleton.mp hmem
  refine ⟨?_, ?_, ?_⟩
  · intro hstate
    rw [hobject] at hstate
    exact (hsent (hcheck.sent hstate)).apply _
  · rw [hobject]
    exact hcheck.ready
  · rw [hobject]
    exact hcheck.rejected

variable {known : PairingAttemptId → Prop} {ids : P → PairingAttemptId}

/-- What can be delivered of an unknown attempt stands for a decision. -/
theorem HostileInv.justified (h : HostileInv known ids net) {m : PairingMessage}
    (hraw : Deliverable known net.pool raw) (hdec : PairingMessage.decode raw = .ok m)
    (hknown : ¬ known m.attemptId) : Justified net m := by
  obtain ⟨m', rfl, hm⟩ := h.pool raw ((hraw m hdec).resolve_left hknown)
  rw [PairingMessage.decode_encode] at hdec
  cases hdec
  exact hm

/-- Whatever is delivered to the initiator of an unknown attempt. -/
theorem HostileInv.initiator_ok (h : HostileInv known ids net) {p : P} (hp : ¬ known (ids p))
    (hg : Grows net net') {call : PairingRequestCall}
    (hraw : ∀ raw now, call = .handleRemoteMessage raw now → Deliverable known net.pool raw) :
    InitiatorOk net' ((net.initiators p).apply call) := by
  have hown : ∀ {raw now m}, call = .handleRemoteMessage raw now →
      PairingMessage.decode raw = .ok m → m.attemptId = ids p → Justified net m := by
    intro raw now m hcall hdec hid
    exact h.justified (hraw raw now hcall) hdec (hid ▸ hp)
  cases call with
  | handleRemoteMessage raw now =>
      cases hdec : PairingMessage.decode raw with
      | error error =>
          refine (h.initiators p hp).apply hg ?_
          rintro raw' now' m ⟨rfl, -⟩ hdec'
          rw [hdec] at hdec'
          cases hdec'
      | ok m =>
          by_cases hid : m.attemptId = ids p
          · refine (h.initiators p hp).apply hg ?_
            intro raw' now' m' hcall hdec'
            cases hcall
            rw [hdec] at hdec'
            cases hdec'
            exact hown rfl hdec hid
          · exact (h.initiators p hp).foreign hg hdec (h.attempts p ▸ hid)
  | requestMessage | markRequestSent | checkDeadline | cancel | noteTransportFailure =>
      refine (h.initiators p hp).apply hg ?_
      intro raw' now' m hcall
      cases hcall

end Calls

section Steps

variable {P : Type} [DecidableEq P] {known : PairingAttemptId → Prop}
  {ids : P → PairingAttemptId} {net net' : Network P}

theorem HostileInv.step (h : HostileInv known ids net)
    (hstep : Network.HostileStep known net net') : HostileInv known ids net' := by
  have hg := hstep.grows
  have hpool : ∀ raw ∈ net.pool, ∃ m : PairingMessage, raw = m.encode ∧ Justified net' m := by
    intro raw hraw
    obtain ⟨m, rfl, hm⟩ := h.pool raw hraw
    exact ⟨m, rfl, hm.mono hg⟩
  cases hstep with
  | initiator p call hraw =>
      refine ⟨?_, ?_, ?_, ?_⟩
      · intro q
        by_cases hq : q = p
        · subst hq
          simpa [Network.callInitiator] using h.attempts q
        · simpa [Network.callInitiator, Function.update_of_ne hq] using h.attempts q
      · intro q hunknown
        by_cases hq : q = p
        · subst hq
          simp only [Network.callInitiator, Function.update_self]
          exact h.initiator_ok hunknown hg hraw
        · simpa [Network.callInitiator, Function.update_of_ne hq] using
            (h.initiators q hunknown).mono hg
      · intro r hr hunknown
        exact (h.responders r hr hunknown).mono hg
      · intro raw hmem
        rcases List.mem_append.mp hmem with hmem | hmem
        · exact hpool raw hmem
        · obtain ⟨rfl, hserved⟩ := Initiator.served_of_bytes (Option.mem_toList.mp hmem)
          refine ⟨_, rfl, .request ⟨p, ?_, ?_⟩⟩
          · simp [Network.callInitiator]
          · simpa [Network.callInitiator] using hserved
  | build raw deadline response hraw hbuild =>
      refine ⟨h.attempts, fun p hp => (h.initiators p hp).mono hg, ?_, hpool⟩
      intro r hr hunknown
      rcases List.mem_append.mp hr with hr | hr
      · exact (h.responders r hr hunknown).mono hg
      · rw [List.mem_singleton.mp hr] at hunknown ⊢
        unfold PairingResponse.fromRequest at hbuild
        split at hbuild
        · cases hbuild
        · next id hdec =>
            cases hbuild
            cases h.justified hraw hdec hunknown with
            | request hserved =>
                refine ⟨hg.served _ hserved, ?_, ?_⟩
                · rintro - ⟨now, reply, hmem⟩
                  cases hmem
                · intro reason hstate
                  cases hstate
        · cases hbuild
        · cases hbuild
  | responder i r call hi =>
      have hlt := (List.getElem?_eq_some_iff.mp hi).1
      refine ⟨h.attempts, fun p hp => (h.initiators p hp).mono hg, ?_, ?_⟩
      · intro x hx hunknown
        rcases List.mem_or_eq_of_mem_set hx with hx | rfl
        · exact (h.responders x hx hunknown).mono hg
        · rw [Responder.apply_attemptId] at hunknown
          exact (h.responders r (List.mem_of_getElem? hi) hunknown).apply hg call
      · intro raw hmem
        rcases List.mem_append.mp hmem with hmem | hmem
        · exact hpool raw hmem
        · exact Responder.justified_of_reply (List.mem_set hlt _) (Option.mem_toList.mp hmem)

theorem hostileInv_of_reachable {deadlines : P → Duration}
    (h : (hostileNetwork known ids deadlines).Reachable net) : HostileInv known ids net := by
  refine TSys.invariant ?_ (fun _ _ hI hs => hI.step hs) h
  intro net hinit
  have hinv := networkInv_init ids deadlines hinit
  obtain rfl := hinit
  exact ⟨hinv.attempts, fun p _ => hinv.initiators p, by simp, by simp⟩

end Steps

/-! ## Attempts the adversary does not know -/

/-- What the two sides of an attempt know of each other. -/
structure AttemptSafe {P : Type} (net : Network P) (p : P) : Prop where
  /-- A ready initiator was marked sent, and a responder for its attempt has accepted. -/
  ready : (net.initiators p).object.state = .readyForNextPairingStage →
    (net.initiators p).WasSent ∧ AcceptedFor net (net.initiators p).object.attemptId
  /-- A rejected one has the reason of a responder that rejected its attempt. -/
  rejected : ∀ reason, (net.initiators p).object.state = .rejected reason →
    RejectedFor net (net.initiators p).object.attemptId reason
  /-- Its responders answer a request that was handed out, and none of them both accepts and
  rejects. -/
  responders : ∀ r ∈ net.responders, r.object.attemptId = (net.initiators p).object.attemptId →
    ServedFor net r.object.attemptId ∧
      ∀ reason, r.object.state = .rejected reason → ¬ r.Accepted

/-- Whatever the adversary sends to whomever, an attempt that it does not know is resolved by a
decision that a responder has taken on the request of that attempt. -/
theorem hostile_network_safe {P : Type} [DecidableEq P] {known : PairingAttemptId → Prop}
    {ids : P → PairingAttemptId} {deadlines : P → Duration} {net : Network P}
    (h : (hostileNetwork known ids deadlines).Reachable net) (p : P) (hp : ¬ known (ids p)) :
    AttemptSafe net p := by
  have hinv := hostileInv_of_reachable h
  have hok := hinv.initiators p hp
  refine ⟨?_, hok.rejected, ?_⟩
  · intro hready
    exact ⟨hok.sent (.inr hready), hok.ready hready⟩
  · intro r hr hid
    have hunknown : ¬ known r.object.attemptId := by
      rw [hid, hinv.attempts]
      exact hp
    have hresponder := hinv.responders r hr hunknown
    exact ⟨hresponder.served, hresponder.exclusive⟩

/-- An adversary who knows one attempt makes its initiator ready, without any responder. The same
bytes leave the other waiting, until a responder accepts that one. -/
theorem hostile_network_safe_forged :
    let ids : Bool → PairingAttemptId :=
      fun b => ⟨List.replicate 16 b.toUInt8, List.length_replicate⟩
    ∃ net, (hostileNetwork (fun i => i = ids true) ids (fun _ : Bool => 100)).Reachable net ∧
      (net.initiators true).object.state = .readyForNextPairingStage ∧
      (net.initiators false).object.state = .readyForNextPairingStage ∧
      net.responders.map (fun r => r.object.attemptId) = [ids false] ∧ AttemptSafe net false := by
  intro ids
  let forged := (PairingMessage.requestAccepted (ids true)).encode
  let request := (PairingMessage.request (ids false)).encode
  let reply := (PairingMessage.requestAccepted (ids false)).encode
  let T := hostileNetwork (fun i => i = ids true) ids (fun _ : Bool => 100)
  have hforged : ∀ pool, Deliverable (fun i => i = ids true) pool forged := by
    intro pool m hdec
    rw [PairingMessage.decode_encode] at hdec
    cases hdec
    exact .inl rfl
  have hpooled : ∀ {pool raw}, raw ∈ pool → Deliverable (fun i => i = ids true) pool raw :=
    fun hmem _ _ => .inr hmem
  have hdelivered : ∀ {pool raw raw' now now'}, Deliverable (fun i => i = ids true) pool raw →
      PairingRequestCall.handleRemoteMessage raw now = .handleRemoteMessage raw' now' →
      Deliverable (fun i => i = ids true) pool raw' := by
    intro pool raw raw' now now' h heq
    cases heq
    exact h
  have h₀ : T.Reachable _ := .init rfl
  have h₁ := h₀.step (.initiator true (.markRequestSent 1) nofun)
  have h₂ := h₁.step (.initiator false (.requestMessage 1) nofun)
  have h₃ := h₂.step (.initiator false (.markRequestSent 2) nofun)
  have h₄ := h₃.step (.initiator true (.handleRemoteMessage forged 3) fun _ _ =>
    hdelivered (hforged _))
  have h₅ := h₄.step (.initiator false (.handleRemoteMessage forged 3) fun _ _ =>
    hdelivered (hforged _))
  have h₆ := h₅.step (.build request 100 ⟨ids false, 100, .awaitingDecision⟩ (hpooled (by decide))
    (by decide))
  have h₇ := h₆.step (.responder 0 _ (.accept 4) rfl)
  have h₈ := h₇.step (.initiator false (.handleRemoteMessage reply 5) fun _ _ =>
    hdelivered (hpooled (by decide)))
  exact ⟨_, h₈, by decide, by decide, by decide, hostile_network_safe h₈ false (by decide)⟩

end LocalTransfer
