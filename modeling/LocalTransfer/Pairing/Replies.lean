import LocalTransfer.Pairing.Response
import Mathlib.Tactic.Common

/-!
# What a responder ever sends

The log of a responder pairs each call with the event it returned. At most one entry of
it carries a reply. `Told` says what each state means about the log; a call keeps it
(`Told.apply`), so every run does.
-/

namespace LocalTransfer

open Lib PairingResponse

/-- A call with the event it returned. -/
abbrev ResponseEntry := PairingResponseCall × PairingResponseEvent

/-- A call that ends an attempt not yet resolved: a cancellation, a transport failure, or
any time-aware call once the deadline has passed. -/
def PairingResponseCall.Ends (deadline : Duration) : PairingResponseCall → Prop
  | .accept now | .reject _ now | .markReplySent now | .checkDeadline now => deadline ≤ now
  | .cancel | .noteTransportFailure => True

namespace PairingResponse

def run (self : PairingResponse) : List PairingResponseCall → PairingResponse
  | [] => self
  | call :: calls => (self.apply call).2.run calls

/-- The calls of a run with the events they return. -/
def log (self : PairingResponse) : List PairingResponseCall → List ResponseEntry
  | [] => []
  | call :: calls => (call, (self.apply call).1) :: (self.apply call).2.log calls

end PairingResponse

/-- The replies a log carries, in order. -/
def replies (log : List ResponseEntry) : List Bytes :=
  log.filterMap fun entry => entry.2.reply

/-- A decision made in time, and the reply that says it. -/
inductive Decides (id : PairingAttemptId) (deadline : Duration) :
    PairingResponseCall → PairingResponseEvent → Prop
  | accepted {now} : now < deadline →
      Decides id deadline (.accept now) (.accepted (PairingMessage.requestAccepted id).encode)
  | rejected {reason now} : now < deadline → Decides id deadline (.reject reason now)
      (.rejected (PairingMessage.requestRejected id reason).encode)

/-- A log with an acceptance. -/
def AcceptanceMade (log : List ResponseEntry) : Prop :=
  ∃ entry ∈ log, ∃ reply, entry.2 = .accepted reply

/-- A log without a call that ends the attempt. -/
def Unended (deadline : Duration) (log : List ResponseEntry) : Prop :=
  ∀ entry ∈ log, ¬ entry.1.Ends deadline

/-- An acceptance was produced and then marked sent in time, before any call that ends
the attempt. -/
def SentInTime (deadline : Duration) (log : List ResponseEntry) : Prop :=
  ∃ before now event after, log = before ++ (.markReplySent now, event) :: after ∧
    now < deadline ∧ AcceptanceMade before ∧ Unended deadline before

/-- What a state says about the log. -/
def Tells (id : PairingAttemptId) (deadline : Duration) (log : List ResponseEntry) :
    PairingResponseState → Prop
  | .awaitingDecision => replies log = []
  | .acceptedAwaitingSend =>
      replies log = [(PairingMessage.requestAccepted id).encode] ∧ AcceptanceMade log
  | .readyForNextPairingStage =>
      replies log = [(PairingMessage.requestAccepted id).encode] ∧ SentInTime deadline log
  | .rejected reason => replies log = [(PairingMessage.requestRejected id reason).encode]
  | .cancelled | .timedOut | .failed =>
      (replies log = [] ∨ replies log = [(PairingMessage.requestAccepted id).encode]) ∧
        ¬ Unended deadline log

/-- What is known of a responder after a log. -/
structure Told (id : PairingAttemptId) (deadline : Duration) (log : List ResponseEntry)
    (response : PairingResponse) : Prop where
  attemptId : response.attemptId = id
  deadline_eq : response.deadline = deadline
  decides : ∀ entry ∈ log, entry.2.reply ≠ none → Decides id deadline entry.1 entry.2
  unended : response.isTerminal = false → Unended deadline log
  sent : SentInTime deadline log → response.state = .readyForNextPairingStage
  tells : Tells id deadline log response.state

section Logs

variable {id : PairingAttemptId} {deadline : Duration} {log : List ResponseEntry}
  {entry : ResponseEntry} {response : PairingResponse}

theorem replies_concat : replies (log ++ [entry]) = replies log ++ entry.2.reply.toList := by
  cases h : entry.2.reply <;> simp [replies, h]

theorem acceptanceMade_concat : AcceptanceMade (log ++ [entry]) ↔
    AcceptanceMade log ∨ ∃ reply, entry.2 = .accepted reply := by
  simp [AcceptanceMade, or_and_right, exists_or]

theorem unended_concat : Unended deadline (log ++ [entry]) ↔
    Unended deadline log ∧ ¬ entry.1.Ends deadline := by
  simp [Unended, or_imp, forall_and]

theorem SentInTime.concat (h : SentInTime deadline log) : SentInTime deadline (log ++ [entry]) := by
  obtain ⟨before, now, event, after, rfl, hnow, haccepted, hunended⟩ := h
  exact ⟨before, now, event, after ++ [entry], by simp, hnow, haccepted, hunended⟩

/-- The last entry sends in time only after an acceptance that nothing has ended. -/
theorem sentInTime_concat (h : SentInTime deadline (log ++ [entry])) :
    SentInTime deadline log ∨ ∃ now, entry.1 = .markReplySent now ∧ now < deadline ∧
      AcceptanceMade log ∧ Unended deadline log := by
  obtain ⟨before, now, event, after, heq, hnow, haccepted, hunended⟩ := h
  rcases List.eq_nil_or_concat after with rfl | ⟨after, last, rfl⟩
  · obtain ⟨rfl, hlast⟩ := List.append_inj' heq rfl
    obtain rfl := List.singleton_inj.mp hlast
    exact .inr ⟨now, rfl, hnow, haccepted, hunended⟩
  · have hsplit : log ++ [entry] = (before ++ (.markReplySent now, event) :: after) ++ [last] := by
      simpa using heq
    obtain ⟨rfl, -⟩ := List.append_inj' hsplit rfl
    exact .inl ⟨before, now, event, after, rfl, hnow, haccepted, hunended⟩

/-- An acceptance in the log is among its replies. -/
theorem Told.mem_replies (h : Told id deadline log response) (haccepted : AcceptanceMade log) :
    (PairingMessage.requestAccepted id).encode ∈ replies log := by
  obtain ⟨entry, hmem, reply, hreply⟩ := haccepted
  have hdecides := h.decides entry hmem (by simp [hreply, PairingResponseEvent.reply])
  rw [hreply] at hdecides
  generalize entry.1 = call at hdecides
  cases hdecides with
  | accepted _ => exact List.mem_filterMap.mpr ⟨entry, hmem, by rw [hreply]; rfl⟩

/-- The two replies differ. -/
theorem encode_accepted_ne_rejected {reason : PairingRejectionReason} :
    (PairingMessage.requestAccepted id).encode ≠
      (PairingMessage.requestRejected id reason).encode := by
  intro h
  have hmessage := PairingMessage.decode_encode (.requestAccepted id)
  rw [h, PairingMessage.decode_encode] at hmessage
  cases hmessage

/-- and so do two rejections with different reasons. -/
theorem encode_rejected_injective {reason reason' : PairingRejectionReason}
    (h : (PairingMessage.requestRejected id reason).encode =
      (PairingMessage.requestRejected id reason').encode) : reason = reason' := by
  have hmessage := PairingMessage.decode_encode (.requestRejected id reason)
  rw [h, PairingMessage.decode_encode] at hmessage
  cases hmessage
  rfl

/-- The state is a rejection exactly when that is the reply. -/
theorem Told.rejected_iff (h : Told id deadline log response) {reason : PairingRejectionReason} :
    response.state = .rejected reason ↔
      replies log = [(PairingMessage.requestRejected id reason).encode] := by
  have htells := h.tells
  constructor
  · intro hstate
    rw [hstate] at htells
    exact htells
  · intro hreplies
    cases hstate : response.state with
    | awaitingDecision =>
        rw [hstate] at htells
        simp [Tells, hreplies] at htells
    | acceptedAwaitingSend | readyForNextPairingStage =>
        rw [hstate] at htells
        rw [Tells, hreplies, List.singleton_inj] at htells
        exact absurd htells.1.symm encode_accepted_ne_rejected
    | rejected reason' =>
        rw [hstate] at htells
        rw [Tells, hreplies, List.singleton_inj] at htells
        rw [encode_rejected_injective htells]
    | cancelled | timedOut | failed =>
        rw [hstate] at htells
        rw [Tells, hreplies, List.singleton_inj] at htells
        rcases htells.1 with h | h
        · cases h
        · exact absurd h.symm encode_accepted_ne_rejected

end Logs

/-! ## One call -/

namespace PairingResponse

variable {response : PairingResponse} {call : PairingResponseCall} {now : Duration}

/-- A resolved attempt ignores every call. -/
theorem apply_of_terminal (h : response.isTerminal) (call : PairingResponseCall) :
    response.apply call = (.ignored .alreadyResolved, response) := by
  cases call <;>
    simp [PairingResponse.apply, accept, reject, markReplySent, checkDeadline, cancel,
      noteTransportFailure, shortCircuit, h]

theorem shortCircuit_of_lt (h : response.isTerminal = false) (hnow : now < response.deadline) :
    response.shortCircuit now = (none, response) := by
  simp [shortCircuit, h, Nat.not_le.mpr hnow]

/-- A call that ends a live attempt ends it without a reply. -/
theorem apply_of_ends (h : response.isTerminal = false) (hends : call.Ends response.deadline) :
    (response.apply call).1.reply = none ∧ ∃ state,
      (state = .cancelled ∨ state = .timedOut ∨ state = .failed) ∧
      (response.apply call).2 = { response with state } := by
  cases call with
  | accept now | reject reason now | markReplySent now | checkDeadline now =>
      have hexpired : response.deadline ≤ now := hends
      simp only [PairingResponse.apply, accept, reject, markReplySent, checkDeadline, shortCircuit,
        h, hexpired, Bool.false_eq_true, if_false, if_true]
      exact ⟨rfl, .timedOut, by simp, rfl⟩
  | cancel =>
      simp only [PairingResponse.apply, cancel, h, Bool.false_eq_true, if_false]
      exact ⟨rfl, .cancelled, by simp, rfl⟩
  | noteTransportFailure =>
      simp only [PairingResponse.apply, noteTransportFailure, h, Bool.false_eq_true, if_false]
      exact ⟨rfl, .failed, by simp, rfl⟩

end PairingResponse

section Steps

variable {id : PairingAttemptId} {deadline : Duration} {log : List ResponseEntry}
  {response : PairingResponse} {call : PairingResponseCall} {event : PairingResponseEvent}

theorem Told.decides_concat (h : Told id deadline log response)
    (hlast : event.reply ≠ none → Decides id deadline call event) :
    ∀ entry ∈ log ++ [(call, event)], entry.2.reply ≠ none →
      Decides id deadline entry.1 entry.2 := by
  intro entry hmem hreply
  rcases List.mem_append.mp hmem with hmem | hmem
  · exact h.decides entry hmem hreply
  · obtain rfl := List.mem_singleton.mp hmem
    exact hlast hreply

/-- A resolved attempt stays as its log says, whatever is called. -/
theorem Told.of_terminal (h : Told id deadline log response) (hterm : response.isTerminal)
    (hreply : event.reply = none) : Told id deadline (log ++ [(call, event)]) response where
  attemptId := h.attemptId
  deadline_eq := h.deadline_eq
  decides := h.decides_concat fun hsome => absurd hreply hsome
  unended hlive := by simp [hterm] at hlive
  sent hsent := by
    rcases sentInTime_concat hsent with hsent | ⟨now, -, -, haccepted, hunended⟩
    · exact h.sent hsent
    -- an acceptance that nothing has ended leaves only the one terminal state
    · have htells := h.tells
      have hmem := h.mem_replies haccepted
      cases hstate : response.state with
      | readyForNextPairingStage => rfl
      | rejected reason =>
          rw [hstate] at htells
          simp only [Tells] at htells
          rw [htells, List.mem_singleton] at hmem
          exact absurd hmem encode_accepted_ne_rejected
      | cancelled | timedOut | failed =>
          rw [hstate] at htells
          exact absurd hunended htells.2
      | awaitingDecision | acceptedAwaitingSend => simp [isTerminal, hstate] at hterm
  tells := by
    have htells := h.tells
    cases hstate : response.state with
    | readyForNextPairingStage =>
        rw [hstate] at htells
        exact ⟨by simpa [replies_concat, hreply] using htells.1, htells.2.concat⟩
    | rejected reason =>
        rw [hstate] at htells
        simpa [Tells, replies_concat, hreply] using htells
    | cancelled | timedOut | failed =>
        rw [hstate] at htells
        refine ⟨by simpa [replies_concat, hreply] using htells.1, fun hunended => ?_⟩
        exact htells.2 (unended_concat.mp hunended).1
    | awaitingDecision | acceptedAwaitingSend => simp [isTerminal, hstate] at hterm

/-- A call that ends a live attempt leaves at most an acceptance behind. -/
theorem Told.of_ends (h : Told id deadline log response) (hlive : response.isTerminal = false)
    (hends : call.Ends deadline) (hreply : event.reply = none) {state : PairingResponseState}
    (hstate : state = .cancelled ∨ state = .timedOut ∨ state = .failed) :
    Told id deadline (log ++ [(call, event)]) { response with state } where
  attemptId := h.attemptId
  deadline_eq := h.deadline_eq
  decides := h.decides_concat fun hsome => absurd hreply hsome
  unended hlive' := by rcases hstate with rfl | rfl | rfl <;> cases hlive'
  sent hsent := by
    rcases sentInTime_concat hsent with hsent | ⟨now, hcall, hnow, -, -⟩
    · simp [isTerminal, h.sent hsent] at hlive
    · obtain rfl : call = .markReplySent now := hcall
      exact absurd hnow (Nat.not_lt.mpr hends)
  tells := by
    have hended : ¬ Unended deadline (log ++ [(call, event)]) := fun hunended =>
      (unended_concat.mp hunended).2 hends
    have hreplies : replies log = [] ∨
        replies log = [(PairingMessage.requestAccepted id).encode] := by
      have htells := h.tells
      cases hs : response.state with
      | awaitingDecision => rw [hs] at htells; exact .inl htells
      | acceptedAwaitingSend => rw [hs] at htells; exact .inr htells.1
      | _ => simp [isTerminal, hs] at hlive
    rcases hstate with rfl | rfl | rfl <;>
      exact ⟨by simpa [replies_concat, hreply] using hreplies, hended⟩

/-- A live attempt may ignore a call, unless it is the send of an acceptance. -/
theorem Told.of_same (h : Told id deadline log response) (hlive : response.isTerminal = false)
    (hends : ¬ call.Ends deadline) (hreply : event.reply = none)
    (hcall : ∀ now, call = .markReplySent now → response.state = .awaitingDecision) :
    Told id deadline (log ++ [(call, event)]) response where
  attemptId := h.attemptId
  deadline_eq := h.deadline_eq
  decides := h.decides_concat fun hsome => absurd hreply hsome
  unended _ := unended_concat.mpr ⟨h.unended hlive, hends⟩
  sent hsent := by
    rcases sentInTime_concat hsent with hsent | ⟨now, hmark, -, haccepted, -⟩
    · exact h.sent hsent
    · have htells := h.tells
      have hmem := h.mem_replies haccepted
      rw [hcall now hmark] at htells
      simp only [Tells] at htells
      rw [htells] at hmem
      cases hmem
  tells := by
    have htells := h.tells
    cases hstate : response.state with
    | awaitingDecision =>
        rw [hstate] at htells
        simpa [Tells, replies_concat, hreply] using htells
    | acceptedAwaitingSend =>
        rw [hstate] at htells
        exact ⟨by simpa [replies_concat, hreply] using htells.1,
          acceptanceMade_concat.mpr (.inl htells.2)⟩
    | _ => simp [isTerminal, hstate] at hlive

/-- The one decision, taken in time, adds the one reply. -/
theorem Told.decide (h : Told id deadline log response)
    (hstate : response.state = .awaitingDecision)
    (state : PairingResponseState) (hends : ¬ call.Ends deadline)
    (hdecides : Decides id deadline call event) (htells : replies log = [] →
      Tells id deadline (log ++ [(call, event)]) state) :
    Told id deadline (log ++ [(call, event)]) { response with state } where
  attemptId := h.attemptId
  deadline_eq := h.deadline_eq
  decides := h.decides_concat fun _ => hdecides
  unended _ := unended_concat.mpr ⟨h.unended (by simp [isTerminal, hstate]), hends⟩
  sent hsent := by
    rcases sentInTime_concat hsent with hsent | ⟨now, hmark, -, -, -⟩
    · have hready := h.sent hsent
      rw [hstate] at hready
      cases hready
    · cases hdecides <;> cases hmark
  tells := by
    have hnone := h.tells
    rw [hstate] at hnone
    exact htells hnone

/-- A call on a live attempt before its deadline. -/
theorem Told.of_live (h : Told id deadline log response) (hlive : response.isTerminal = false)
    (hends : ¬ call.Ends deadline) :
    Told id deadline (log ++ [(call, (response.apply call).1)]) (response.apply call).2 := by
  have hcircuit : ∀ now, now < deadline → response.shortCircuit now = (none, response) := by
    intro now hnow
    exact shortCircuit_of_lt hlive (h.deadline_eq ▸ hnow)
  cases call with
  -- the decision is taken once: afterwards the state is no longer `awaitingDecision`
  | accept now =>
      have hnow : now < deadline := Nat.lt_of_not_le hends
      simp only [PairingResponse.apply, accept, hcircuit now hnow]
      cases hstate : response.state with
      | awaitingDecision =>
          refine h.decide hstate .acceptedAwaitingSend hends ?_ fun hnone => ⟨?_, ?_⟩
          · rw [h.attemptId]
            exact .accepted hnow
          · simp [replies_concat, hnone, PairingResponseEvent.reply, h.attemptId]
          · exact acceptanceMade_concat.mpr (.inr ⟨_, rfl⟩)
      | acceptedAwaitingSend =>
          refine h.of_same hlive hends rfl fun now hmark => ?_
          cases hmark
      | _ => simp [isTerminal, hstate] at hlive
  | reject reason now =>
      have hnow : now < deadline := Nat.lt_of_not_le hends
      simp only [PairingResponse.apply, reject, hcircuit now hnow]
      cases hstate : response.state with
      | awaitingDecision =>
          refine h.decide hstate (.rejected reason) hends ?_ fun hnone => ?_
          · rw [h.attemptId]
            exact .rejected hnow
          · simp [Tells, replies_concat, hnone, PairingResponseEvent.reply, h.attemptId]
      | acceptedAwaitingSend =>
          refine h.of_same hlive hends rfl fun now hmark => ?_
          cases hmark
      | _ => simp [isTerminal, hstate] at hlive
  | markReplySent now =>
      have hnow : now < deadline := Nat.lt_of_not_le hends
      simp only [PairingResponse.apply, markReplySent, hcircuit now hnow]
      cases hstate : response.state with
      | awaitingDecision => exact h.of_same hlive hends rfl fun _ _ => hstate
      | acceptedAwaitingSend =>
          have htells := h.tells
          rw [hstate] at htells
          have hunended := h.unended hlive
          -- this entry is the send in time, and all of the log before it is unended
          exact {
            attemptId := h.attemptId
            deadline_eq := h.deadline_eq
            decides := h.decides_concat fun hsome => absurd rfl hsome
            unended := fun hlive' => Bool.noConfusion hlive'
            sent := fun _ => rfl
            tells := ⟨by simpa [replies_concat, PairingResponseEvent.reply] using htells.1,
              log, now, _, [], rfl, hnow, htells.2, hunended⟩ }
      | _ => simp [isTerminal, hstate] at hlive
  | checkDeadline now =>
      have hnow : now < deadline := Nat.lt_of_not_le hends
      simp only [PairingResponse.apply, checkDeadline, hcircuit now hnow]
      refine h.of_same hlive hends rfl fun now hmark => ?_
      cases hmark
  | cancel | noteTransportFailure => exact absurd trivial hends

/-- Every call keeps what is known of the responder. -/
theorem Told.apply (h : Told id deadline log response) (call : PairingResponseCall) :
    Told id deadline (log ++ [(call, (response.apply call).1)]) (response.apply call).2 := by
  by_cases hterm : response.isTerminal
  · rw [apply_of_terminal hterm]
    exact h.of_terminal hterm rfl
  · have hlive : response.isTerminal = false := by simpa using hterm
    by_cases hends : call.Ends deadline
    · obtain ⟨hreply, state, hstate, hnext⟩ := apply_of_ends hlive (h.deadline_eq.symm ▸ hends)
      rw [hnext]
      exact h.of_ends hlive hends hreply hstate
    · exact h.of_live hlive hends

/-! ## Runs -/

theorem Told.run (h : Told id deadline log response) (calls : List PairingResponseCall) :
    Told id deadline (log ++ response.log calls) (response.run calls) := by
  induction calls generalizing log response with
  | nil => simpa [PairingResponse.log, PairingResponse.run] using h
  | cons call calls ih => simpa [PairingResponse.log, PairingResponse.run] using ih (h.apply call)

theorem PairingResponse.run_append (response : PairingResponse)
    (before after : List PairingResponseCall) :
    response.run (before ++ after) = (response.run before).run after := by
  induction before generalizing response with
  | nil => rfl
  | cons call before ih => exact ih _

/-- A resolved attempt neither moves nor replies again. -/
theorem PairingResponse.run_of_terminal {response : PairingResponse} (h : response.isTerminal)
    (calls : List PairingResponseCall) :
    response.run calls = response ∧ replies (response.log calls) = [] := by
  induction calls with
  | nil => exact ⟨rfl, rfl⟩
  | cons call calls ih =>
      simp only [PairingResponse.run, PairingResponse.log, apply_of_terminal h]
      exact ih

theorem told_initial (id : PairingAttemptId) (deadline : Duration) :
    Told id deadline [] ⟨id, deadline, .awaitingDecision⟩ where
  attemptId := rfl
  deadline_eq := rfl
  decides := fun entry hmem => nomatch hmem
  unended _ := fun entry hmem => nomatch hmem
  sent hsent := by
    obtain ⟨before, now, event, after, heq, -⟩ := hsent
    simp at heq
  tells := rfl

/-- Only a request starts a responder, with the identifier found in it. -/
theorem PairingResponse.fromRequest_eq_ok {request : Bytes}
    (h : fromRequest request deadline = .ok response) :
    request = (PairingMessage.request response.attemptId).encode ∧
      response = ⟨response.attemptId, deadline, .awaitingDecision⟩ := by
  unfold fromRequest at h
  split at h
  · cases h
  · next id hdecode =>
      cases h
      exact ⟨PairingMessage.eq_encode_of_decode hdecode, rfl⟩
  · cases h
  · cases h

end Steps

/-- **One reply, for good.** Whatever is called, in any order and at any times, a
responder produces at most one reply, in time and for the attempt it was asked about; its
final state says which one it was and whether an acceptance was sent in time. -/
theorem responder_replies_once (request : Bytes) (deadline : Duration) (response : PairingResponse)
    (hrequest : fromRequest request deadline = .ok response) (calls : List PairingResponseCall) :
    let id := response.attemptId
    let log := response.log calls
    let final := response.run calls
    request = (PairingMessage.request id).encode ∧
      (replies log).length ≤ 1 ∧
      (∀ entry ∈ log, entry.2.reply ≠ none → Decides id deadline entry.1 entry.2) ∧
      (∀ reason, final.state = .rejected reason ↔
        replies log = [(PairingMessage.requestRejected id reason).encode]) ∧
      (final.state = .readyForNextPairingStage ↔ SentInTime deadline log) ∧
      ∀ before after, calls = before ++ after → (response.run before).isTerminal →
        final = response.run before ∧ replies ((response.run before).log after) = [] := by
  intro id log final
  obtain ⟨hencode, hresponse⟩ := fromRequest_eq_ok hrequest
  have htold : Told id deadline log final := by
    have hinitial := (told_initial id deadline).run calls
    rw [← hresponse, List.nil_append] at hinitial
    exact hinitial
  have htells := htold.tells
  refine ⟨hencode, ?_, htold.decides, fun reason => ?_, ?_, ?_⟩
  · cases hstate : final.state with
    | awaitingDecision => rw [hstate] at htells; simp only [Tells] at htells; simp [htells]
    | acceptedAwaitingSend | readyForNextPairingStage => rw [hstate] at htells; simp [htells.1]
    | rejected reason => rw [hstate] at htells; simp only [Tells] at htells; simp [htells]
    | cancelled | timedOut | failed =>
        rw [hstate] at htells
        rcases htells.1 with h | h <;> simp [h]
  · exact htold.rejected_iff
  · constructor
    · intro hstate
      rw [hstate] at htells
      exact htells.2
    · exact htold.sent
  · rintro before after rfl hterm
    obtain ⟨hrun, hreplies⟩ := run_of_terminal hterm after
    exact ⟨by rw [← hrun]; exact run_append response before after, hreplies⟩

/-- An acceptance sent in time, after which a cancellation is ignored. -/
theorem responder_replies_once_sent :
    let id : PairingAttemptId := ⟨List.replicate 16 7, by decide⟩
    SentInTime 30 ((⟨id, 30, .awaitingDecision⟩ : PairingResponse).log
      [.checkDeadline 5, .accept 1, .markReplySent 29, .cancel]) := by
  intro id
  have hrequest : fromRequest (PairingMessage.request id).encode 30 =
      .ok ⟨id, 30, .awaitingDecision⟩ := by
    simp [fromRequest]
  obtain ⟨-, -, -, -, hready, -⟩ := responder_replies_once _ 30 _ hrequest
    [.checkDeadline 5, .accept 1, .markReplySent 29, .cancel]
  exact hready.mp rfl

end LocalTransfer
