import LocalTransfer.Pairing.Message

/-!
# The responder to a pairing request

`PairingResponse` of `pairing.rs`: built from a received request, it records one local
decision and produces the reply to it. What a call can do is said once, by
`ResponseStep`.
-/

namespace LocalTransfer

open Lib

/-- Why a received message could not start a responder. -/
inductive PairingResponseError
  | protocol (error : PairingMessageError)
  | notARequest
  deriving DecidableEq, Repr

/-- Why an input was a no-op. -/
inductive PairingResponseIgnored
  | alreadyResolved
  | decisionAlreadyMade
  | noAcceptedReply
  deriving DecidableEq, Repr

inductive PairingResponseState
  | awaitingDecision
  | acceptedAwaitingSend
  | readyForNextPairingStage
  | rejected (reason : PairingRejectionReason)
  | cancelled
  | timedOut
  | failed
  deriving DecidableEq, Repr

/-- `accepted` and `rejected` carry the reply to send. -/
inductive PairingResponseEvent
  | pending
  | accepted (reply : Bytes)
  | rejected (reply : Bytes)
  | readyForNextPairingStage
  | cancelled
  | timedOut
  | failed
  | ignored (reason : PairingResponseIgnored)
  deriving DecidableEq, Repr

/-- The reply to send, if there is one. -/
def PairingResponseEvent.reply : PairingResponseEvent → Option Bytes
  | .accepted reply | .rejected reply => some reply
  | _ => none

structure PairingResponse where
  attemptId : PairingAttemptId
  deadline : Duration
  state : PairingResponseState
  deriving DecidableEq

namespace PairingResponse

def fromRequest (request : Bytes) (deadline : Duration) :
    Except PairingResponseError PairingResponse :=
  match PairingMessage.decode request with
  | .error error => .error (.protocol error)
  | .ok (.request attemptId) => .ok { attemptId, deadline, state := .awaitingDecision }
  | .ok (.requestAccepted _) | .ok (.requestRejected _ _) => .error .notARequest

def isTerminal (self : PairingResponse) : Bool :=
  match self.state with
  | .readyForNextPairingStage | .rejected _ | .cancelled | .timedOut | .failed => true
  | .awaitingDecision | .acceptedAwaitingSend => false

def shortCircuit (self : PairingResponse) (now : Duration) :
    Option PairingResponseEvent × PairingResponse :=
  if self.isTerminal then (some (.ignored .alreadyResolved), self)
  else if self.deadline ≤ now then (some .timedOut, { self with state := .timedOut })
  else (none, self)

def accept (self : PairingResponse) (now : Duration) : PairingResponseEvent × PairingResponse :=
  match self.shortCircuit now with
  | (some event, self) => (event, self)
  | (none, self) =>
      match self.state with
      | .awaitingDecision =>
          (.accepted (PairingMessage.requestAccepted self.attemptId).encode,
            { self with state := .acceptedAwaitingSend })
      | _ => (.ignored .decisionAlreadyMade, self)

def reject (self : PairingResponse) (reason : PairingRejectionReason) (now : Duration) :
    PairingResponseEvent × PairingResponse :=
  match self.shortCircuit now with
  | (some event, self) => (event, self)
  | (none, self) =>
      match self.state with
      | .awaitingDecision =>
          (.rejected (PairingMessage.requestRejected self.attemptId reason).encode,
            { self with state := .rejected reason })
      | _ => (.ignored .decisionAlreadyMade, self)

def markReplySent (self : PairingResponse) (now : Duration) :
    PairingResponseEvent × PairingResponse :=
  match self.shortCircuit now with
  | (some event, self) => (event, self)
  | (none, self) =>
      match self.state with
      | .acceptedAwaitingSend =>
          (.readyForNextPairingStage, { self with state := .readyForNextPairingStage })
      | _ => (.ignored .noAcceptedReply, self)

def cancel (self : PairingResponse) : PairingResponseEvent × PairingResponse :=
  if self.isTerminal then (.ignored .alreadyResolved, self)
  else (.cancelled, { self with state := .cancelled })

def noteTransportFailure (self : PairingResponse) : PairingResponseEvent × PairingResponse :=
  if self.isTerminal then (.ignored .alreadyResolved, self)
  else (.failed, { self with state := .failed })

def checkDeadline (self : PairingResponse) (now : Duration) :
    PairingResponseEvent × PairingResponse :=
  match self.shortCircuit now with
  | (some event, self) => (event, self)
  | (none, self) => (.pending, self)

end PairingResponse

/-! ## Calls -/

inductive PairingResponseCall
  | accept (now : Duration)
  | reject (reason : PairingRejectionReason) (now : Duration)
  | markReplySent (now : Duration)
  | cancel
  | noteTransportFailure
  | checkDeadline (now : Duration)

namespace PairingResponse

def apply (self : PairingResponse) :
    PairingResponseCall → PairingResponseEvent × PairingResponse
  | .accept now => self.accept now
  | .reject reason now => self.reject reason now
  | .markReplySent now => self.markReplySent now
  | .cancel => self.cancel
  | .noteTransportFailure => self.noteTransportFailure
  | .checkDeadline now => self.checkDeadline now

end PairingResponse

/-- What a call can do to a responder: nothing, end it without a decision, record the one
decision and produce its reply, or finish an acceptance. -/
inductive ResponseStep (self : PairingResponse) :
    PairingResponseCall → PairingResponseEvent → PairingResponse → Prop
  | same {call event} : event.reply = none → ResponseStep self call event self
  | ended {call event state} : self.isTerminal = false → event.reply = none →
      state = .cancelled ∨ state = .timedOut ∨ state = .failed →
      ResponseStep self call event { self with state }
  | accepted {now} : self.state = .awaitingDecision →
      ResponseStep self (.accept now)
        (.accepted (PairingMessage.requestAccepted self.attemptId).encode)
        { self with state := .acceptedAwaitingSend }
  | rejected {reason now} : self.state = .awaitingDecision →
      ResponseStep self (.reject reason now)
        (.rejected (PairingMessage.requestRejected self.attemptId reason).encode)
        { self with state := .rejected reason }
  | sent {now} : self.state = .acceptedAwaitingSend →
      ResponseStep self (.markReplySent now) .readyForNextPairingStage
        { self with state := .readyForNextPairingStage }

namespace PairingResponse

/-- A time-aware call is a no-op on a terminal attempt, times a live one out, or goes on. -/
theorem shortCircuit_cases (self : PairingResponse) (now : Duration) :
    self.shortCircuit now = (some (.ignored .alreadyResolved), self) ∨
    (self.isTerminal = false ∧
      self.shortCircuit now = (some .timedOut, { self with state := .timedOut })) ∨
    self.shortCircuit now = (none, self) := by
  unfold shortCircuit
  by_cases hterm : self.isTerminal
  · exact .inl (if_pos hterm)
  · by_cases hnow : self.deadline ≤ now
    · exact .inr (.inl ⟨by simpa using hterm, by rw [if_neg hterm, if_pos hnow]⟩)
    · exact .inr (.inr (by rw [if_neg hterm, if_neg hnow]))

theorem responseStep_apply (self : PairingResponse) (call : PairingResponseCall) :
    ResponseStep self call (self.apply call).1 (self.apply call).2 := by
  cases call with
  | accept now =>
      simp only [apply, accept]
      rcases self.shortCircuit_cases now with h | ⟨hterm, h⟩ | h <;> simp only [h]
      · exact .same rfl
      · exact .ended hterm rfl (by simp)
      · split
        · next hstate => exact .accepted hstate
        · exact .same rfl
  | reject reason now =>
      simp only [apply, reject]
      rcases self.shortCircuit_cases now with h | ⟨hterm, h⟩ | h <;> simp only [h]
      · exact .same rfl
      · exact .ended hterm rfl (by simp)
      · split
        · next hstate => exact .rejected hstate
        · exact .same rfl
  | markReplySent now =>
      simp only [apply, markReplySent]
      rcases self.shortCircuit_cases now with h | ⟨hterm, h⟩ | h <;> simp only [h]
      · exact .same rfl
      · exact .ended hterm rfl (by simp)
      · split
        · next hstate => exact .sent hstate
        · exact .same rfl
  | cancel =>
      simp only [apply, cancel]
      split
      · exact .same rfl
      · next hterm => exact .ended (by simpa using hterm) rfl (by simp)
  | noteTransportFailure =>
      simp only [apply, noteTransportFailure]
      split
      · exact .same rfl
      · next hterm => exact .ended (by simpa using hterm) rfl (by simp)
  | checkDeadline now =>
      simp only [apply, checkDeadline]
      rcases self.shortCircuit_cases now with h | ⟨hterm, h⟩ | h <;> simp only [h]
      · exact .same rfl
      · exact .ended hterm rfl (by simp)
      · exact .same rfl

end PairingResponse

end LocalTransfer
