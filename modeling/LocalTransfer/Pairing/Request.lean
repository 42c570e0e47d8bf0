import LocalTransfer.Pairing.Message

/-!
# The initiator of a pairing request

`PairingRequest` of `pairing.rs`: one attempt, its deadline and its state, with every
call a caller may make on it. A method that changes the attempt returns its result and
the attempt after it. What a call can do is said once, by `RequestStep`.
-/

namespace LocalTransfer

open Lib

/-- Why an attempt failed closed. -/
inductive PairingRequestFailure
  | protocol (error : PairingMessageError)
  | unexpectedMessage
  | transportFailure
  deriving DecidableEq, Repr

/-- Why an input was a no-op. -/
inductive PairingRequestIgnored
  | alreadyResolved
  | alreadySent
  | notAwaitingResponse
  | attemptIdMismatch
  deriving DecidableEq, Repr

inductive PairingRequestState
  | requestCreated
  | awaitingRemoteResponse
  | readyForNextPairingStage
  | rejected (reason : PairingRejectionReason)
  | cancelled
  | timedOut
  | failed (failure : PairingRequestFailure)
  deriving DecidableEq, Repr

inductive PairingRequestEvent
  | pending
  | awaitingResponse
  | readyForNextPairingStage
  | rejected (reason : PairingRejectionReason)
  | cancelled
  | timedOut
  | failed (failure : PairingRequestFailure)
  | ignored (reason : PairingRequestIgnored)
  deriving DecidableEq, Repr

structure PairingRequest where
  attemptId : PairingAttemptId
  deadline : Duration
  state : PairingRequestState
  deriving DecidableEq

namespace PairingRequest

/-- An attempt around a correlation token, which `initiate` draws at random. -/
def withAttemptId (attemptId : PairingAttemptId) (deadline : Duration) : PairingRequest where
  attemptId
  deadline
  state := .requestCreated

def isTerminal (self : PairingRequest) : Bool :=
  match self.state with
  | .readyForNextPairingStage | .rejected _ | .cancelled | .timedOut | .failed _ => true
  | .requestCreated | .awaitingRemoteResponse => false

def fail (self : PairingRequest) (failure : PairingRequestFailure) :
    PairingRequestEvent × PairingRequest :=
  (.failed failure, { self with state := .failed failure })

def shortCircuit (self : PairingRequest) (now : Duration) :
    Option PairingRequestEvent × PairingRequest :=
  if self.isTerminal then (some (.ignored .alreadyResolved), self)
  else if self.deadline ≤ now then (some .timedOut, { self with state := .timedOut })
  else (none, self)

theorem shortCircuit_of_terminal {self : PairingRequest} (h : self.isTerminal) (now : Duration) :
    self.shortCircuit now = (some (.ignored .alreadyResolved), self) := by
  simp [shortCircuit, h]

theorem shortCircuit_of_expired {self : PairingRequest} {now : Duration}
    (h : self.isTerminal = false) (hnow : self.deadline ≤ now) :
    self.shortCircuit now = (some .timedOut, { self with state := .timedOut }) := by
  simp [shortCircuit, h, hnow]

theorem shortCircuit_of_lt {self : PairingRequest} {now : Duration}
    (h : self.isTerminal = false) (hnow : now < self.deadline) :
    self.shortCircuit now = (none, self) := by
  simp [shortCircuit, h, Nat.not_le.mpr hnow]

def requestMessage (self : PairingRequest) (now : Duration) : Option Bytes × PairingRequest :=
  match self.shortCircuit now with
  | (some _, self) => (none, self)
  | (none, self) =>
      match self.state with
      | .requestCreated => (some (PairingMessage.request self.attemptId).encode, self)
      | _ => (none, self)

def markRequestSent (self : PairingRequest) (now : Duration) :
    PairingRequestEvent × PairingRequest :=
  match self.shortCircuit now with
  | (some event, self) => (event, self)
  | (none, self) =>
      match self.state with
      | .requestCreated => (.awaitingResponse, { self with state := .awaitingRemoteResponse })
      | _ => (.ignored .alreadySent, self)

def handleRemoteMessage (self : PairingRequest) (raw : Bytes) (now : Duration) :
    PairingRequestEvent × PairingRequest :=
  match self.shortCircuit now with
  | (some event, self) => (event, self)
  | (none, self) =>
      match PairingMessage.decode raw with
      | .error error => self.fail (.protocol error)
      | .ok message =>
          if message.attemptId ≠ self.attemptId then (.ignored .attemptIdMismatch, self)
          else
            match message with
            | .request _ => self.fail .unexpectedMessage
            | .requestAccepted _ =>
                if self.state = .requestCreated then (.ignored .notAwaitingResponse, self)
                else (.readyForNextPairingStage, { self with state := .readyForNextPairingStage })
            | .requestRejected _ reason =>
                if self.state = .requestCreated then (.ignored .notAwaitingResponse, self)
                else (.rejected reason, { self with state := .rejected reason })

def checkDeadline (self : PairingRequest) (now : Duration) :
    PairingRequestEvent × PairingRequest :=
  match self.shortCircuit now with
  | (some event, self) => (event, self)
  | (none, self) => (.pending, self)

def cancel (self : PairingRequest) : PairingRequestEvent × PairingRequest :=
  if self.isTerminal then (.ignored .alreadyResolved, self)
  else (.cancelled, { self with state := .cancelled })

def noteTransportFailure (self : PairingRequest) : PairingRequestEvent × PairingRequest :=
  if self.isTerminal then (.ignored .alreadyResolved, self)
  else self.fail .transportFailure

end PairingRequest

/-! ## Calls -/

inductive PairingRequestCall
  | requestMessage (now : Duration)
  | markRequestSent (now : Duration)
  | handleRemoteMessage (raw : Bytes) (now : Duration)
  | checkDeadline (now : Duration)
  | cancel
  | noteTransportFailure

/-- What a call returns. -/
inductive PairingRequestReply
  | message (bytes : Option Bytes)
  | event (event : PairingRequestEvent)
  deriving DecidableEq, Repr

/-- The time a time-aware call is made at. -/
def PairingRequestCall.now : PairingRequestCall → Option Duration
  | .requestMessage now | .markRequestSent now | .handleRemoteMessage _ now
  | .checkDeadline now => some now
  | .cancel | .noteTransportFailure => none

namespace PairingRequest

def apply (self : PairingRequest) : PairingRequestCall → PairingRequestReply × PairingRequest
  | .requestMessage now => (self.requestMessage now).map .message id
  | .markRequestSent now => (self.markRequestSent now).map .event id
  | .handleRemoteMessage raw now => (self.handleRemoteMessage raw now).map .event id
  | .checkDeadline now => (self.checkDeadline now).map .event id
  | .cancel => self.cancel.map .event id
  | .noteTransportFailure => self.noteTransportFailure.map .event id

/-- The attempt after a sequence of calls. -/
def run (self : PairingRequest) (calls : List PairingRequestCall) : PairingRequest :=
  calls.foldl (fun self call => (self.apply call).2) self

@[simp] theorem run_nil (self : PairingRequest) : self.run [] = self := rfl

@[simp] theorem run_cons (self : PairingRequest) (call : PairingRequestCall)
    (calls : List PairingRequestCall) : self.run (call :: calls) = (self.apply call).2.run calls :=
  rfl

theorem run_append (self : PairingRequest) (calls later : List PairingRequestCall) :
    self.run (calls ++ later) = (self.run calls).run later :=
  List.foldl_append ..

end PairingRequest

/-- What a call can do to an attempt: nothing, end it without an answer, hand out the
request, start the wait for the answer, or take it. -/
inductive RequestStep (self : PairingRequest) :
    PairingRequestCall → PairingRequestReply → PairingRequest → Prop
  | same {call reply} : (∀ bytes, reply ≠ .message (some bytes)) →
      RequestStep self call reply self
  | ended {call reply state} : self.isTerminal = false →
      (∀ bytes, reply ≠ .message (some bytes)) →
      (state = .cancelled ∨ state = .timedOut ∨ ∃ failure, state = .failed failure) →
      RequestStep self call reply { self with state }
  | served {now} : RequestStep self (.requestMessage now)
      (.message (some (PairingMessage.request self.attemptId).encode)) self
  | sent {now} : self.state = .requestCreated →
      RequestStep self (.markRequestSent now) (.event .awaitingResponse)
        { self with state := .awaitingRemoteResponse }
  | accepted {raw now} : self.state = .awaitingRemoteResponse →
      PairingMessage.decode raw = .ok (.requestAccepted self.attemptId) →
      RequestStep self (.handleRemoteMessage raw now) (.event .readyForNextPairingStage)
        { self with state := .readyForNextPairingStage }
  | rejected {raw now reason} : self.state = .awaitingRemoteResponse →
      PairingMessage.decode raw = .ok (.requestRejected self.attemptId reason) →
      RequestStep self (.handleRemoteMessage raw now) (.event (.rejected reason))
        { self with state := .rejected reason }

namespace PairingRequest

/-- A time-aware call is a no-op on a terminal attempt, times a live one out, or goes on. -/
theorem shortCircuit_cases (self : PairingRequest) (now : Duration) :
    self.shortCircuit now = (some (.ignored .alreadyResolved), self) ∨
    (self.isTerminal = false ∧
      self.shortCircuit now = (some .timedOut, { self with state := .timedOut })) ∨
    (self.isTerminal = false ∧ self.shortCircuit now = (none, self)) := by
  by_cases hterm : self.isTerminal
  · exact .inl (shortCircuit_of_terminal hterm now)
  · have hterm : self.isTerminal = false := by simpa using hterm
    by_cases hnow : self.deadline ≤ now
    · exact .inr (.inl ⟨hterm, shortCircuit_of_expired hterm hnow⟩)
    · exact .inr (.inr ⟨hterm, shortCircuit_of_lt hterm (Nat.lt_of_not_le hnow)⟩)

theorem awaiting_of_not_terminal {self : PairingRequest} (h : self.isTerminal = false)
    (hstate : self.state ≠ .requestCreated) : self.state = .awaitingRemoteResponse := by
  unfold isTerminal at h
  split at h <;> simp_all

theorem requestStep_handleRemoteMessage (self : PairingRequest) (raw : Bytes) (now : Duration) :
    RequestStep self (.handleRemoteMessage raw now)
      (.event (self.handleRemoteMessage raw now).1) (self.handleRemoteMessage raw now).2 := by
  simp only [handleRemoteMessage]
  rcases self.shortCircuit_cases now with h | ⟨hterm, h⟩ | ⟨hterm, h⟩ <;> simp only [h]
  · exact .same (by simp)
  · exact .ended hterm (by simp) (by simp)
  · cases hraw : PairingMessage.decode raw with
    | error error => exact .ended hterm (by simp) (by simp)
    | ok message =>
        by_cases hid : message.attemptId = self.attemptId
        · simp only [hid, ne_eq, not_true, if_false]
          cases message with
          | request id => exact .ended hterm (by simp) (by simp)
          | requestAccepted id =>
              cases hid
              by_cases hstate : self.state = .requestCreated
              · simp only [hstate, if_true]
                exact .same (by simp)
              · simp only [hstate, if_false]
                exact .accepted (awaiting_of_not_terminal hterm hstate) hraw
          | requestRejected id reason =>
              cases hid
              by_cases hstate : self.state = .requestCreated
              · simp only [hstate, if_true]
                exact .same (by simp)
              · simp only [hstate, if_false]
                exact .rejected (awaiting_of_not_terminal hterm hstate) hraw
        · simp only [hid, ne_eq, not_false_eq_true, if_true]
          exact .same (by simp)

theorem requestStep_apply (self : PairingRequest) (call : PairingRequestCall) :
    RequestStep self call (self.apply call).1 (self.apply call).2 := by
  cases call with
  | requestMessage now =>
      simp only [apply, requestMessage]
      rcases self.shortCircuit_cases now with h | ⟨hterm, h⟩ | ⟨-, h⟩ <;> simp only [h]
      · exact .same (by simp)
      · exact .ended hterm (by simp) (by simp)
      · split
        · exact .served
        · exact .same (by simp)
  | markRequestSent now =>
      simp only [apply, markRequestSent]
      rcases self.shortCircuit_cases now with h | ⟨hterm, h⟩ | ⟨-, h⟩ <;> simp only [h]
      · exact .same (by simp)
      · exact .ended hterm (by simp) (by simp)
      · split
        · next hstate => exact .sent hstate
        · exact .same (by simp)
  | handleRemoteMessage raw now => exact self.requestStep_handleRemoteMessage raw now
  | checkDeadline now =>
      simp only [apply, checkDeadline]
      rcases self.shortCircuit_cases now with h | ⟨hterm, h⟩ | ⟨-, h⟩ <;> simp only [h]
      · exact .same (by simp)
      · exact .ended hterm (by simp) (by simp)
      · exact .same (by simp)
  | cancel =>
      simp only [apply, cancel]
      split
      · exact .same (by simp)
      · next hterm => exact .ended (by simpa using hterm) (by simp) (by simp)
  | noteTransportFailure =>
      simp only [apply, noteTransportFailure]
      split
      · exact .same (by simp)
      · next hterm => exact .ended (by simpa using hterm) (by simp) (by simp)

end PairingRequest

end LocalTransfer
