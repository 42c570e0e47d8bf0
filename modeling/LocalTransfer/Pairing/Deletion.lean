import LocalTransfer.Lib.Stutter
import LocalTransfer.Pairing.Replies
import LocalTransfer.Pairing.Request

/-!
# Calls that leave no trace

An ignored input never changes an attempt, and neither does a call that only looks at it.
Such calls can be deleted from any run of either side, and messages of other attempts or
early replies inserted into a run of the initiator, without any effect on the rest
(`idle_calls_leave_no_trace`).
-/

namespace LocalTransfer

open Lib

/-- The input was ignored, or the attempt is pending. -/
def PairingRequestEvent.Idle : PairingRequestEvent → Prop
  | .pending | .ignored _ => True
  | .awaitingResponse | .readyForNextPairingStage | .rejected _ | .cancelled | .timedOut
  | .failed _ => False

/-- An idle event, or the bytes of the request. -/
def PairingRequestReply.Idle : PairingRequestReply → Prop
  | .message bytes => bytes.isSome
  | .event answer => answer.Idle

/-- The input was ignored, or the attempt is pending. -/
def PairingResponseEvent.Idle : PairingResponseEvent → Prop
  | .pending | .ignored _ => True
  | .accepted _ | .rejected _ | .readyForNextPairingStage | .cancelled | .timedOut
  | .failed => False

/-! ## One call of the initiator -/

namespace PairingRequest

/-- The calls of a run with what they return. -/
def log (self : PairingRequest) (calls : List PairingRequestCall) :
    List (PairingRequestCall × PairingRequestReply) :=
  Machine.log apply self calls

/-- A message either resolves the attempt, and says so, or leaves it as it is. -/
theorem handleRemoteMessage_same_or (self : PairingRequest) (raw : Bytes) (now : Duration) :
    (self.handleRemoteMessage raw now).2 = self ∨
      ¬ (self.handleRemoteMessage raw now).1.Idle := by
  simp only [handleRemoteMessage]
  rcases self.shortCircuit_cases now with hcut | ⟨-, hcut⟩ | ⟨-, hcut⟩ <;> simp only [hcut]
  · exact .inl trivial
  · exact .inr id
  · cases PairingMessage.decode raw with
    | error error => exact .inr id
    | ok message =>
        by_cases hid : message.attemptId = self.attemptId
        · simp only [hid, ne_eq, not_true, if_false]
          cases message with
          | request id => exact .inr fun h => h
          | requestAccepted id =>
              by_cases hstate : self.state = .requestCreated
              · simp only [hstate, if_true]
                exact .inl trivial
              · simp only [hstate, if_false]
                exact .inr fun h => h
          | requestRejected id reason =>
              by_cases hstate : self.state = .requestCreated
              · simp only [hstate, if_true]
                exact .inl trivial
              · simp only [hstate, if_false]
                exact .inr fun h => h
        · simp only [hid, ne_eq, not_false_eq_true, if_true]
          exact .inl trivial

/-- A call that changes the attempt does not answer idly. -/
theorem apply_same_or (self : PairingRequest) (call : PairingRequestCall) :
    (self.apply call).2 = self ∨ ¬ (self.apply call).1.Idle := by
  cases call with
  | requestMessage now =>
      simp only [apply, requestMessage]
      rcases self.shortCircuit_cases now with hcut | ⟨-, hcut⟩ | ⟨-, hcut⟩ <;> simp only [hcut]
      · exact .inl rfl
      -- the timeout returns no bytes
      · exact .inr Bool.false_ne_true
      · left
        split <;> rfl
  | markRequestSent now =>
      simp only [apply, markRequestSent]
      rcases self.shortCircuit_cases now with hcut | ⟨-, hcut⟩ | ⟨-, hcut⟩ <;> simp only [hcut]
      · exact .inl rfl
      · exact .inr id
      · split
        · exact .inr id
        · exact .inl rfl
  | handleRemoteMessage raw now => exact self.handleRemoteMessage_same_or raw now
  | checkDeadline now =>
      simp only [apply, checkDeadline]
      rcases self.shortCircuit_cases now with hcut | ⟨-, hcut⟩ | ⟨-, hcut⟩ <;> simp only [hcut]
      · exact .inl rfl
      · exact .inr id
      · exact .inl rfl
  | cancel =>
      simp only [apply, cancel]
      split
      · exact .inl rfl
      · exact .inr id
  | noteTransportFailure =>
      simp only [apply, noteTransportFailure]
      split
      · exact .inl rfl
      · exact .inr id

theorem stutters : Machine.Stutters apply fun entry => entry.2.Idle := by
  intro self call hidle
  rcases self.apply_same_or call with hsame | hnot
  · exact hsame
  · exact absurd hidle hnot

end PairingRequest

/-! ## One call of the responder -/

namespace PairingResponse

theorem apply_same_or (self : PairingResponse) (call : PairingResponseCall) :
    (self.apply call).2 = self ∨ ¬ (self.apply call).1.Idle := by
  cases call with
  | accept now =>
      simp only [apply, accept]
      rcases self.shortCircuit_cases now with hcut | ⟨-, hcut⟩ | hcut <;> simp only [hcut]
      · exact .inl trivial
      · exact .inr id
      · split
        · exact .inr id
        · exact .inl rfl
  | reject reason now =>
      simp only [apply, reject]
      rcases self.shortCircuit_cases now with hcut | ⟨-, hcut⟩ | hcut <;> simp only [hcut]
      · exact .inl trivial
      · exact .inr id
      · split
        · exact .inr id
        · exact .inl rfl
  | markReplySent now =>
      simp only [apply, markReplySent]
      rcases self.shortCircuit_cases now with hcut | ⟨-, hcut⟩ | hcut <;> simp only [hcut]
      · exact .inl trivial
      · exact .inr id
      · split
        · exact .inr id
        · exact .inl rfl
  | cancel =>
      simp only [apply, cancel]
      split
      · exact .inl rfl
      · exact .inr id
  | noteTransportFailure =>
      simp only [apply, noteTransportFailure]
      split
      · exact .inl rfl
      · exact .inr id
  | checkDeadline now =>
      simp only [apply, checkDeadline]
      rcases self.shortCircuit_cases now with hcut | ⟨-, hcut⟩ | hcut <;> simp only [hcut]
      · exact .inl trivial
      · exact .inr id
      · exact .inl trivial

theorem stutters : Machine.Stutters apply fun entry => entry.2.Idle := by
  intro self call hidle
  rcases self.apply_same_or call with hsame | hnot
  · exact hsame
  · exact absurd hidle hnot

theorem log_eq (self : PairingResponse) (calls : List PairingResponseCall) :
    self.log calls = Machine.log apply self calls := by
  induction calls generalizing self with
  | nil => rfl
  | cons call calls ih => rw [log, Machine.log, ih]

theorem run_eq (self : PairingResponse) (calls : List PairingResponseCall) :
    self.run calls = Machine.after apply self calls := by
  induction calls generalizing self with
  | nil => rfl
  | cons call calls ih => exact ih (self.apply call).2

end PairingResponse

/-! ## Quiet messages -/

/-- The request has not been marked sent by the calls of a log. -/
def NotSent (log : List (PairingRequestCall × PairingRequestReply)) : Prop :=
  ∀ entry ∈ log, entry.2 ≠ .event .awaitingResponse

/-- A message before the deadline that is of another attempt, or that replies to a request
not yet marked sent. -/
inductive QuietMessage (id : PairingAttemptId) (deadline : Duration)
    (before : List PairingRequestCall) : PairingRequestCall → Prop
  | foreign {raw now message} : now < deadline → PairingMessage.decode raw = .ok message →
      message.attemptId ≠ id → QuietMessage id deadline before (.handleRemoteMessage raw now)
  | earlyAccepted {raw now} : now < deadline →
      NotSent ((PairingRequest.withAttemptId id deadline).log before) →
      PairingMessage.decode raw = .ok (.requestAccepted id) →
      QuietMessage id deadline before (.handleRemoteMessage raw now)
  | earlyRejected {raw now reason} : now < deadline →
      NotSent ((PairingRequest.withAttemptId id deadline).log before) →
      PairingMessage.decode raw = .ok (.requestRejected id reason) →
      QuietMessage id deadline before (.handleRemoteMessage raw now)

namespace PairingRequest

variable {self : PairingRequest} {id : PairingAttemptId} {deadline : Duration}
  {before calls longer : List PairingRequestCall} {call : PairingRequestCall}

/-- An attempt keeps its token and its deadline. -/
theorem apply_fixed (self : PairingRequest) (call : PairingRequestCall) :
    (self.apply call).2.attemptId = self.attemptId ∧
      (self.apply call).2.deadline = self.deadline := by
  have hstep := self.requestStep_apply call
  generalize (self.apply call).1 = reply at hstep
  generalize (self.apply call).2 = next at hstep ⊢
  cases hstep <;> exact ⟨rfl, rfl⟩

theorem run_fixed (self : PairingRequest) (calls : List PairingRequestCall) :
    (self.run calls).attemptId = self.attemptId ∧ (self.run calls).deadline = self.deadline := by
  induction calls generalizing self with
  | nil => exact ⟨rfl, rfl⟩
  | cons call calls ih =>
      obtain ⟨hid, hdeadline⟩ := ih (self.apply call).2
      obtain ⟨hid', hdeadline'⟩ := self.apply_fixed call
      exact ⟨hid.trans hid', hdeadline.trans hdeadline'⟩

/-- Only the call that marks the request sent starts the wait for the answer. -/
theorem awaiting_of_apply (h : (self.apply call).2.state = .awaitingRemoteResponse)
    (hstate : self.state ≠ .awaitingRemoteResponse) :
    (self.apply call).1 = .event .awaitingResponse := by
  have hstep := self.requestStep_apply call
  generalize (self.apply call).1 = reply at hstep ⊢
  generalize (self.apply call).2 = next at hstep h
  cases hstep with
  | same hreply => exact absurd h hstate
  | ended hlive hreply hended =>
      obtain rfl : _ = PairingRequestState.awaitingRemoteResponse := h
      rcases hended with hended | hended | ⟨failure, hended⟩ <;> cases hended
  | served => exact absurd h hstate
  | sent hcreated => rfl
  | accepted hawaiting hraw => cases h
  | rejected hawaiting hraw => cases h

theorem not_awaiting_of_notSent (hstate : self.state ≠ .awaitingRemoteResponse)
    (h : NotSent (self.log calls)) : (self.run calls).state ≠ .awaitingRemoteResponse := by
  induction calls generalizing self with
  | nil => exact hstate
  | cons call calls ih =>
      have hfirst := h _ List.mem_cons_self
      refine ih (fun hawaiting => ?_) fun entry hentry => h entry (List.mem_cons_of_mem _ hentry)
      exact hfirst (awaiting_of_apply hawaiting hstate)

/-- A quiet message is ignored wherever it arrives. -/
theorem ignored_of_quiet (h : QuietMessage id deadline before call) :
    ∃ reason, (((withAttemptId id deadline).run before).apply call).1 =
      .event (.ignored reason) := by
  obtain ⟨hid, hdeadline⟩ := (withAttemptId id deadline).run_fixed before
  have hunsent : NotSent ((withAttemptId id deadline).log before) →
      ((withAttemptId id deadline).run before).state ≠ .awaitingRemoteResponse :=
    not_awaiting_of_notSent (by simp [withAttemptId])
  generalize (withAttemptId id deadline).run before = self at hid hdeadline hunsent ⊢
  have hid : self.attemptId = id := hid
  have hdeadline : self.deadline = deadline := hdeadline
  by_cases hterm : self.isTerminal
  · cases h <;>
      exact ⟨.alreadyResolved, by simp [apply, handleRemoteMessage, shortCircuit_of_terminal hterm]⟩
  · have hlive : self.isTerminal = false := by simpa using hterm
    have hcreated : NotSent ((withAttemptId id deadline).log before) →
        self.state = .requestCreated := by
      intro hnot
      by_contra hstate
      exact hunsent hnot (awaiting_of_not_terminal hlive hstate)
    cases h with
    | foreign hnow hraw hother =>
        exact ⟨.attemptIdMismatch, by
          simp [apply, handleRemoteMessage, shortCircuit_of_lt hlive (hdeadline ▸ hnow), hraw, hid,
            hother]⟩
    | earlyAccepted hnow hnot hraw | earlyRejected hnow hnot hraw =>
        exact ⟨.notAwaitingResponse, by
          simp [apply, handleRemoteMessage, shortCircuit_of_lt hlive (hdeadline ▸ hnow), hraw, hid,
            PairingMessage.attemptId, hcreated hnot]⟩

end PairingRequest

/-- For every run of either side: the calls that were ignored, that found the attempt
pending or that read the request can be deleted, any of them, and the others return what
they returned and lead to the same state. So an initiator ends up as it would have without
the quiet messages among its calls. -/
theorem idle_calls_leave_no_trace :
    (∀ (self : PairingRequest) calls kept,
      Machine.Deletes (fun entry => entry.2.Idle) (self.log calls) kept →
      self.log (kept.map Prod.fst) = kept ∧ self.run (kept.map Prod.fst) = self.run calls) ∧
    (∀ (self : PairingResponse) calls kept,
      Machine.Deletes (fun entry => entry.2.Idle) (self.log calls) kept →
      self.log (kept.map Prod.fst) = kept ∧ self.run (kept.map Prod.fst) = self.run calls) ∧
    ∀ id deadline calls longer, Machine.Inserts (QuietMessage id deadline) [] calls longer →
      (PairingRequest.withAttemptId id deadline).run longer =
        (PairingRequest.withAttemptId id deadline).run calls ∧
      Machine.Deletes (fun entry => ∃ reason, entry.2 = .event (.ignored reason))
        ((PairingRequest.withAttemptId id deadline).log longer)
        ((PairingRequest.withAttemptId id deadline).log calls) := by
  refine ⟨?_, ?_, ?_⟩
  · intro self calls kept hdeletes
    exact Machine.log_of_deletes PairingRequest.stutters hdeletes
  · intro self calls kept hdeletes
    rw [PairingResponse.log_eq] at hdeletes
    rw [PairingResponse.log_eq, PairingResponse.run_eq, PairingResponse.run_eq]
    exact Machine.log_of_deletes PairingResponse.stutters hdeletes
  · intro id deadline calls longer hinserts
    refine Machine.log_of_inserts ?_ hinserts ?_
    · intro self call hignored
      obtain ⟨reason, hreply⟩ := hignored
      refine PairingRequest.stutters self call ?_
      show PairingRequestReply.Idle (self.apply call).1
      rw [show (self.apply call).1 = _ from hreply]
      trivial
    · intro before call hquiet
      exact PairingRequest.ignored_of_quiet hquiet

/-- An acceptance that comes before the request was marked sent is as if it had not come. -/
theorem idle_calls_leave_no_trace_early :
    let id : PairingAttemptId := ⟨List.replicate 16 7, by decide⟩
    (PairingRequest.withAttemptId id 30).run
        [.handleRemoteMessage (PairingMessage.requestAccepted id).encode 1, .markRequestSent 2] =
      (PairingRequest.withAttemptId id 30).run [.markRequestSent 2] := by
  intro id
  have hunsent : NotSent ((PairingRequest.withAttemptId id 30).log []) := by
    intro entry hentry
    cases hentry
  have hquiet : QuietMessage id 30 []
      (.handleRemoteMessage (PairingMessage.requestAccepted id).encode 1) :=
    .earlyAccepted (by decide) hunsent (PairingMessage.decode_encode _)
  exact (idle_calls_leave_no_trace.2.2 id 30 [.markRequestSent 2] _
    (.insert hquiet (.keep .nil))).1

end LocalTransfer
