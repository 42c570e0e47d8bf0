import LocalTransfer.Pairing.Request
import Mathlib.Tactic.Common

/-!
# What a sequence of calls does to a pairing request

A call that resolves the attempt fixes its state for good, and nothing else moves it but
the first `mark_request_sent`. `Resolves` says which calls resolve and to what; the
trace theorem is its first resolving call read off the sequence.
-/

namespace LocalTransfer

open Lib PairingRequest

/-- The request has been marked sent. -/
def MarkedSent (calls : List PairingRequestCall) : Prop :=
  ∃ now, .markRequestSent now ∈ calls

/-- A call made after `before`, on an attempt no call of `before` has resolved, resolves
it to a state. An expired deadline is looked at before the message. -/
inductive Resolves (id : PairingAttemptId) (deadline : Duration)
    (before : List PairingRequestCall) : PairingRequestCall → PairingRequestState → Prop
  | expired {call now} : call.now = some now → deadline ≤ now →
      Resolves id deadline before call .timedOut
  | cancelled : Resolves id deadline before .cancel .cancelled
  | transport : Resolves id deadline before .noteTransportFailure (.failed .transportFailure)
  | malformed {raw now error} : now < deadline → PairingMessage.decode raw = .error error →
      Resolves id deadline before (.handleRemoteMessage raw now) (.failed (.protocol error))
  | ownRequest {raw now} : now < deadline → PairingMessage.decode raw = .ok (.request id) →
      Resolves id deadline before (.handleRemoteMessage raw now) (.failed .unexpectedMessage)
  | accepted {raw now} : now < deadline → MarkedSent before →
      PairingMessage.decode raw = .ok (.requestAccepted id) →
      Resolves id deadline before (.handleRemoteMessage raw now) .readyForNextPairingStage
  | rejected {raw now reason} : now < deadline → MarkedSent before →
      PairingMessage.decode raw = .ok (.requestRejected id reason) →
      Resolves id deadline before (.handleRemoteMessage raw now) (.rejected reason)

/-- No call of the sequence resolves the attempt. -/
def Unresolved (id : PairingAttemptId) (deadline : Duration)
    (calls : List PairingRequestCall) : Prop :=
  ∀ before call after, calls = before ++ call :: after →
    ∀ state, ¬ Resolves id deadline before call state

/-- An attempt no call of `calls` has resolved. -/
structure Waiting (id : PairingAttemptId) (deadline : Duration)
    (calls : List PairingRequestCall) (request : PairingRequest) : Prop where
  attemptId : request.attemptId = id
  deadline : request.deadline = deadline
  sent : MarkedSent calls → request.state = .awaitingRemoteResponse
  unsent : ¬ MarkedSent calls → request.state = .requestCreated

section Steps

variable {id : PairingAttemptId} {deadline : Duration} {calls : List PairingRequestCall}
  {call : PairingRequestCall} {state : PairingRequestState} {request : PairingRequest}

theorem markedSent_append {later : List PairingRequestCall} :
    MarkedSent (calls ++ later) ↔ MarkedSent calls ∨ MarkedSent later := by
  simp [MarkedSent, exists_or]

/-- Once resolved, an attempt is left as it is. -/
theorem apply_of_terminal (h : request.isTerminal) (call : PairingRequestCall) :
    (request.apply call).2 = request := by
  cases call <;>
    simp [PairingRequest.apply, requestMessage, markRequestSent, handleRemoteMessage, checkDeadline,
      PairingRequest.cancel, noteTransportFailure, shortCircuit, h]

theorem run_of_terminal (h : request.isTerminal) (calls : List PairingRequestCall) :
    request.run calls = request := by
  induction calls with
  | nil => rfl
  | cons call calls ih => rw [run_cons, apply_of_terminal h, ih]

theorem Waiting.not_terminal (h : Waiting id deadline calls request) :
    request.isTerminal = false := by
  by_cases hsent : MarkedSent calls
  · simp [isTerminal, h.sent hsent]
  · simp [isTerminal, h.unsent hsent]

/-- A resolving call takes a waiting attempt to its state, -/
theorem Waiting.apply_of_resolves (h : Waiting id deadline calls request)
    (hcall : Resolves id deadline calls call state) : (request.apply call).2.state = state := by
  have hterm := h.not_terminal
  obtain ⟨rfl, rfl, hsent, -⟩ := h
  cases hcall with
  | expired hnow hexp =>
      cases call <;> cases hnow <;>
        simp [PairingRequest.apply, requestMessage, markRequestSent, handleRemoteMessage,
          checkDeadline, shortCircuit_of_expired hterm hexp]
  | cancelled => simp [PairingRequest.apply, PairingRequest.cancel, hterm]
  | transport => simp [PairingRequest.apply, noteTransportFailure, fail, hterm]
  | malformed hnow hraw | ownRequest hnow hraw =>
      simp [PairingRequest.apply, handleRemoteMessage, shortCircuit_of_lt hterm hnow, hraw, fail,
        PairingMessage.attemptId]
  | accepted hnow hmarked hraw | rejected hnow hmarked hraw =>
      simp [PairingRequest.apply, handleRemoteMessage, shortCircuit_of_lt hterm hnow, hraw,
        PairingMessage.attemptId, hsent hmarked]

theorem Waiting.keep (h : Waiting id deadline calls request)
    (hcall : ∀ now, call ≠ .markRequestSent now) :
    Waiting id deadline (calls ++ [call]) request := by
  have hiff : MarkedSent (calls ++ [call]) ↔ MarkedSent calls := by
    rw [markedSent_append, or_iff_left]
    rintro ⟨now, hnow⟩
    exact hcall now (List.mem_singleton.mp hnow).symm
  exact ⟨h.attemptId, h.deadline, fun hs => h.sent (hiff.mp hs),
    fun hs => h.unsent fun hs' => hs (hiff.mpr hs')⟩

/-- A message that does not resolve a waiting attempt leaves it as it is: it is for
another attempt, or a response before the request was marked sent. -/
theorem Waiting.handleRemoteMessage_of_not_resolves {raw : Bytes} {now : Duration}
    (h : Waiting id deadline calls request) (hnow : now < deadline)
    (hcall : ∀ state, ¬ Resolves id deadline calls (.handleRemoteMessage raw now) state) :
    (request.handleRemoteMessage raw now).2 = request := by
  have hterm := h.not_terminal
  obtain ⟨rfl, rfl, -, hunsent⟩ := h
  cases hraw : PairingMessage.decode raw with
  | error error => exact absurd (.malformed hnow hraw) (hcall _)
  | ok message =>
      by_cases hid : message.attemptId = request.attemptId
      · cases message with
        | request id =>
            cases hid
            exact absurd (.ownRequest hnow hraw) (hcall _)
        | requestAccepted id =>
            cases hid
            have hmarked : ¬ MarkedSent calls := fun hs =>
              hcall _ (.accepted hnow hs hraw)
            simp [handleRemoteMessage, shortCircuit_of_lt hterm hnow, hraw,
              PairingMessage.attemptId, hunsent hmarked]
        | requestRejected id reason =>
            cases hid
            have hmarked : ¬ MarkedSent calls := fun hs =>
              hcall _ (.rejected hnow hs hraw)
            simp [handleRemoteMessage, shortCircuit_of_lt hterm hnow, hraw,
              PairingMessage.attemptId, hunsent hmarked]
      · simp [handleRemoteMessage, shortCircuit_of_lt hterm hnow, hraw, hid]

/-- The first `mark_request_sent` in time starts the wait for a response. -/
theorem Waiting.markRequestSent {now : Duration} (h : Waiting id deadline calls request)
    (hnow : now < deadline) :
    Waiting id deadline (calls ++ [.markRequestSent now]) (request.markRequestSent now).2 := by
  have hterm := h.not_terminal
  obtain ⟨rfl, rfl, hsent, hunsent⟩ := h
  have hmarked : MarkedSent (calls ++ [.markRequestSent now]) := ⟨now, by simp⟩
  refine ⟨?_, ?_, fun _ => ?_, fun hs => absurd hmarked hs⟩
  all_goals
    simp only [PairingRequest.markRequestSent, shortCircuit_of_lt hterm hnow]
    by_cases hs : MarkedSent calls
    · simp [hsent hs]
    · simp [hunsent hs]

/-- and any other call leaves it waiting. -/
theorem Waiting.apply_of_not_resolves (h : Waiting id deadline calls request)
    (hcall : ∀ state, ¬ Resolves id deadline calls call state) :
    Waiting id deadline (calls ++ [call]) (request.apply call).2 := by
  have hterm := h.not_terminal
  have hlt : ∀ now, call.now = some now → now < request.deadline := fun now hnow =>
    Nat.lt_of_not_le fun hexp => hcall _ (.expired hnow (h.deadline ▸ hexp))
  cases call with
  | requestMessage now =>
      have hsame : (request.requestMessage now).2 = request := by
        simp only [PairingRequest.requestMessage, shortCircuit_of_lt hterm (hlt now rfl)]
        split <;> rfl
      simpa [PairingRequest.apply, hsame] using h.keep (by simp)
  | markRequestSent now => exact h.markRequestSent (h.deadline ▸ hlt now rfl)
  | handleRemoteMessage raw now =>
      have hsame := h.handleRemoteMessage_of_not_resolves (h.deadline ▸ hlt now rfl) hcall
      simpa [PairingRequest.apply, hsame] using h.keep (by simp)
  | checkDeadline now =>
      have hsame : (request.checkDeadline now).2 = request := by
        simp only [PairingRequest.checkDeadline, shortCircuit_of_lt hterm (hlt now rfl)]
      simpa [PairingRequest.apply, hsame] using h.keep (by simp)
  | cancel => exact absurd .cancelled (hcall _)
  | noteTransportFailure => exact absurd .transport (hcall _)

theorem Resolves.terminal (h : Resolves id deadline calls call state)
    (hstate : request.state = state) : request.isTerminal := by
  cases h <;> simp [isTerminal, hstate]

end Steps

section Runs

variable {id : PairingAttemptId} {deadline : Duration}

theorem waiting_initial : Waiting id deadline [] (withAttemptId id deadline) :=
  ⟨rfl, rfl, fun ⟨_, hnow⟩ => absurd hnow List.not_mem_nil, fun _ => rfl⟩

theorem unresolved_concat (calls : List PairingRequestCall) {call : PairingRequestCall} :
    Unresolved id deadline (calls ++ [call]) ↔ Unresolved id deadline calls ∧
      ∀ state, ¬ Resolves id deadline calls call state := by
  constructor
  · refine fun h => ⟨?_, h calls call [] rfl⟩
    rintro before call' after rfl
    exact h before call' (after ++ [call]) (by simp)
  · rintro ⟨h, hcall⟩ before call' after heq
    rcases List.eq_nil_or_concat after with rfl | ⟨after, last, rfl⟩
    · obtain ⟨rfl, hlast⟩ := List.append_inj' heq rfl
      cases hlast
      exact hcall
    · rw [List.concat_eq_append, ← List.cons_append, ← List.append_assoc] at heq
      obtain ⟨rfl, -⟩ := List.append_inj' heq rfl
      exact h before call' after rfl

/-- A sequence with no resolving call leaves the attempt waiting. -/
theorem Unresolved.waiting {calls : List PairingRequestCall} (h : Unresolved id deadline calls) :
    Waiting id deadline calls ((withAttemptId id deadline).run calls) := by
  induction calls using List.reverseRecOn with
  | nil => exact waiting_initial
  | append_singleton calls call ih =>
      rw [run_append]
      obtain ⟨h, hcall⟩ := (unresolved_concat _).mp h
      exact (ih h).apply_of_not_resolves hcall

/-- The first resolving call decides the state for good. -/
theorem Unresolved.run_of_resolves {before after : List PairingRequestCall}
    {call : PairingRequestCall} {state : PairingRequestState} (h : Unresolved id deadline before)
    (hcall : Resolves id deadline before call state) :
    ((withAttemptId id deadline).run (before ++ call :: after)).state = state := by
  have hstate := h.waiting.apply_of_resolves hcall
  rw [run_append, run_cons, run_of_terminal (hcall.terminal hstate), hstate]

/-- Either no call of a sequence resolves the attempt or one is the first to. -/
theorem unresolved_or_first (id : PairingAttemptId) (deadline : Duration)
    (calls : List PairingRequestCall) :
    Unresolved id deadline calls ∨ ∃ before call after state, calls = before ++ call :: after ∧
      Unresolved id deadline before ∧ Resolves id deadline before call state := by
  induction calls using List.reverseRecOn with
  | nil => exact .inl fun before call after h => by simp at h
  | append_singleton calls call ih =>
      rcases ih with h | ⟨before, call', after, state, rfl, h, hcall⟩
      · by_cases hcall : ∃ state, Resolves id deadline calls call state
        · obtain ⟨state, hcall⟩ := hcall
          exact .inr ⟨calls, call, [], state, rfl, h, hcall⟩
        · exact .inl ((unresolved_concat _).mpr ⟨h, not_exists.mp hcall⟩)
      · exact .inr ⟨before, call', after ++ [call], state, by simp, h, hcall⟩

/-- An attempt is waiting, or its state is the one its first resolving call decided. -/
theorem run_state_cases (id : PairingAttemptId) (deadline : Duration)
    (calls : List PairingRequestCall) :
    Waiting id deadline calls ((withAttemptId id deadline).run calls) ∨
      ∃ before call after, calls = before ++ call :: after ∧ Unresolved id deadline before ∧
        Resolves id deadline before call ((withAttemptId id deadline).run calls).state := by
  rcases unresolved_or_first id deadline calls with h | ⟨before, call, after, state, rfl, h, hcall⟩
  · exact .inl h.waiting
  · rw [h.run_of_resolves hcall]
    exact .inr ⟨before, call, after, rfl, h, hcall⟩

/-- Readiness comes from an own acceptance, in time and after the request was marked sent. -/
theorem exists_accepted_of_ready {calls : List PairingRequestCall}
    (h : ((withAttemptId id deadline).run calls).state = .readyForNextPairingStage) :
    ∃ before raw now after, calls = before ++ .handleRemoteMessage raw now :: after ∧
      Unresolved id deadline before ∧ now < deadline ∧ MarkedSent before ∧
      PairingMessage.decode raw = .ok (.requestAccepted id) := by
  rcases run_state_cases id deadline calls with hw | ⟨before, call, after, heq, hun, hcall⟩
  · have hterm := hw.not_terminal
    simp [isTerminal, h] at hterm
  · rw [h] at hcall
    cases hcall with
    | accepted hnow hmarked hraw => exact ⟨before, _, _, after, heq, hun, hnow, hmarked, hraw⟩

/-- **The first resolving call decides.** Its state is never changed by a later call; with
no resolving call the state only tells whether the request was marked sent; and the
attempt is ready exactly when the first resolving call is an own acceptance. -/
theorem first_resolving_call_decides (id : PairingAttemptId) (deadline : Duration) :
    (∀ before call after state, Unresolved id deadline before →
      Resolves id deadline before call state →
      ((withAttemptId id deadline).run (before ++ call :: after)).state = state) ∧
    (∀ calls, Unresolved id deadline calls →
      (MarkedSent calls →
        ((withAttemptId id deadline).run calls).state = .awaitingRemoteResponse) ∧
      (¬ MarkedSent calls → ((withAttemptId id deadline).run calls).state = .requestCreated)) ∧
    (∀ calls, ((withAttemptId id deadline).run calls).state = .readyForNextPairingStage ↔
      ∃ before raw now after, calls = before ++ .handleRemoteMessage raw now :: after ∧
        Unresolved id deadline before ∧ now < deadline ∧ MarkedSent before ∧
        PairingMessage.decode raw = .ok (.requestAccepted id)) := by
  refine ⟨fun before call after state h hcall => h.run_of_resolves hcall,
    fun calls h => ⟨h.waiting.sent, h.waiting.unsent⟩, fun calls => ⟨exists_accepted_of_ready, ?_⟩⟩
  rintro ⟨before, raw, now, after, rfl, h, hnow, hmarked, hraw⟩
  exact h.run_of_resolves (.accepted hnow hmarked hraw)

/-- An early acceptance is not remembered, and a rejection after the attempt is ready does
not reach it. -/
theorem first_resolving_call_decides_accepted :
    let id : PairingAttemptId := ⟨List.replicate 16 7, by decide⟩
    ((withAttemptId id 30).run ([.handleRemoteMessage (PairingMessage.requestAccepted id).encode 1,
      .markRequestSent 2] ++ .handleRemoteMessage (PairingMessage.requestAccepted id).encode 3 ::
      [.handleRemoteMessage (PairingMessage.requestRejected id .busy).encode 2, .cancel])).state =
      .readyForNextPairingStage := by
  intro id
  refine (first_resolving_call_decides id 30).1 _ _ _ _ ?_
    (.accepted (by decide) ⟨2, by simp⟩ (PairingMessage.decode_encode _))
  have hearly : Unresolved id 30
      [.handleRemoteMessage (PairingMessage.requestAccepted id).encode 1] := by
    refine (unresolved_concat []).mpr ⟨fun before call after h => by simp at h, ?_⟩
    intro state h
    cases h with
    | expired hnow hexp => cases hnow; simp at hexp
    | malformed _ hraw | ownRequest _ hraw => simp at hraw
    | accepted _ hmarked _ | rejected _ hmarked _ => simp [MarkedSent] at hmarked
  refine (unresolved_concat [_]).mpr ⟨hearly, fun state h => ?_⟩
  cases h with
  | expired hnow hexp => cases hnow; simp at hexp

end Runs

end LocalTransfer
