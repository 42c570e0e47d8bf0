import LocalTransfer.TrustedPeers.RoundTrip

/-!
# What a crash after a call can undo

Runs of mutating calls in which any step of any call may fail and the machine may
crash between calls. A call that has written returns success only with its contents
durable; a removal that finds nothing to remove returns success whatever an earlier,
failed call left behind.
-/

namespace LocalTransfer

open Lib TrustedPeers

variable {Pid : Type}

/-- A crash would bring back the visible store file. -/
def Fs.Synced (s : Fs Pid) : Prop := s.durable .trustedPeers = s.node .trustedPeers

theorem Fs.Carried.synced_iff {s s' : Fs Pid} (h : s.Carried s') : s'.Synced ↔ s.Synced := by
  unfold Fs.Synced
  rw [h.store, h.durable]

/-- A call that finds nothing to write finds the store file durable. -/
def Mutation.Safe (m : Mutation) (s : Fs Pid) : Prop :=
  ∀ S, loadNode (s.node .trustedPeers) = .ok S → m.next S = none → s.Synced

/-- A call with the states around it. -/
structure CallRecord (Pid : Type) where
  mutation : Mutation
  before : Fs Pid
  result : Except TrustedPeerStoreError Reply
  after : Fs Pid

variable [DecidableEq Pid]

/-- A run of mutating calls under any placement of faults, with crashes between calls. -/
inductive FaultyRun (self : TrustedPeerStore) (p : Pid) (s₀ : Fs Pid) :
    List (CallRecord Pid) → Fs Pid → Prop
  | nil : FaultyRun self p s₀ [] s₀
  | call {calls s} (m : Mutation) (oracle : Nat → Answer) : FaultyRun self p s₀ calls s →
      FaultyRun self p s₀
        (calls ++ [⟨m, s, (m.run self p oracle s).1, (m.run self p oracle s).2⟩])
        (m.run self p oracle s).2
  | crash {calls s} : FaultyRun self p s₀ calls s → FaultyRun self p s₀ calls s.crash

variable {self : TrustedPeerStore} {p : Pid} {m : Mutation} {oracle : Nat → Answer} {s : Fs Pid}
  {reply : Reply}

/-- A successful call either has nothing to write and changes nothing, or ends durably. -/
theorem ok_cases (hidle : s.lockOwner = none) (hrun : (m.run self p oracle s).1 = .ok reply) :
    (s.Carried (m.run self p oracle s).2 ∧
        ∃ S, loadNode (s.node .trustedPeers) = .ok S ∧ m.next S = none) ∨
      ((m.run self p oracle s).2.Synced ∧
        ∃ S T, loadNode (s.node .trustedPeers) = .ok S ∧ m.next S = some T) := by
  obtain ⟨S, hload, ⟨hnext, -, hcarried⟩ | ⟨T, hnext, -, -, hnode, hdurable⟩⟩ :=
    ok_effect hidle hrun
  · exact .inl ⟨hcarried, S, hload, hnext⟩
  · exact .inr ⟨hdurable.trans hnode.symm, S, T, hload, hnext⟩

/-- A safe call is durable when it returns success. -/
theorem synced_of_safe (hidle : s.lockOwner = none) (hsafe : m.Safe s)
    (hrun : (m.run self p oracle s).1 = .ok reply) : (m.run self p oracle s).2.Synced := by
  rcases ok_cases hidle hrun with ⟨hcarried, S, hload, hnext⟩ | ⟨hsynced, -⟩
  · exact hcarried.synced_iff.mpr (hsafe S hload hnext)
  · exact hsynced

/-- Every call of a run starts with the lock free. -/
theorem FaultyRun.idle {s₀ : Fs Pid} {calls : List (CallRecord Pid)}
    (h : FaultyRun self p s₀ calls s) (hidle : s₀.lockOwner = none) : s.lockOwner = none := by
  induction h with
  | nil => exact hidle
  | call m oracle _ ih =>
      have hfaults : ∀ n, True ∨ (oracle n).Faultless := fun _ => .inl trivial
      exact (call_effect self p m ih hfaults).2.2
  | crash => rfl

/-- **Success is durable, except where nothing was written.** In every run, a safe call
that returns success leaves the visible contents durable; from any state at rest, a call
does so under every placement of faults exactly when it is safe. -/
theorem success_is_durable (self : TrustedPeerStore) (p : Pid) :
    (∀ (s₀ s : Fs Pid) (calls : List (CallRecord Pid)), s₀.lockOwner = none →
      FaultyRun self p s₀ calls s → ∀ c ∈ calls, c.mutation.Safe c.before →
      ∀ reply, c.result = .ok reply → c.after.Synced) ∧
    ∀ (s : Fs Pid) (m : Mutation), AtRest s →
      ((∀ oracle reply, (m.run self p oracle s).1 = .ok reply → (m.run self p oracle s).2.Synced) ↔
        m.Safe s) := by
  constructor
  · intro s₀ s calls hidle hrun
    induction hrun with
    | nil => intro c hc; exact absurd hc List.not_mem_nil
    | @call calls s m oracle hrun ih =>
        intro c hc hsafe reply hreply
        rcases List.mem_append.mp hc with hc | hc
        · exact ih c hc hsafe reply hreply
        · rw [List.mem_singleton.mp hc] at hsafe hreply ⊢
          exact synced_of_safe (hrun.idle hidle) hsafe hreply
    | crash _ ih => exact ih
  · intro s m hs
    constructor
    · intro h S hload hnext
      obtain ⟨identity, rfl⟩ : ∃ identity, m = .remove identity := by
        cases m with
        | store => cases hnext
        | remove identity => exact ⟨identity, rfl⟩
      have hrun : ((Mutation.remove identity).run self p calm s).1 =
          .ok ((Mutation.remove identity).replyOn S) := by
        have hfits : (Mutation.remove identity).Fits := trivial
        rcases result_faultless hs hload calm_faultless hfits with hrun | ⟨-, -, record, hm, -⟩
        · exact hrun
        · cases hm
      rcases ok_cases hs.idle hrun with ⟨hcarried, -⟩ | ⟨-, S', T, hload', hnext'⟩
      · exact hcarried.synced_iff.mp (h calm _ hrun)
      · rw [hload] at hload'
        cases hload'
        rw [hnext] at hnext'
        cases hnext'
    · exact fun hsafe oracle reply hrun => synced_of_safe hs.idle hsafe hrun

/-- A removal fails in its last sync, the machine crashes, and the removal is repeated. -/
theorem success_is_durable_fresh :
    let wide := Mutation.store (recordWith (some wideLabel))
    let remove := Mutation.remove (recordWith none).identity
    let stored := (wide.run ⟨false⟩ () calm (Fs.fresh : Fs Unit)).2
    let failed := remove.run ⟨false⟩ () (failingAt 23) stored
    let again := remove.run ⟨false⟩ () calm failed.2.crash
    failed.1.toOption = none ∧ again.1 = .ok (.removal .removed) ∧ again.2.Synced ∧
    ((∀ oracle reply, (remove.run ⟨false⟩ () oracle failed.2.crash).1 = .ok reply →
        (remove.run ⟨false⟩ () oracle failed.2.crash).2.Synced) ↔
      remove.Safe failed.2.crash) := by
  intro wide remove stored failed again
  have hruns : failed.1.toOption = none ∧ again.1 = .ok (.removal .removed) ∧
      failed.2.crash.node .trustedPeersLock = .regular [] := by decide +kernel
  obtain ⟨hfailed, hagain, hlock⟩ := hruns
  have hs : AtRest failed.2.crash := ⟨rfl, .inr ⟨[], hlock⟩⟩
  have hcrashed : ∀ {calls s}, FaultyRun ⟨false⟩ () (Fs.fresh : Fs Unit) calls s →
      (remove.run ⟨false⟩ () calm s.crash).1 = .ok (.removal .removed) →
      (remove.run ⟨false⟩ () calm s.crash).2.Synced := by
    intro calls s hrun hok
    -- what is visible after a crash is what is durable
    have hsafe : remove.Safe s.crash := fun S _ _ => rfl
    exact (success_is_durable ⟨false⟩ ()).1 Fs.fresh _ _ rfl (.call remove calm (.crash hrun)) _
      (List.mem_append_right _ List.mem_cons_self) hsafe _ hok
  have hsynced : again.2.Synced :=
    hcrashed (.call remove (failingAt 23) (.call wide calm .nil)) hagain
  exact ⟨hfailed, hagain, hsynced, (success_is_durable ⟨false⟩ ()).2 _ remove hs⟩

/-- **A removed record comes back.** After a removal whose directory sync failed, a second
removal reports the record absent; a crash brings it back. -/
theorem absent_record_comes_back :
    Fs.Synced (Fs.fresh : Fs Unit) ∧
    ∃ calls s, FaultyRun ⟨false⟩ () Fs.fresh calls s ∧ ∃ c ∈ calls,
      c.mutation = .remove (recordWith none).identity ∧
        c.result = .ok (.removal .alreadyAbsent) ∧ ¬ c.after.Synced ∧
        ∃ S, (loadRun ⟨false⟩ () calm c.after.crash).1 = .ok S ∧
          S.contains (recordWith none).identity = true := by
  refine ⟨rfl, _, _, .call (.remove (recordWith none).identity) calm
    (.call (.remove (recordWith none).identity) (failingAt 23)
      (.call (.store (recordWith none)) calm .nil)), _, List.mem_append_right _ List.mem_cons_self,
    rfl, ?_, ?_, ?_⟩
  · decide
  · unfold Fs.Synced
    decide
  · exact ⟨⟨[recordWith none], List.pairwise_singleton _ _⟩, by decide, by decide⟩

end LocalTransfer
