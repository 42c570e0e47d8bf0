import LocalTransfer.TrustedPeers.Steps

/-!
# The store used by any number of processes

All interleavings of the individual steps of `load`, `store` and `remove` calls, with
failing steps and crashes of processes. A history variable records every rename of the
store file with the call that made it; the proofs keep it in step with the file and
show that every entry is its call's own update of the entry before.
-/

namespace LocalTransfer

open Lib TrustedPeers

/-- A call of the store. -/
inductive StoreCall
  | load
  | mutate (m : Mutation)

/-- The program of a call. -/
def StoreCall.code (self : TrustedPeerStore) :
    StoreCall → Prog FsOp FsOp.Result (Except TrustedPeerStoreError Reply)
  | .load => (Reply.loaded <$> TrustedPeerStore.load self).run
  | .mutate m => (m.code self).run

variable {Pid : Type}

/-- One rename of the store file. -/
structure Commit (Pid : Type) where
  pid : Pid
  call : StoreCall
  contents : Bytes

/-- The filesystem, and the renames of the store file so far. -/
structure Shared (Pid : Type) where
  fs : Fs Pid
  history : List (Commit Pid)

/-- The successive contents of the store file: `version first history i` is what it held
after `i` renames. -/
def version (first : Node) (history : List (Commit Pid)) (i : Nat) : Node :=
  ((first :: history.map fun c => Node.regular c.contents)[i]?).getD .missing

/-- A rename that applies its call's own update to the contents before it. -/
def Follows (before : Node) (c : Commit Pid) : Prop :=
  ∃ m S T, c.call = .mutate m ∧ loadNode before = .ok S ∧ m.next S = some T ∧
    c.contents = encode T.records

@[simp] theorem version_zero (first : Node) (history : List (Commit Pid)) :
    version first history 0 = first := rfl

theorem version_append {first : Node} {history new : List (Commit Pid)} {i : Nat}
    (h : i ≤ history.length) : version first (history ++ new) i = version first history i := by
  unfold version
  rw [List.map_append, ← List.cons_append,
    List.getElem?_append_left (by simpa using Nat.lt_succ_of_le h)]

theorem version_succ {first : Node} {history : List (Commit Pid)} {i : Nat} {c : Commit Pid}
    (h : history[i]? = some c) : version first history (i + 1) = .regular c.contents := by
  simp [version, h]

/-- The store file is the newest version, and every version follows from the one before. -/
structure Chain (first : Node) (s : Shared Pid) : Prop where
  current : s.fs.node .trustedPeers = version first s.history s.history.length
  follows : ∀ i c, s.history[i]? = some c → Follows (version first s.history i) c

/-! ## What processes do to one another -/

/-- From the point of view of process `p`: others add to the history but not while `p`
holds the lock, and the lock is only given by the operating system. -/
structure Undisturbed (first : Node) (p : Pid) (s s' : Shared Pid) : Prop where
  extends_history : ∃ new, s'.history = s.history ++ new ∧ ∀ c ∈ new, c.pid ≠ p
  owned : s.fs.lockOwner = some p → s'.fs.lockOwner = some p ∧ s'.history = s.history ∧
    s'.fs.node .trustedPeers = s.fs.node .trustedPeers
  not_owned : s.fs.lockOwner ≠ some p → s'.fs.lockOwner ≠ some p
  symlink : s'.fs.node .trustedPeers = .symlink → s.fs.node .trustedPeers = .symlink
  chain : Chain first s → Chain first s'

/-- A step of process `p` that changes neither the store file nor the history: it may take
the lock if it is free and release it if it holds it. -/
structure Harmless (p : Pid) (s s' : Shared Pid) : Prop where
  history : s'.history = s.history
  store : s'.fs.node .trustedPeers = s.fs.node .trustedPeers
  owner : s'.fs.lockOwner = s.fs.lockOwner ∨
    (s.fs.lockOwner = none ∧ s'.fs.lockOwner = some p) ∨
    (s.fs.lockOwner = some p ∧ s'.fs.lockOwner = none)

/-- The rename: made by the lock holder, and recorded. -/
structure Commits (p : Pid) (c : StoreCall) (contents : Bytes) (s s' : Shared Pid) : Prop where
  owner : s.fs.lockOwner = some p
  owner' : s'.fs.lockOwner = some p
  follows : Follows (s.fs.node .trustedPeers) (⟨p, c, contents⟩ : Commit Pid)
  store : s'.fs.node .trustedPeers = .regular contents
  history : s'.history = s.history ++ [⟨p, c, contents⟩]

section Steps

variable {first : Node} {p q : Pid} {c : StoreCall} {s s' s₁ s₂ s₃ : Shared Pid}

theorem Undisturbed.refl (first : Node) (p : Pid) (s : Shared Pid) : Undisturbed first p s s :=
  ⟨⟨[], by simp, by simp⟩, fun h => ⟨h, rfl, rfl⟩, id, id, id⟩

theorem Undisturbed.trans (h : Undisturbed first p s₁ s₂) (h' : Undisturbed first p s₂ s₃) :
    Undisturbed first p s₁ s₃ := by
  obtain ⟨new, hnew, hpid⟩ := h.extends_history
  obtain ⟨new', hnew', hpid'⟩ := h'.extends_history
  refine ⟨⟨new ++ new', by rw [hnew', hnew, List.append_assoc], ?_⟩, ?_, ?_, ?_, ?_⟩
  · intro c hc
    rcases List.mem_append.mp hc with hc | hc
    · exact hpid c hc
    · exact hpid' c hc
  · intro howner
    obtain ⟨h₁, h₂, h₃⟩ := h.owned howner
    obtain ⟨h₁', h₂', h₃'⟩ := h'.owned h₁
    exact ⟨h₁', h₂'.trans h₂, h₃'.trans h₃⟩
  · exact fun howner => h'.not_owned (h.not_owned howner)
  · exact fun hsym => h.symlink (h'.symlink hsym)
  · exact fun hchain => h'.chain (h.chain hchain)

theorem Undisturbed.length_le (h : Undisturbed first p s s') :
    s.history.length ≤ s'.history.length := by
  obtain ⟨new, hnew, -⟩ := h.extends_history
  simp [hnew]

theorem Harmless.chain (h : Harmless p s s') (hchain : Chain first s) : Chain first s' := by
  refine ⟨?_, ?_⟩
  · rw [h.store, h.history]
    exact hchain.current
  · rw [h.history]
    exact hchain.follows

/-- The rename adds one link to the chain. -/
theorem Commits.chain {contents : Bytes} (h : Commits p c contents s s')
    (hchain : Chain first s) : Chain first s' := by
  have hlast : s'.history[s.history.length]? = some ⟨p, c, contents⟩ := by
    rw [h.history]
    simp
  refine ⟨?_, ?_⟩
  · have hlen : s'.history.length = s.history.length + 1 := by rw [h.history]; simp
    rw [hlen, version_succ hlast, h.store]
  · intro i c' hc'
    rw [h.history] at hc' ⊢
    by_cases hi : i < s.history.length
    · rw [List.getElem?_append_left hi] at hc'
      rw [version_append (Nat.le_of_lt hi)]
      exact hchain.follows i c' hc'
    · have hbound := (List.getElem?_eq_some_iff.mp hc').1
      simp only [List.length_append, List.length_singleton] at hbound
      have hi' : i = s.history.length := by omega
      subst hi'
      simp only [List.getElem?_concat_length, Option.some.injEq] at hc'
      subst hc'
      rw [version_append (Nat.le_refl _), ← hchain.current]
      exact h.follows

/-- Another process sees a harmless step as no disturbance. -/
theorem Harmless.undisturbed (h : Harmless p s s') (hne : p ≠ q) : Undisturbed first q s s' := by
  refine ⟨⟨[], by simp [h.history], by simp⟩, fun howner => ⟨?_, h.history, h.store⟩, ?_, ?_,
    h.chain⟩
  · rcases h.owner with heq | ⟨hnone, -⟩ | ⟨hp, -⟩
    · rw [heq, howner]
    · rw [hnone] at howner
      cases howner
    · rw [hp] at howner
      exact absurd (Option.some.inj howner) hne
  · intro hnot howner
    rcases h.owner with heq | ⟨-, hp⟩ | ⟨-, hnone⟩
    · exact hnot (heq ▸ howner)
    · rw [hp] at howner
      exact hne (Option.some.inj howner)
    · rw [hnone] at howner
      cases howner
  · exact fun hsym => h.store ▸ hsym

/-- Another process sees the rename as one more entry of the history. -/
theorem Commits.undisturbed {contents : Bytes} (h : Commits p c contents s s') (hne : p ≠ q) :
    Undisturbed first q s s' := by
  refine ⟨⟨[⟨p, c, contents⟩], h.history, by simpa using hne⟩, fun howner => ?_, ?_, ?_, h.chain⟩
  · rw [h.owner] at howner
    exact absurd (Option.some.inj howner) hne
  · intro _ howner
    rw [h.owner'] at howner
    exact hne (Option.some.inj howner)
  · intro hsym
    rw [h.store] at hsym
    cases hsym

/-- A step that keeps the store file and the lock disturbs nobody, its own process included. -/
theorem undisturbed_of_still (hstore : s'.fs.node .trustedPeers = s.fs.node .trustedPeers)
    (howner : s'.fs.lockOwner = s.fs.lockOwner) (hhistory : s'.history = s.history) :
    Harmless p s s' ∧ Undisturbed first p s s' := by
  have hharmless : Harmless p s s' := ⟨hhistory, hstore, .inl howner⟩
  refine ⟨hharmless, ⟨[], by simp [hhistory], by simp⟩, fun h => ?_, ?_, ?_, hharmless.chain⟩
  · exact ⟨howner.trans h, hhistory, hstore⟩
  · rw [howner]
    exact id
  · rw [hstore]
    exact id

/-- What a process guarantees to the others. -/
def Guarantee (p : Pid) (c : StoreCall) (s s' : Shared Pid) : Prop :=
  Harmless p s s' ∨ ∃ contents, Commits p c contents s s'

theorem Guarantee.chain (h : Guarantee p c s s')
    (hchain : Chain first s) : Chain first s' := by
  rcases h with h | ⟨contents, h⟩
  · exact h.chain hchain
  · exact h.chain hchain

theorem Guarantee.undisturbed (h : Guarantee p c s s') (hne : p ≠ q) :
    Undisturbed first q s s' := by
  rcases h with h | ⟨contents, h⟩
  · exact h.undisturbed hne
  · exact h.undisturbed hne

end Steps

/-! ## The system -/

/-- What a step adds to the history: a rename of the store file is recorded. -/
def recorded (p : Pid) (c : StoreCall) : (o : FsOp) → o.Result → List (Commit Pid)
  | .persist .trustedPeers contents, .ok _ => [⟨p, c, contents⟩]
  | _, _ => []

theorem recorded_of_quiet {p : Pid} {c : StoreCall} {o : FsOp} (ho : o.Quiet) (r : o.Result) :
    recorded p c o r = [] := by
  cases o with
  | persist => exact ho.elim
  | _ => rfl

variable [DecidableEq Pid]

/-- One step of process `p` inside call `c`. -/
def sharedStep (p : Pid) (c : StoreCall) (o : FsOp) (a : Answer) (s : Shared Pid) :
    o.Result × Shared Pid :=
  ((Fs.step p o a s.fs).1,
    ⟨(Fs.step p o a s.fs).2, s.history ++ recorded p c o (Fs.step p o a s.fs).1⟩)

theorem sharedStep_spec {p : Pid} {c : StoreCall} {o : FsOp} {a : Answer} {s s' : Shared Pid}
    {r : o.Result} (h : sharedStep p c o a s = (r, s')) :
    Fs.step p o a s.fs = (r, s'.fs) ∧ s'.history = s.history ++ recorded p c o r := by
  cases h
  exact ⟨rfl, rfl⟩

/-- What the crash of a process leaves: the operating system releases its lock. -/
def crashProcess (p : Pid) (s : Shared Pid) : Shared Pid :=
  { s with fs := { s.fs with
      lockOwner := if s.fs.lockOwner = some p then none else s.fs.lockOwner } }

/-- All processes, each free to start any call at any time, with or without failing steps. -/
def storeSystem (faults : Prop) (self : TrustedPeerStore) (Pid : Type) [DecidableEq Pid] :
    System Pid StoreCall (Env faults) (Shared Pid) FsOp FsOp.Result
      (Except TrustedPeerStoreError Reply) where
  sem p c o a := sharedStep p c o a.1
  code := StoreCall.code self
  crash := crashProcess

/-! ## One call among others -/

section Reading

variable {faults : Prop} {first : Node} {p : Pid} {c : StoreCall} {s s' : Shared Pid}

/-- The logic of call `c` of process `p` among the others. -/
def sharedLogic (faults : Prop) (first : Node) (p : Pid) (c : StoreCall) :
    Logic (Shared Pid) FsOp FsOp.Result where
  next s o r s' := ∃ a : Env faults, sharedStep p c o a.1 s = (r, s')
  rely := Undisturbed first p
  guar := Guarantee p c
  rely_refl := Undisturbed.refl first p
  rely_trans := Undisturbed.trans

/-- The store's operations, read as steps of one process among others. What is excused is the
same in every state, and at least a failing step. -/
def concurrent {faults excused : Prop} (hexcused : faults → excused) (first : Node) (p : Pid)
    (c : StoreCall) : StoreLogic (sharedLogic faults first p c) where
  node s := s.fs.node
  quiet := Undisturbed first p
  acquired s s' := Harmless p s s' ∧ s'.fs.lockOwner = some p
  committed contents s s' := Commits p c contents s s'
  flushed := Undisturbed first p
  released s s' := Harmless p s s' ∧ s'.fs.lockOwner ≠ some p
  permitted contents s := s.fs.lockOwner = some p ∧
    Follows (s.fs.node .trustedPeers) (⟨p, c, contents⟩ : Commit Pid)
  contended _ := True
  excused _ := excused
  quiet_refl := Undisturbed.refl first p
  quiet_trans := Undisturbed.trans
  rely_quiet := id
  excused_mono _ h := h
  store_symlink h := h.symlink
  quiet_op := by
    rintro s o r s' ho ⟨a, h⟩
    obtain ⟨hstep, hhistory⟩ := sharedStep_spec h
    obtain ⟨hq, hrep⟩ := Fs.quiet_op ho a.2 hstep
    rw [recorded_of_quiet ho, List.append_nil] at hhistory
    obtain ⟨hharmless, hund⟩ := undisturbed_of_still hq.store hq.owner hhistory
    exact ⟨.inl hharmless, hund, hrep.mono hexcused⟩
  try_lock := by
    rintro s r s' ⟨a, h⟩
    obtain ⟨hstep, hhistory⟩ := sharedStep_spec h
    rw [show recorded p c .tryLock r = [] from rfl, List.append_nil] at hhistory
    rcases Fs.tryLock_spec a.2 hstep with
      ⟨hr, hnone, hs⟩ | ⟨hr, -, hs⟩ | ⟨e, hr, hq, hfaults⟩
    · have hharmless : Harmless p s s' :=
        ⟨hhistory, by rw [hs], .inr (.inl ⟨hnone, by rw [hs]⟩)⟩
      exact ⟨.inl hharmless, .inl ⟨hr, hharmless, by rw [hs]⟩⟩
    · obtain ⟨hharmless, hund⟩ := undisturbed_of_still (by rw [hs]) (by rw [hs]) hhistory
      exact ⟨.inl hharmless, .inr (.inl ⟨hr, trivial, hund⟩)⟩
    · obtain ⟨hharmless, hund⟩ := undisturbed_of_still hq.store hq.owner hhistory
      exact ⟨.inl hharmless, .inr (.inr ⟨e, hr, hund, hexcused hfaults⟩)⟩
  unlock := by
    rintro s r s' ⟨a, h⟩
    obtain ⟨hstep, hhistory⟩ := sharedStep_spec h
    rw [show recorded p c .unlock r = [] from rfl, List.append_nil] at hhistory
    simp only [Fs.step, Prod.mk.injEq] at hstep
    obtain ⟨-, hs⟩ := hstep
    by_cases howner : s.fs.lockOwner = some p
    · rw [if_pos howner] at hs
      have hharmless : Harmless p s s' :=
        ⟨hhistory, by rw [← hs], .inr (.inr ⟨howner, by rw [← hs]⟩)⟩
      exact ⟨.inl hharmless, hharmless, by simp [← hs]⟩
    · rw [if_neg howner] at hs
      have hharmless : Harmless p s s' := ⟨hhistory, by rw [hs], .inl (by rw [hs])⟩
      exact ⟨.inl hharmless, hharmless, by rwa [← hs]⟩
  persist := by
    rintro s contents r s' ⟨howner, hfollows⟩ ⟨a, h⟩
    obtain ⟨hstep, hhistory⟩ := sharedStep_spec h
    rcases Fs.settle_spec a.2 hstep with ⟨rfl, hs⟩ | ⟨e, rfl, hq, hfaults⟩
    · have hcommit : Commits p c contents s s' :=
        ⟨howner, by rw [hs]; exact howner, hfollows, by simp [hs], hhistory⟩
      exact ⟨.inr ⟨contents, hcommit⟩, .inl ⟨rfl, hcommit⟩⟩
    · rw [show recorded p c (.persist .trustedPeers contents) (.error e) = [] from rfl,
        List.append_nil] at hhistory
      obtain ⟨hharmless, hund⟩ := undisturbed_of_still hq.store hq.owner hhistory
      exact ⟨.inl hharmless, .inr ⟨e, rfl, hund, hexcused hfaults⟩⟩
  sync_parent := by
    rintro s r s' ⟨a, h⟩
    obtain ⟨hstep, hhistory⟩ := sharedStep_spec h
    rw [show recorded p c .syncParent r = [] from rfl, List.append_nil] at hhistory
    rcases Fs.settle_spec a.2 hstep with ⟨hr, hs⟩ | ⟨e, hr, hq, hfaults⟩
    · obtain ⟨hharmless, hund⟩ := undisturbed_of_still (by rw [hs]) (by rw [hs]) hhistory
      exact ⟨.inl hharmless, .inl ⟨hr, hund⟩⟩
    · obtain ⟨hharmless, hund⟩ := undisturbed_of_still hq.store hq.owner hhistory
      exact ⟨.inl hharmless, .inr ⟨e, hr, hund, hexcused hfaults⟩⟩

/-! ### What a call contributes -/

/-- The renames of process `p` between two states. -/
def Contributes (p : Pid) (own : List (Commit Pid)) (s s' : Shared Pid) : Prop :=
  ∃ new, s'.history = s.history ++ new ∧ new.filter (fun c => c.pid = p) = own

theorem Contributes.trans {own own' : List (Commit Pid)} {s₁ s₂ s₃ : Shared Pid}
    (h : Contributes p own s₁ s₂) (h' : Contributes p own' s₂ s₃) :
    Contributes p (own ++ own') s₁ s₃ := by
  obtain ⟨new, hnew, rfl⟩ := h
  obtain ⟨new', hnew', rfl⟩ := h'
  exact ⟨new ++ new', by rw [hnew', hnew, List.append_assoc], List.filter_append ..⟩

theorem Undisturbed.contributes (h : Undisturbed first p s s') : Contributes p [] s s' := by
  obtain ⟨new, hnew, hpid⟩ := h.extends_history
  exact ⟨new, hnew, List.filter_eq_nil_iff.mpr (by simpa using hpid)⟩

theorem Harmless.contributes (h : Harmless p s s') : Contributes p [] s s' :=
  ⟨[], by simp [h.history], rfl⟩

theorem Commits.contributes {contents : Bytes} (h : Commits p c contents s s') :
    Contributes p [⟨p, c, contents⟩] s s' :=
  ⟨_, h.history, by simp⟩

/-- A mutating call contributes its one rename if it reports a change, nothing if it
reports none or fails before the rename, and may fail after it. -/
def Contribution (p : Pid) (m : Mutation) (own : List (Commit Pid)) :
    Except TrustedPeerStoreError Reply → Prop
  | .ok reply => (own = [] ∧ reply = .removal .alreadyAbsent) ∨
      ((∃ contents, own = [⟨p, .mutate m, contents⟩]) ∧ reply = m.reply)
  | .error e => own = [] ∨ (SyncError e ∧ ∃ contents, own = [⟨p, .mutate m, contents⟩])

/-- What a load returns among others: what some version decodes to that was current
between its start and its end, or an I/O error where steps may fail. -/
def LoadsVersion (faults : Prop) (first : Node) (s : Shared Pid)
    (r : Except TrustedPeerStoreError Reply) (s' : Shared Pid) : Prop :=
  (∃ i, s.history.length ≤ i ∧ i ≤ s'.history.length ∧
      r = (loadNode (version first s'.history i)).map Reply.loaded) ∨
    (faults ∧ ∃ operation path source, r = .error (.io operation path source))

/-- What each call has achieved when it returns. -/
def CallPost (faults : Prop) (first : Node) (p : Pid) :
    StoreCall → Shared Pid → Except TrustedPeerStoreError Reply → Shared Pid → Prop
  | .load, s, r, s' => Contributes p [] s s' ∧ LoadsVersion faults first s r s'
  | .mutate m, s, r, s' => ∃ own, Contributes p own s s' ∧ Contribution p m own r

theorem transacted_contributes {m : Mutation} {r : Except TrustedPeerStoreError Reply}
    {excused : Prop} {hexcused : faults → excused}
    (h : (concurrent hexcused first p (.mutate m)).Transacted m s r s') :
    ∃ own, Contributes p own s s' ∧ Contribution p m own r := by
  cases h with
  | unread h₁ h₂ _ => exact ⟨[], (h₁.trans h₂).contributes, .inl rfl⟩
  | absent h₁ _ _ h₂ => exact ⟨[], (h₁.trans h₂).contributes, .inl ⟨rfl, rfl⟩⟩
  | wrote h₁ _ _ h₂ hwrite =>
      have hq := h₁.trans h₂
      cases hwrite with
      | rejected h₃ _ => exact ⟨[], (hq.trans h₃).contributes, .inl rfl⟩
      | unsynced _ h₃ hcommit h₄ herr _ =>
          exact ⟨_, ((hq.trans h₃).contributes.trans hcommit.contributes).trans h₄.contributes,
            .inr ⟨herr, _, rfl⟩⟩
      | synced _ h₃ hcommit h₄ h₅ h₆ =>
          exact ⟨_, ((hq.trans h₃).contributes.trans hcommit.contributes).trans
            ((h₄.trans h₅).trans h₆).contributes, .inr ⟨⟨_, rfl⟩, rfl⟩⟩

theorem mutated_contributes {m : Mutation} {r : Except TrustedPeerStoreError Reply}
    (hidle : s.fs.lockOwner ≠ some p)
    {excused : Prop} {hexcused : faults → excused}
    (h : (concurrent hexcused first p (.mutate m)).Mutated m s r s') :
    (∃ own, Contributes p own s s' ∧ Contribution p m own r) ∧ s'.fs.lockOwner ≠ some p := by
  cases h with
  | failed h _ => exact ⟨⟨[], h.contributes, .inl rfl⟩, h.not_owned hidle⟩
  | busy h₁ _ h₂ => exact ⟨⟨[], (h₁.trans h₂).contributes, .inl rfl⟩, (h₁.trans h₂).not_owned hidle⟩
  | ran h₁ h₂ h₃ hrun h₅ h₆ h₇ =>
      obtain ⟨own, hown, hcontr⟩ := transacted_contributes hrun
      have hbefore := (h₁.contributes.trans h₂.1.contributes).trans h₃.contributes
      have hafter := (h₅.contributes.trans h₆.1.contributes).trans h₇.contributes
      refine ⟨⟨own, ?_, hcontr⟩, h₇.not_owned h₆.2⟩
      simpa using (hbefore.trans hown).trans hafter

/-- A load returns what some version decodes to. -/
theorem loaded_version {r : Except TrustedPeerStoreError TrustedPeers} (hchain : Chain first s)
    (h : (concurrent (id : faults → faults) first p c).Loaded s r s') :
    LoadsVersion faults first s (r.map Reply.loaded) s' := by
  rcases h with ⟨s₁, h₁, h₂, hr⟩ | ⟨-, hfaults, operation, path, source, hr⟩
  · refine .inl ⟨s₁.history.length, h₁.length_le, h₂.length_le, ?_⟩
    obtain ⟨new, hnew, -⟩ := h₂.extends_history
    rw [hr, hnew, version_append (Nat.le_refl _), ← (h₁.chain hchain).current]
    rfl
  · exact .inr ⟨hfaults, operation, path, source, by rw [hr]; rfl⟩

theorem load_callPost (self : TrustedPeerStore) (hchain : Chain first s)
    (hidle : s.fs.lockOwner ≠ some p) :
    wp (sharedLogic faults first p .load) (StoreCall.load.code self)
      (fun r s' => CallPost faults first p .load s r s' ∧ s'.fs.lockOwner ≠ some p) s := by
  have hpost : ∀ {r : Except TrustedPeerStoreError TrustedPeers} {s₁ s₂ : Shared Pid},
      (concurrent (id : faults → faults) first p .load).Loaded s r s₁ → Undisturbed first p s₁ s₂ →
      CallPost faults first p .load s (r.map Reply.loaded) s₂ ∧ s₂.fs.lockOwner ≠ some p := by
    intro r s₁ s₂ h hq
    have h' := h.before hq
    exact ⟨⟨h'.quiet.contributes, loaded_version hchain h'⟩, h'.quiet.not_owned hidle⟩
  refine wp_bind (wp_mono ((concurrent (id : faults → faults) first p .load).load_spec self s) ?_)
  rintro (e | S) s₁ h s₂ hr
  · exact hpost h hr
  · exact hpost h hr

theorem mutate_callPost (self : TrustedPeerStore) (m : Mutation)
    (hidle : s.fs.lockOwner ≠ some p) :
    wp (sharedLogic faults first p (.mutate m)) ((StoreCall.mutate m).code self)
      (fun r s' => CallPost faults first p (.mutate m) s r s' ∧ s'.fs.lockOwner ≠ some p) s := by
  -- a mutation may also fail for what is at the lock path
  let A := concurrent (fun _ : faults => trivial) first p (.mutate m)
  refine wp_mono (A.mutation_spec (fun _ => .inl trivial) self m ?_) fun r s' h =>
    mutated_contributes hidle h
  -- the lock is held from taking it to the rename, so what was read is still current
  intro s₁ s₂ s₃ s₄ S T _ h₂ h₃ hload hnext h₄
  obtain ⟨howner₃, -, -⟩ := h₃.owned h₂.2
  obtain ⟨howner₄, -, hnode⟩ := h₄.owned howner₃
  exact ⟨howner₄, m, S, T, rfl, (congrArg loadNode hnode).trans hload, hnext, rfl⟩

end Reading

/-! ## The discipline of the store -/

theorem harmless_crash (p : Pid) (s : Shared Pid) : Harmless p s (crashProcess p s) := by
  refine ⟨rfl, rfl, ?_⟩
  by_cases howner : s.fs.lockOwner = some p
  · exact .inr (.inr ⟨howner, by simp [crashProcess, howner]⟩)
  · exact .inl (by simp [crashProcess, howner])

theorem crash_releases (p : Pid) (s : Shared Pid) :
    (crashProcess p s).fs.lockOwner ≠ some p := by
  simp only [crashProcess]
  split
  · simp
  · assumption

/-- The rules all calls of the store obey. -/
def storeDiscipline (faults : Prop) (self : TrustedPeerStore) (first : Node) :
    Discipline (storeSystem faults self Pid) where
  inv := Chain first
  rely := Undisturbed first
  guar := Guarantee
  idle p s := s.fs.lockOwner ≠ some p
  post := CallPost faults first
  rely_refl := Undisturbed.refl first
  rely_trans _ := Undisturbed.trans
  guar_inv := Guarantee.chain
  guar_rely hne h := h.undisturbed hne
  crash_inv h := (harmless_crash _ _).chain h
  crash_rely hne := (harmless_crash _ _).undisturbed hne
  idle_stable h hr := hr.not_owned h
  crash_idle := crash_releases
  code_ok p c s hchain hidle := by
    cases c with
    | load => exact load_callPost self hchain hidle
    | mutate m => exact mutate_callPost self m hidle

end LocalTransfer
