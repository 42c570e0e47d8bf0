import LocalTransfer.TrustedPeers.Steps

/-!
# The store used by one process at a time

`StoreLogic` read over the bare filesystem, with nobody else around. `call_effect`
says what one mutating call does to the visible and the durable store file under
every placement of faults, `load_faultless` what a load
returns.
-/

namespace LocalTransfer

open Lib TrustedPeers

variable {Pid : Type}

/-! ## One call -/

/-- What a mutating call does to the store when nobody holds the lock. -/
inductive Effect (faults : Prop) (m : Mutation) (s : Fs Pid) :
    Except TrustedPeerStoreError Reply → Fs Pid → Prop
  /-- It fails and changes nothing. -/
  | kept {e s'} : s.Carried s' →
      (loadNode (s.node .trustedPeers) = .error e ∨
        (∃ S T, loadNode (s.node .trustedPeers) = .ok S ∧ m.next S = some T ∧
          Rejects T.records e) ∨ s'.Excused faults) →
      Effect faults m s (.error e) s'
  /-- There is nothing to remove. -/
  | absent {S s'} : s.Carried s' → loadNode (s.node .trustedPeers) = .ok S → m.next S = none →
      Effect faults m s (.ok (.removal .alreadyAbsent)) s'
  /-- It fails after the rename. -/
  | unsynced {S T e s'} : loadNode (s.node .trustedPeers) = .ok S → m.next S = some T →
      s'.node .trustedPeers = .regular (encode T.records) → s'.durable = s.durable →
      SyncError e → s'.Excused faults → Effect faults m s (.error e) s'
  /-- It succeeds, and what it wrote is durable. -/
  | synced {S T s'} : loadNode (s.node .trustedPeers) = .ok S → m.next S = some T →
      Accepted T.records → s'.node .trustedPeers = .regular (encode T.records) →
      s'.durable .trustedPeers = .regular (encode T.records) → Effect faults m s (.ok m.reply) s'

/-- Calls can be surrounded by steps that carry the store along. -/
theorem Effect.frame {faults : Prop} {m : Mutation} {s₀ s s' s'' : Fs Pid}
    {r : Except TrustedPeerStoreError Reply} (h : Effect faults m s r s') (hbefore : s₀.Carried s)
    (hafter : s'.Carried s'') : Effect faults m s₀ r s'' := by
  have hstore := hbefore.store
  cases h with
  | kept h herr =>
      rw [hstore] at herr
      exact .kept ((hbefore.trans h).trans hafter)
        (herr.imp_right fun h => h.imp_right hafter.excused)
  | absent h hload hnext => exact .absent ((hbefore.trans h).trans hafter) (hstore ▸ hload) hnext
  | unsynced hload hnext hnode hdur herr hexc =>
      exact .unsynced (hstore ▸ hload) hnext (hafter.store.trans hnode)
        (hafter.durable.trans (hdur.trans hbefore.durable)) herr (hafter.excused hexc)
  | synced hload hnext hacc hnode hdur =>
      exact .synced (hstore ▸ hload) hnext hacc (hafter.store.trans hnode)
        ((congrFun hafter.durable _).trans hdur)

/-- The store between calls: no lock held and a usable lock path. -/
structure AtRest (s : Fs Pid) : Prop where
  idle : s.lockOwner = none
  usable : s.LockUsable

/-- A filesystem without any file. -/
def Fs.fresh : Fs Pid := ⟨fun _ => .missing, fun _ => .missing, none⟩

/-- An environment in which nothing fails. -/
def calm : Nat → Answer := fun _ => ⟨none, none⟩

/-- An environment in which one step fails. -/
def failingAt (step : Nat) : Nat → Answer := fun n => ⟨if n = step then some ⟨5⟩ else none, none⟩

theorem atRest_fresh : AtRest (Fs.fresh : Fs Pid) := ⟨rfl, .inl rfl⟩

theorem calm_faultless : ∀ n, (calm n).Faultless := fun _ => rfl

theorem AtRest.not_excused {s : Fs Pid} (hs : AtRest s) : ¬ s.Excused False := by
  rintro (h | h)
  · exact h
  · exact h hs.usable

/-! ## The sequential reading -/

variable [DecidableEq Pid]

/-- The logic of process `p` running alone, with or without failing steps. -/
abbrev alone (faults : Prop) (p : Pid) : Logic (Fs Pid) FsOp FsOp.Result :=
  Logic.alone (Fs.step p) fun a => faults ∨ a.Faultless

/-- The store's operations, read over the filesystem itself. -/
def sequential (faults : Prop) (p : Pid) : StoreLogic (alone faults p) where
  node := Fs.node
  quiet := Fs.Quiet
  acquired s s' := s.lockOwner = none ∧ s' = { s with lockOwner := some p }
  committed contents s s' := s' = s.setNode .trustedPeers (.regular contents)
  flushed s s' := s' = { s with durable := s.node }
  released s s' := s' = if s.lockOwner = some p then { s with lockOwner := none } else s
  permitted _ _ := True
  contended s := s.lockOwner ≠ none
  excused := Fs.Excused faults
  quiet_refl := Fs.Quiet.refl
  quiet_trans := Fs.Quiet.trans
  rely_quiet := by
    rintro s s' rfl
    exact Fs.Quiet.refl s
  excused_mono h := h.excused
  store_symlink h hsym := by rw [← h.store, hsym]
  quiet_op := by
    rintro s o r s' ho ⟨a, ha, h⟩
    obtain ⟨hq, hrep⟩ := Fs.quiet_op ho ha h
    exact ⟨trivial, hq, hrep.mono .inl⟩
  try_lock := by
    rintro s r s' ⟨a, ha, h⟩
    refine ⟨trivial, ?_⟩
    rcases Fs.tryLock_spec ha h with h | ⟨hr, howner, rfl⟩ | ⟨e, hr, hq, hfaults⟩
    · exact .inl h
    · exact .inr (.inl ⟨hr, howner, Fs.Quiet.refl _⟩)
    · exact .inr (.inr ⟨e, hr, hq, .inl hfaults⟩)
  unlock := by
    rintro s r s' ⟨a, -, h⟩
    cases h
    exact ⟨trivial, rfl⟩
  persist := by
    rintro s contents r s' - ⟨a, ha, h⟩
    refine ⟨trivial, (Fs.settle_spec ha h).imp_right ?_⟩
    rintro ⟨e, hr, hq, hfaults⟩
    exact ⟨e, hr, hq, .inl hfaults⟩
  sync_parent := by
    rintro s r s' ⟨a, ha, h⟩
    refine ⟨trivial, (Fs.settle_spec ha h).imp_right ?_⟩
    rintro ⟨e, hr, hq, hfaults⟩
    exact ⟨e, hr, hq, .inl hfaults⟩

theorem lockUsable_sequential (faults : Prop) (p : Pid) : (sequential faults p).LockUsable := by
  intro s
  by_cases h : s.LockUsable
  · exact .inr h
  · exact .inl (.inr h)

section Effect

variable {faults : Prop} {p : Pid} {m : Mutation} {s s' : Fs Pid}
  {r : Except TrustedPeerStoreError Reply}

theorem carried_acquired (h : (sequential faults p).acquired s s') :
    s.Carried s' ∧ s'.lockOwner = some p := by
  obtain ⟨-, rfl⟩ := h
  exact ⟨⟨rfl, rfl, Iff.rfl⟩, rfl⟩

theorem carried_released (h : (sequential faults p).released s s') (howner : s.lockOwner = some p) :
    s.Carried s' ∧ s'.lockOwner = none := by
  simp only [sequential, howner, if_true] at h
  subst h
  exact ⟨⟨rfl, rfl, Iff.rfl⟩, rfl⟩

/-- The body of a transaction, from taking the lock to releasing it. -/
theorem transacted_effect (h : (sequential faults p).Transacted m s r s') :
    Effect faults m s r s' ∧ (s'.LockUsable ↔ s.LockUsable) ∧ s'.lockOwner = s.lockOwner := by
  -- quiet steps leave the store file alone, so what was read is what the call started with
  have hread : ∀ {s₁ : Fs Pid} {x : Except TrustedPeerStoreError TrustedPeers}, s.Quiet s₁ →
      loadNode (s₁.node .trustedPeers) = x → loadNode (s.node .trustedPeers) = x := by
    rintro s₁ x h₁ rfl
    rw [h₁.store]
  have hset : ∀ {s₁ : Fs Pid} {n : Node},
      (s₁.setNode .trustedPeers n).LockUsable ↔ s₁.LockUsable := by
    simp [Fs.LockUsable]
  cases h with
  | unread h₁ h₂ herr =>
      have hq := h₁.trans h₂
      exact ⟨.kept hq.toCarried (herr.elim (fun h => .inl (hread h₁ h)) fun h => .inr (.inr h)),
        hq.usable, hq.owner⟩
  | absent h₁ hload hnext h₂ =>
      have hq := h₁.trans h₂
      exact ⟨.absent hq.toCarried (hread h₁ hload) hnext, hq.usable, hq.owner⟩
  | @wrote S T s₁ s₂ r _ h₁ hload hnext h₂ hwrite =>
      have hq := h₁.trans h₂
      have hload := hread h₁ hload
      cases hwrite with
      | rejected h₃ herr =>
          have hq' := hq.trans h₃
          refine ⟨.kept hq'.toCarried (.inr ?_), hq'.usable, hq'.owner⟩
          exact herr.imp_left fun h => ⟨S, T, hload, hnext, h⟩
      | unsynced hacc h₃ hcommit h₄ herr hexc =>
          cases hcommit
          have hq' := hq.trans h₃
          refine ⟨.unsynced hload hnext ?_ ?_ herr hexc, ?_, ?_⟩
          · simp [h₄.store]
          · exact h₄.durable.trans hq'.durable
          · exact h₄.usable.trans (hset.trans hq'.usable)
          · exact h₄.owner.trans hq'.owner
      | synced hacc h₃ hcommit h₄ hflush h₅ =>
          cases hcommit
          cases hflush
          have hq' := hq.trans h₃
          have hnode := h₄.store
          simp only [Fs.setNode_node, Function.update_self] at hnode
          refine ⟨.synced hload hnext hacc ?_ ?_, ?_, ?_⟩
          · exact h₅.store.trans hnode
          · exact (congrFun h₅.durable _).trans hnode
          · exact h₅.usable.trans (h₄.usable.trans (hset.trans hq'.usable))
          · exact h₅.owner.trans (h₄.owner.trans hq'.owner)

theorem mutated_effect (hidle : s.lockOwner = none) (h : (sequential faults p).Mutated m s r s') :
    Effect faults m s r s' ∧ (s'.LockUsable ↔ s.LockUsable) ∧ s'.lockOwner = none := by
  cases h with
  | failed h hexc =>
      exact ⟨.kept h.toCarried (.inr (.inr hexc)), h.usable,
        h.owner.trans hidle⟩
  | busy h₁ hcont h₂ => exact absurd (h₁.owner.trans hidle) hcont
  | ran h₁ h₂ h₃ hrun h₅ h₆ h₇ =>
      obtain ⟨hacq, howner⟩ := carried_acquired h₂
      obtain ⟨heffect, hkept, howner'⟩ := transacted_effect hrun
      obtain ⟨hrel, hfree⟩ :=
        carried_released h₆ (h₅.owner.trans (howner'.trans (h₃.owner.trans howner)))
      have hbefore := h₁.toCarried.trans (hacq.trans h₃.toCarried)
      have hafter := h₅.toCarried.trans (hrel.trans h₇.toCarried)
      exact ⟨heffect.frame hbefore hafter,
        hafter.usable.trans (hkept.trans hbefore.usable),
        h₇.owner.trans hfree⟩

end Effect

/-! ## Runs of one call -/

/-- A mutating call of process `p`, run to its end. -/
def Mutation.run (self : TrustedPeerStore) (p : Pid) (m : Mutation) (oracle : Nat → Answer)
    (s : Fs Pid) : Except TrustedPeerStoreError Reply × Fs Pid :=
  (m.code self).run.exec (Fs.step p) oracle s

/-- A load of process `p`, run to its end. -/
def loadRun (self : TrustedPeerStore) (p : Pid) (oracle : Nat → Answer) (s : Fs Pid) :
    Except TrustedPeerStoreError TrustedPeers × Fs Pid :=
  (TrustedPeerStore.load self).run.exec (Fs.step p) oracle s

/-- **What one mutating call does**, under every placement of faults. -/
theorem call_effect {faults : Prop} (self : TrustedPeerStore) (p : Pid) (m : Mutation)
    {oracle : Nat → Answer} {s : Fs Pid} (hidle : s.lockOwner = none)
    (horacle : ∀ n, faults ∨ (oracle n).Faultless) :
    Effect faults m s (m.run self p oracle s).1 (m.run self p oracle s).2 ∧
      ((m.run self p oracle s).2.LockUsable ↔ s.LockUsable) ∧
      (m.run self p oracle s).2.lockOwner = none :=
  mutated_effect hidle (exec_of_wp ((sequential faults p).mutation_spec
    (lockUsable_sequential _ _) self m fun _ _ _ _ _ _ => trivial) horacle)

section Success

variable {self : TrustedPeerStore} {p : Pid} {m : Mutation} {oracle : Nat → Answer} {s : Fs Pid}
  {reply : Reply}

/-- A call that succeeds, whatever failed on its way, has read a set and either had nothing
to write or has replaced the file, durably. -/
theorem ok_effect (hidle : s.lockOwner = none) (hrun : (m.run self p oracle s).1 = .ok reply) :
    ∃ S, loadNode (s.node .trustedPeers) = .ok S ∧
      ((m.next S = none ∧ reply = .removal .alreadyAbsent ∧
          s.Carried (m.run self p oracle s).2) ∨
        ∃ T, m.next S = some T ∧ reply = m.reply ∧ Accepted T.records ∧
          (m.run self p oracle s).2.node .trustedPeers = .regular (encode T.records) ∧
          (m.run self p oracle s).2.durable .trustedPeers = .regular (encode T.records)) := by
  have hfaults : ∀ n, True ∨ (oracle n).Faultless := fun _ => .inl trivial
  obtain ⟨heffect, -, -⟩ := call_effect self p m hidle hfaults
  rw [hrun] at heffect
  generalize (m.run self p oracle s).2 = s' at heffect ⊢
  generalize hr : (Except.ok reply : Except TrustedPeerStoreError Reply) = r at heffect
  cases heffect with
  | kept | unsynced => cases hr
  | absent hcarried hload hnext =>
      cases hr
      exact ⟨_, hload, .inl ⟨hnext, rfl, hcarried⟩⟩
  | synced hload hnext hacc hnode hdurable =>
      cases hr
      exact ⟨_, hload, .inr ⟨_, hnext, rfl, hacc, hnode, hdurable⟩⟩

end Success

/-! ## Calls without faults -/

variable {self : TrustedPeerStore} {p : Pid} {m : Mutation} {oracle : Nat → Answer} {s : Fs Pid}

/-- Without faults the store is at rest again after a call. -/
theorem run_atRest (hs : AtRest s) (horacle : ∀ n, (oracle n).Faultless) :
    AtRest (m.run self p oracle s).2 := by
  have hfaults : ∀ n, False ∨ (oracle n).Faultless := fun n => .inr (horacle n)
  obtain ⟨-, husable, hidle⟩ := call_effect self p m hs.idle hfaults
  exact ⟨hidle, husable.mpr hs.usable⟩

/-- **A load without faults** returns the set the store file holds, or why it holds none. -/
theorem load_faultless (hs : AtRest s) (horacle : ∀ n, (oracle n).Faultless) :
    (loadRun self p oracle s).1 = loadNode (s.node .trustedPeers) := by
  have hfaults : ∀ n, False ∨ (oracle n).Faultless := fun n => .inr (horacle n)
  rcases exec_of_wp ((sequential False p).load_spec self s) hfaults with
    ⟨s₁, h₁, -, hr⟩ | ⟨hq, hexc, -⟩
  · exact hr.trans (congrArg loadNode h₁.store)
  · exact absurd hexc (AtRest.not_excused ⟨hq.owner.trans hs.idle, hq.usable.mpr hs.usable⟩)

end LocalTransfer
