import LocalTransfer.TrustedPeers.StoreLogic

/-!
# Single steps of the store on the filesystem

What each operation of the store's programs does to the filesystem, sorted into the
kinds of `StoreLogic`: the quiet ones keep the store file, its durable content and
the lock (`Fs.quiet_op`).
-/

namespace LocalTransfer

open Lib TrustedPeers

variable {Pid : Type}

namespace Fs

/-- The lock path is free or holds a regular file. -/
def LockUsable (s : Fs Pid) : Prop :=
  s.node .trustedPeersLock = .missing ∨ ∃ contents, s.node .trustedPeersLock = .regular contents

/-- A call may fail here: steps may fail, or the lock path is not a lock file. -/
def Excused (faults : Prop) (s : Fs Pid) : Prop := faults ∨ ¬ s.LockUsable

/-- The store file and its durable content are as they were. -/
structure Carried (s s' : Fs Pid) : Prop where
  store : s'.node .trustedPeers = s.node .trustedPeers
  durable : s'.durable = s.durable
  usable : s'.LockUsable ↔ s.LockUsable

theorem Carried.refl (s : Fs Pid) : Carried s s := ⟨rfl, rfl, Iff.rfl⟩

theorem Carried.trans {s₁ s₂ s₃ : Fs Pid} (h : Carried s₁ s₂) (h' : Carried s₂ s₃) :
    Carried s₁ s₃ :=
  ⟨h'.store.trans h.store, h'.durable.trans h.durable, h'.usable.trans h.usable⟩

theorem Carried.excused {faults : Prop} {s s' : Fs Pid} (h : Carried s s')
    (he : s.Excused faults) : s'.Excused faults :=
  he.imp_right fun hu hu' => hu (h.usable.mp hu')

/-- And so is the lock. -/
structure Quiet (s s' : Fs Pid) : Prop extends Carried s s' where
  owner : s'.lockOwner = s.lockOwner

theorem Quiet.refl (s : Fs Pid) : Quiet s s := ⟨Carried.refl s, rfl⟩

theorem Quiet.trans {s₁ s₂ s₃ : Fs Pid} (h : Quiet s₁ s₂) (h' : Quiet s₂ s₃) : Quiet s₁ s₃ :=
  ⟨h.toCarried.trans h'.toCarried, h'.owner.trans h.owner⟩

/-- A successful step does what it does; a failed one changes nothing. -/
theorem settle_spec {α : Type} {faults : Prop} {a : Answer} {s s' s'' : Fs Pid} {r : α}
    {x : Except IoError α} (ha : faults ∨ a.Faultless) (h : settle a s r s' = (x, s'')) :
    (x = .ok r ∧ s'' = s') ∨ ∃ e, x = .error e ∧ Quiet s s'' ∧ faults := by
  rcases settle_cases h with h | ⟨e, he, rfl, hfault⟩
  · exact .inl h
  · exact .inr ⟨e, he, Quiet.refl _, ha.resolve_right hfault⟩

theorem settle_quiet {α : Type} {faults : Prop} {a : Answer} {s s' s'' : Fs Pid} {r : α}
    {x : Except IoError α} (ha : faults ∨ a.Faultless) (h : settle a s r s' = (x, s''))
    (hq : Quiet s s') : Quiet s s'' ∧ FsOp.Settled faults x r := by
  rcases settle_spec ha h with ⟨rfl, rfl⟩ | ⟨e, rfl, hkept, hfaults⟩
  · exact ⟨hq, .inl rfl⟩
  · exact ⟨hkept, .inr ⟨hfaults, e, rfl⟩⟩

/-- Creating the lock file touches nothing else. -/
theorem Quiet.createLock {s : Fs Pid} (h : s.node .trustedPeersLock = .missing) :
    Quiet s (s.setNode .trustedPeersLock (.regular [])) := by
  refine ⟨⟨by simp [Function.update], rfl, ?_⟩, rfl⟩
  simp [LockUsable, h]

variable [DecidableEq Pid]

/-- **Quiet operations are quiet**, and report the files they ran on. -/
theorem quiet_op {faults : Prop} {p : Pid} {o : FsOp} {a : Answer} {s s' : Fs Pid}
    {r : o.Result} (ho : o.Quiet) (ha : faults ∨ a.Faultless) (h : step p o a s = (r, s')) :
    Quiet s s' ∧ o.Reports s.node faults r := by
  cases o with
  | tryLock | unlock | persist | persistNoclobber | syncParent => exact ho.elim
  | parentMetadata =>
      obtain ⟨hq, hr⟩ := settle_quiet ha h (Quiet.refl s)
      exact ⟨hq, _, hr⟩
  | openCreate f =>
      cases (show f = .trustedPeersLock from ho)
      simp only [step] at h
      cases hnode : s.node .trustedPeersLock with
      | missing =>
          rw [hnode] at h
          have := settle_quiet ha h (Quiet.createLock hnode)
          simpa [FsOp.Reports, hnode, Node.kind] using this
      | regular _ | symlink | other =>
          rw [hnode] at h
          have := settle_quiet ha h (Quiet.refl s)
          simpa [FsOp.Reports, hnode, Node.kind] using this
  | symlinkMetadata | createDirAll | setPermissions | openRead | openMetadata | readToEnd
  | createTemporary | writeTemporary | syncTemporary | syncFile | openParent =>
      exact settle_quiet ha h (Quiet.refl s)

/-! ## The other operations -/

theorem tryLock_spec {faults : Prop} {p : Pid} {a : Answer} {s s' : Fs Pid}
    {r : Except IoError Bool} (ha : faults ∨ a.Faultless) (h : step p .tryLock a s = (r, s')) :
    (r = .ok true ∧ s.lockOwner = none ∧ s' = { s with lockOwner := some p }) ∨
      (r = .ok false ∧ s.lockOwner ≠ none ∧ s' = s) ∨
      ∃ e, r = .error e ∧ Quiet s s' ∧ faults := by
  simp only [step] at h
  cases howner : s.lockOwner with
  | none =>
      rw [howner] at h
      rcases settle_spec ha h with ⟨rfl, rfl⟩ | herr
      · exact .inl ⟨rfl, rfl, rfl⟩
      · exact .inr (.inr herr)
  | some q =>
      rw [howner] at h
      rcases settle_spec ha h with ⟨rfl, rfl⟩ | herr
      · exact .inr (.inl ⟨rfl, by simp, rfl⟩)
      · exact .inr (.inr herr)

end Fs

end LocalTransfer
