import LocalTransfer.Persistence.Strict
import LocalTransfer.TrustedPeers.Revocation

/-!
# All or nothing

One mutating call under every placement of failing steps. The programs of the store are
strict: they issue a few operations only and do not succeed once one of them has failed.
With what a call does to the store file (`call_effect`) this gives the whole contract of
a failed call: the old or the new contents, the old ones up to the rename, the lock
released, and a retry that works.
-/

namespace LocalTransfer

open Lib TrustedPeers TrustedPeerStore

variable {Pid : Type}

/-! ## Strictness -/

namespace FsOp

/-- A rename over the store that went through. -/
def Renamed : (o : FsOp) → o.Result → Prop
  | .persist _ _, r => r = .ok ()
  | _, _ => False

/-- The operations a transaction issues. -/
def InTransaction : FsOp → Prop
  | .persist f _ => f = .trustedPeers
  | .tryLock | .unlock | .syncParent => True
  | o => o.Quiet

theorem InTransaction.of_inert {o : FsOp} (h : o.Inert) : o.InTransaction := by
  cases o with
  | openRead | openCreate | tryLock | unlock | persist | persistNoclobber | syncParent =>
      exact h.elim
  | symlinkMetadata | parentMetadata | createDirAll | setPermissions | openMetadata | readToEnd
  | createTemporary | writeTemporary | syncTemporary | syncFile | openParent => trivial

end FsOp

/-- The program does not succeed once one of its steps has failed; it may fail for its own
reasons too. -/
abbrev StrictProg {α : Type} (x : StoreProg α) : Prop :=
  Strict FsOp.InTransaction FsOp.Failed (fun _ => True) x

section Strict

variable {α β : Type}

theorem StrictProg.bind {x : StoreProg α} {f : α → StoreProg β} (hx : StrictProg x)
    (hf : ∀ a, StrictProg (f a)) : StrictProg (x >>= f) :=
  Strict.bind hx (fun a _ => hf a) fun _ _ => trivial

theorem StrictProg.call {o : FsOp} {f : o.Result → StoreProg α} (ho : o.InTransaction)
    (hfailed : ∀ r, o.Failed r → Aborts FsOp.InTransaction (f r)) (hf : ∀ r, StrictProg (f r)) :
    StrictProg (Lib.call o >>= f) :=
  Strict.call ho hfailed fun r _ => hf r

theorem strict_persistence {x : FsProg PersistenceError α} {Q : Except PersistenceError α → Prop}
    (hx : Strict FsOp.Inert FsOp.Failed Q x) : StrictProg (ExceptT.adapt persistenceError x) :=
  (hx.mono (fun _ => FsOp.InTransaction.of_inert) fun _ h => h).adapt _ fun _ _ => trivial

theorem strict_syncParentDirectory (f : IoError → TrustedPeerStoreError) :
    StrictProg (ExceptT.adapt f syncParentDirectory) := by
  refine Strict.adapt (Q := fun _ => True) ?_ f fun _ _ => trivial
  unfold syncParentDirectory
  refine strict_step (o := .openParent) trivial id (fun _ => Iff.rfl) fun _ _ _ => ?_
  exact strict_last (o := .syncParent) trivial id (fun _ => Iff.rfl) fun _ _ _ => trivial

theorem strict_readStoreBytes : StrictProg readStoreBytes := by
  unfold readStoreBytes
  apply StrictProg.call (o := .symlinkMetadata _) trivial
  · intro r ⟨e, hr⟩
    cases hr
    exact Aborts.throw _
  intro r
  match r with
  | .error source => exact Strict.throw trivial
  | .ok none => exact Strict.pure trivial
  | .ok (some .symlink) | .ok (some .other) => exact Strict.throw trivial
  | .ok (some .regular) =>
      apply StrictProg.call (o := .openRead _) trivial
      · intro r ⟨e, hr⟩
        cases hr
        exact Aborts.throw _
      intro r
      match r with
      | .error source => exact Strict.throw trivial
      | .ok .missing => exact Strict.pure trivial
      | .ok .symlink | .ok .other =>
          refine strict_step (o := .openMetadata _) trivial id (fun _ => Iff.rfl) fun _ _ _ => ?_
          exact Strict.throw trivial
      | .ok (.regular contents) =>
          refine strict_step (o := .openMetadata _) trivial id (fun _ => Iff.rfl) fun _ _ _ => ?_
          split
          · exact Strict.throw trivial
          · refine strict_step (o := .readToEnd _) trivial id (fun _ => Iff.rfl) fun _ _ _ => ?_
            dsimp only
            split
            · exact Strict.throw trivial
            · exact Strict.pure trivial

theorem strict_load (self : TrustedPeerStore) : StrictProg (load self) := by
  unfold load
  split
  · apply (strict_persistence strict_hardenExistingParent).bind
    intro _
    apply (strict_persistence (strict_hardenExistingFile _)).bind
    intro _
    apply strict_readStoreBytes.bind
    intro bytes
    cases bytes with
    | none => exact Strict.pure trivial
    | some bytes => exact trivial
  · apply strict_readStoreBytes.bind
    intro bytes
    cases bytes with
    | none => exact Strict.pure trivial
    | some bytes => exact trivial

theorem strict_openLockFile (self : TrustedPeerStore) : StrictProg (openLockFile self) := by
  have hcreate : FsOp.InTransaction (.openCreate .trustedPeersLock) := rfl
  have hopen : StrictProg (do
      ExceptT.adapt persistenceError (ensureHardenedParent self.hardenExistingParent)
      let kind ← orElseFail (← call (.openCreate .trustedPeersLock))
        (lockIoError "open the trusted-peer lock")
      orElseFail (← call (.openMetadata .trustedPeersLock))
        (lockIoError "inspect the trusted-peer lock")
      if kind ≠ .regular then throw (.notRegularFile lockPath)
      else ExceptT.adapt persistenceError (hardenExistingFile .trustedPeersLock) :
        StoreProg Unit) := by
    apply (strict_persistence (strict_prepareParent _)).bind
    intro _
    refine strict_step (o := .openCreate _) hcreate id (fun _ => Iff.rfl) fun _ kind _ => ?_
    refine strict_step (o := .openMetadata _) trivial id (fun _ => Iff.rfl) fun _ _ _ => ?_
    split
    · exact Strict.throw trivial
    · exact strict_persistence (strict_hardenExistingFile _)
  unfold openLockFile
  apply StrictProg.call (o := .symlinkMetadata _) trivial
  · intro r ⟨e, hr⟩
    cases hr
    exact Aborts.throw _
  intro r
  match r with
  | .error source => exact Strict.throw trivial
  | .ok (some .symlink) | .ok (some .other) => exact Strict.throw trivial
  | .ok none | .ok (some .regular) => exact hopen

theorem strict_lockExclusive (self : TrustedPeerStore) : StrictProg (lockExclusive self) := by
  unfold lockExclusive
  apply (strict_openLockFile self).bind
  intro _
  apply StrictProg.call (o := .tryLock) trivial
  · intro r hfailed
    match r with
    | .ok true => exact absurd rfl hfailed
    | .ok false | .error source => exact Aborts.throw _
  · intro r
    match r with
    | .ok true => exact Strict.pure trivial
    | .ok false | .error source => exact Strict.throw trivial

theorem strict_writeAll (self : TrustedPeerStore) (records : List TrustedPeerRecord) :
    StrictProg (writeAll self records) := by
  unfold writeAll
  split
  · exact Strict.throw trivial
  · dsimp only
    split
    · exact Strict.throw trivial
    · apply (strict_persistence (strict_createSyncedTemporary _ _)).bind
      intro temporary
      have hpersist : FsOp.InTransaction (.persist .trustedPeers temporary.contents) := rfl
      refine strict_step (o := .persist _ _) hpersist id (fun _ => Iff.rfl) fun _ _ _ => ?_
      refine strict_step (o := .syncFile _) trivial id (fun _ => Iff.rfl) fun _ _ _ => ?_
      exact strict_syncParentDirectory _

theorem strict_releasing {body : StoreProg α} (hbody : StrictProg body) :
    StrictProg (releasing body) :=
  hbody.releasing trivial fun _ h => h

/-- A mutating call succeeds only if every step did. -/
theorem strict_code (self : TrustedPeerStore) (m : Mutation) : StrictProg (m.code self) := by
  cases m with
  | store record =>
      refine StrictProg.bind ((strict_lockExclusive self).bind fun _ => strict_releasing ?_)
        fun _ => Strict.pure trivial
      exact (strict_load self).bind fun current => strict_writeAll self _
  | remove identity =>
      refine StrictProg.bind ((strict_lockExclusive self).bind fun _ => strict_releasing ?_)
        fun _ => Strict.pure trivial
      apply (strict_load self).bind
      intro current
      split
      · exact Strict.pure trivial
      · exact (strict_writeAll self _).bind fun _ => Strict.pure trivial

end Strict

/-! ## The record-count check -/

/-- The error of the record-count check. -/
def FullError (e : TrustedPeerStoreError) : Prop :=
  ∃ count maximum, e = .capacityExceeded count maximum

theorem raises_orElseFail {ε α : Type} {P : ε → Prop} {f : IoError → ε} (r : Except IoError α)
    (h : ∀ e, P (f e)) : Raises P (orElseFail r f : FsProg ε α) := by
  cases r with
  | error e => exact Raises.throw (h e)
  | ok a => exact Raises.pure a

/-- A write reports a full store only from its count check. -/
theorem raises_writeAll (self : TrustedPeerStore) {records : List TrustedPeerRecord}
    (h : records.length ≤ maxTrustedPeers) :
    Raises (fun e => ¬ FullError e) (writeAll self records) := by
  have hio : ∀ operation path source, ¬ FullError (.io operation path source) := by
    intro operation path source ⟨count, maximum, he⟩
    cases he
  unfold writeAll
  rw [if_neg (by omega)]
  dsimp only
  split
  · refine Raises.throw fun ⟨count, maximum, he⟩ => ?_
    cases he
  · refine Raises.bind (Raises.adapt _ fun e => hio _ _ _) fun temporary => ?_
    refine Raises.call fun r => Raises.bind (raises_orElseFail r fun e => hio _ _ e) fun _ => ?_
    refine Raises.call fun r => Raises.bind (raises_orElseFail r fun e => hio _ _ e) fun _ => ?_
    exact Raises.adapt _ fun e => hio _ _ e

variable [DecidableEq Pid]

/-- A write reports a full store exactly when it is given too many records. -/
theorem writeAll_full_iff (self : TrustedPeerStore) (p : Pid) (records : List TrustedPeerRecord)
    (oracle : Nat → Answer) (s : Fs Pid) :
    (∃ e, ((writeAll self records).run.exec (Fs.step p) oracle s).1 = .error e ∧ FullError e) ↔
      records.length > maxTrustedPeers := by
  constructor
  · intro ⟨e, he, hfull⟩
    by_contra hcount
    have hraises := raises_writeAll self (Nat.le_of_not_lt hcount)
    exact (hraises.exec (Fs.step p) oracle s) e he hfull
  · intro hcount
    refine ⟨.capacityExceeded records.length maxTrustedPeers, ?_, _, _, rfl⟩
    unfold writeAll
    rw [if_pos hcount]
    rfl

/-- The steps of a store before its record-count check. -/
def opening (self : TrustedPeerStore) : StoreProg TrustedPeers := do
  lockExclusive self
  load self

theorem strict_opening (self : TrustedPeerStore) : StrictProg (opening self) :=
  (strict_lockExclusive self).bind fun _ => strict_load self

variable {self : TrustedPeerStore} {p : Pid} {oracle : Nat → Answer} {s : Fs Pid}

/-- From there on, a store is the write of the set with the record. -/
theorem store_of_opening {S : TrustedPeers} (record : TrustedPeerRecord)
    (h : ((opening self).run.exec (Fs.step p) oracle s).1 = .ok S) :
    ∃ oracle' s', ((Mutation.store record).run self p oracle s).1 =
      ((writeAll self (S.stored record)).run.exec (Fs.step p) oracle' s').1.map
        fun _ => .stored := by
  obtain ⟨⟨⟩, hlock⟩ := Prog.ok_of_exec_try h
  have hload := congrArg Prod.fst (Prog.exec_try (f := fun _ => load self) hlock)
  rw [← opening, h] at hload
  have hbody := Prog.exec_try (f := fun current => writeAll self (current.stored record))
    hload.symm
  have hstore := Prog.exec_try
    (f := fun _ => releasing (load self >>= fun current => writeAll self (current.stored record)))
    hlock
  have hrun : ((Mutation.store record).run self p oracle s).1 =
      ((store self record).run.exec (Fs.step p) oracle s).1.map fun _ => .stored :=
    Prog.exec_map _ _ _ _
  rw [hrun, store, hstore, releasing]
  exact ⟨_, _, congrArg _ ((Prog.exec_releasing _ _ _ _).trans (congrArg Prod.fst hbody))⟩

/-- A step that did not fail would have done the same in an environment without faults. -/
theorem step_calm (o : FsOp) (a : Answer) (s : Fs Pid) (h : ¬ o.Failed (Fs.step p o a s).1) :
    Fs.step p o { a with error := none } s = Fs.step p o a s := by
  obtain ⟨error, parent⟩ := a
  cases error with
  | none => rfl
  | some e =>
      cases o with
      | unlock => rfl
      | openCreate f =>
          refine absurd ⟨e, ?_⟩ h
          simp only [Fs.step]
          split <;> rfl
      | persistNoclobber f contents =>
          refine absurd ⟨e, ?_⟩ h
          simp only [Fs.step]
          split <;> rfl
      | tryLock =>
          refine absurd (fun hr => ?_) h
          simp only [Fs.step] at hr
          split at hr <;> cases hr
      | _ => exact absurd ⟨e, rfl⟩ h

/-- Without faults, the count check sees the set the file holds. -/
theorem opening_of_faultless {S : TrustedPeers} (hs : AtRest s)
    (hload : loadNode (s.node .trustedPeers) = .ok S) (horacle : ∀ n, (oracle n).Faultless) :
    ((opening self).run.exec (Fs.step p) oracle s).1 = .ok S := by
  have hwp : wp (alone False p) (opening self).run (fun r _ => r = .ok S) s := by
    have hlock := (sequential False p).lockExclusive_spec (lockUsable_sequential _ _) self s
    refine wp_bind (wp_mono hlock ?_)
    intro r s' hlocked
    cases hlocked with
    | @taken s₁ s₂ _ h₁ h₂ h₃ =>
        obtain ⟨hcarried, -⟩ := carried_acquired h₂
        have hbefore := (h₁.toCarried.trans hcarried).trans h₃.toCarried
        refine wp_mono ((sequential False p).load_spec self s') ?_
        rintro r s₄ (⟨s₅, h₅, -, rfl⟩ | ⟨h₄, hexc, -⟩)
        · rw [← hload, ← hbefore.store, ← h₅.store]
          rfl
        · refine absurd hexc fun hexc => ?_
          exact hexc.elim id fun hu => hu ((h₄.usable.trans hbefore.usable).mpr hs.usable)
    | busy h₁ hcont h₂ => exact absurd (h₁.owner.trans hs.idle) hcont
    | failed h₁ hexc =>
        exact absurd hexc (AtRest.not_excused ⟨h₁.owner.trans hs.idle, h₁.usable.mpr hs.usable⟩)
  exact exec_of_wp hwp fun n => .inr (horacle n)

/-- So it does if no step before it failed. -/
theorem opening_of_unfailed {S : TrustedPeers} (hs : AtRest s)
    (hload : loadNode (s.node .trustedPeers) = .ok S)
    (h : ∀ step ∈ (opening self).run.trace (Fs.step p) oracle s, ¬ step.1.Failed step.2) :
    ((opening self).run.exec (Fs.step p) oracle s).1 = .ok S := by
  have hrun : ((opening self).run.exec (Fs.step p)
      (fun n => { oracle n with error := none }) s).1 = .ok S :=
    opening_of_faultless hs hload fun _ => rfl
  rwa [Prog.exec_calm step_calm h] at hrun

/-! ## The store file -/

/-- Only a rename changes the store file. -/
theorem step_of_not_renamed {o : FsOp} {a : Answer} (ho : o.InTransaction)
    (h : ¬ o.Renamed (Fs.step p o a s).1) :
    (Fs.step p o a s).2.node .trustedPeers = s.node .trustedPeers := by
  have ha : True ∨ a.Faultless := .inl trivial
  have hquiet : o.Quiet → (Fs.step p o a s).2.node .trustedPeers = s.node .trustedPeers :=
    fun ho => (Fs.quiet_op ho ha rfl).1.store
  cases o with
  | persist f contents =>
      show (Fs.settle a s () (s.setNode f (.regular contents))).2.node _ = _
      cases herror : a.error with
      | none =>
          refine absurd ?_ h
          show (Fs.settle a s () (s.setNode f (.regular contents))).1 = .ok ()
          simp only [Fs.settle, herror]
      | some e => simp only [Fs.settle, herror]
  | tryLock =>
      rcases Fs.tryLock_spec ha (rfl : Fs.step p .tryLock a s = _) with
        ⟨-, -, hs'⟩ | ⟨-, -, hs'⟩ | ⟨e, -, hq, -⟩
      · rw [show (Fs.step p .tryLock a s).2 = { s with lockOwner := some p } from hs']
      · rw [show (Fs.step p .tryLock a s).2 = s from hs']
      · exact hq.store
  | unlock =>
      show (if s.lockOwner = some p then { s with lockOwner := none } else s).node _ = _
      split <;> rfl
  | syncParent =>
      show (Fs.settle a s () { s with durable := s.node }).2.node _ = _
      cases herror : a.error with
      | none => simp only [Fs.settle, herror]
      | some e => simp only [Fs.settle, herror]
  | persistNoclobber => exact ho.elim
  | symlinkMetadata | parentMetadata | createDirAll | setPermissions | openRead | openCreate
  | openMetadata | readToEnd | createTemporary | writeTemporary | syncTemporary | syncFile
  | openParent => exact hquiet ho

theorem node_of_not_renamed {m : Mutation}
    (h : ∀ step ∈ (m.code self).run.trace (Fs.step p) oracle s, ¬ step.1.Renamed step.2) :
    (m.run self p oracle s).2.node .trustedPeers = s.node .trustedPeers :=
  Prog.exec_keeps (R := fun s s' : Fs Pid => s'.node .trustedPeers = s.node .trustedPeers)
    (fun _ => rfl) (fun _ _ _ h h' => h'.trans h) (fun _ _ _ => step_of_not_renamed)
    (strict_code self m).allOps h

/-- A call that finds the lock held fails and changes nothing. -/
theorem call_held (self : TrustedPeerStore) (p : Pid) (m : Mutation) (oracle : Nat → Answer)
    (hheld : s.lockOwner ≠ none) :
    (∃ e, (m.run self p oracle s).1 = .error e) ∧ s.Quiet (m.run self p oracle s).2 := by
  have hmutated : (sequential True p).Mutated m s (m.run self p oracle s).1
      (m.run self p oracle s).2 :=
    exec_of_wp ((sequential True p).mutation_spec (lockUsable_sequential _ _) self m
      fun _ _ _ _ _ _ => trivial) fun _ => .inl trivial
  generalize m.run self p oracle s = x at hmutated ⊢
  obtain ⟨r, s'⟩ := x
  cases hmutated with
  | failed h _ => exact ⟨⟨_, rfl⟩, h⟩
  | busy h₁ _ h₂ => exact ⟨⟨_, rfl⟩, h₁.trans h₂⟩
  | ran h₁ h₂ =>
      -- the lock was free when it was taken
      have hfree := h₂.1
      rw [h₁.owner] at hfree
      exact absurd hfree hheld

/-- The set a file holds, less some records, is read back from its own file. -/
theorem loadNode_encode_of_subset {n : Node} {S T : TrustedPeers} (hS : loadNode n = .ok S)
    (hsub : T.records ⊆ S.records) : loadNode (.regular (encode T.records)) = .ok T := by
  have hnodup : T.records.Nodup := T.ordered.nodup_keys.of_map _
  exact decode_encode_eq_ok_iff.mpr ⟨rfl, (storable_of_loadNode hS).of_subset hnodup hsub⟩

/-- Whatever comes of a removal, the file still loads; after one that succeeds, without
the identity. -/
theorem loads_after_remove (self : TrustedPeerStore) (p : Pid) (id : PeerKeyIdentity)
    (oracle : Nat → Answer) {S : TrustedPeers} (hidle : s.lockOwner = none)
    (hS : loadNode (s.node .trustedPeers) = .ok S) :
    ∃ S', loadNode (((Mutation.remove id).run self p oracle s).2.node .trustedPeers) = .ok S' ∧
      ∀ reply, ((Mutation.remove id).run self p oracle s).1 = .ok reply →
        S'.contains id = false := by
  have hfaults : ∀ n, True ∨ (oracle n).Faultless := fun _ => .inl trivial
  obtain ⟨heffect, -, -⟩ := call_effect self p (.remove id) hidle hfaults
  have hwithout : ∀ {S' T : TrustedPeers}, loadNode (s.node .trustedPeers) = .ok S' →
      (Mutation.remove id).next S' = some T →
      loadNode (.regular (encode T.records)) = .ok T ∧ T.contains id = false := by
    intro S' T hS' hT
    simp only [Mutation.next] at hT
    split at hT
    · cases hT
      refine ⟨loadNode_encode_of_subset hS' fun r hr => (mem_without.mp hr).1, ?_⟩
      simp [contains_eq_toMap, toMap_without]
    · cases hT
  generalize (Mutation.remove id).run self p oracle s = x at heffect ⊢
  obtain ⟨r, s'⟩ := x
  cases heffect with
  | kept hcarried _ =>
      refine ⟨S, by rw [hcarried.store, hS], fun reply hreply => ?_⟩
      cases hreply
  | @absent S' _ hcarried hload hnext =>
      refine ⟨S', by rw [hcarried.store, hload], fun _ _ => ?_⟩
      by_contra hcontains
      rw [Mutation.next, if_pos (by simpa using hcontains)] at hnext
      cases hnext
  | unsynced hload hnext hnode _ _ _ =>
      refine ⟨_, by rw [hnode]; exact (hwithout hload hnext).1, fun reply hreply => ?_⟩
      cases hreply
  | synced hload hnext _ hnode _ =>
      exact ⟨_, by rw [hnode]; exact (hwithout hload hnext).1, fun _ _ => (hwithout hload hnext).2⟩

/-! ## The contract of one call -/

/-- What holds of one mutating call, wherever its steps fail. -/
structure AllOrNothing (self : TrustedPeerStore) (p : Pid) (m : Mutation)
    (oracle : Nat → Answer) (s : Fs Pid) : Prop where
  /-- The file has its old bytes or the whole encoding of the updated set. -/
  whole : (m.run self p oracle s).2.node .trustedPeers = s.node .trustedPeers ∨
    ∃ S T, loadNode (s.node .trustedPeers) = .ok S ∧ m.next S = some T ∧
      (m.run self p oracle s).2.node .trustedPeers = .regular (encode T.records)
  /-- It has its old bytes unless the rename went through. -/
  unrenamed : (∀ step ∈ (m.code self).run.trace (Fs.step p) oracle s, ¬ step.1.Renamed step.2) →
    (m.run self p oracle s).2.node .trustedPeers = s.node .trustedPeers
  /-- After the rename, only the two syncs can fail. -/
  syncs : ∀ e, (m.run self p oracle s).1 = .error e → ¬ SyncError e →
    (m.run self p oracle s).2.node .trustedPeers = s.node .trustedPeers
  /-- Success means that every step and every check succeeded, and that the file holds what the
  call means for the map; a removal of what is not there leaves it as it is. -/
  success : ∀ reply, (m.run self p oracle s).1 = .ok reply →
    (∀ step ∈ (m.code self).run.trace (Fs.step p) oracle s, ¬ step.1.Failed step.2) ∧
    ∃ S, loadNode (s.node .trustedPeers) = .ok S ∧
      (m.next S = none → reply = .removal .alreadyAbsent ∧ m.update S.toMap = S.toMap ∧
        (m.run self p oracle s).2.node .trustedPeers = s.node .trustedPeers) ∧
      ∀ T, m.next S = some T → reply = m.reply ∧ Accepted T.records ∧
        T.toMap = m.update S.toMap ∧
        (m.run self p oracle s).2.node .trustedPeers = .regular (encode T.records)
  /-- The lock is as it was: free, if it was free. -/
  lock : (m.run self p oracle s).2.lockOwner = s.lockOwner
  /-- A store that gets to its count check reports a full store exactly when it is full. -/
  full : ∀ record S, m = .store record → AtRest s → loadNode (s.node .trustedPeers) = .ok S →
    (∀ step ∈ (opening self).run.trace (Fs.step p) oracle s, ¬ step.1.Failed step.2) →
    ((∃ e, (m.run self p oracle s).1 = .error e ∧ FullError e) ↔
      S.len = maxTrustedPeers ∧ S.contains record.identity = false)
  /-- A removal that failed can be repeated. -/
  retry : ∀ id S, m = .remove id → AtRest s → loadNode (s.node .trustedPeers) = .ok S →
    ∀ oracle', (∀ n, (oracle' n).Faultless) →
      (∃ outcome, (m.run self p oracle' (m.run self p oracle s).2).1 = .ok (.removal outcome)) ∧
      ∃ S', loadNode ((m.run self p oracle' (m.run self p oracle s).2).2.node .trustedPeers) =
        .ok S' ∧ S'.contains id = false

/-- The number of records a store would write. -/
theorem length_stored_gt_iff {S : TrustedPeers} {record : TrustedPeerRecord}
    (hcount : S.records.length ≤ maxTrustedPeers) :
    (S.stored record).length > maxTrustedPeers ↔
      S.len = maxTrustedPeers ∧ S.contains record.identity = false := by
  have hlen : (S.stored record).length = (S.remaining record.identity).length + 1 := by
    simp [stored, remaining]
  have hkeep : (S.remaining record.identity).length ≤ S.records.length :=
    List.length_filter_le _ _
  have habsent : S.contains record.identity = false ↔
      (S.remaining record.identity).length = S.records.length := by
    rw [contains_eq_false_iff, remaining, List.length_filter_eq_length_iff]
    simp
  rw [habsent, hlen]
  show _ ↔ S.records.length = maxTrustedPeers ∧ _
  omega

/-- **A call is all or nothing.** Every store or removal, on any contents of the store
file and under every placement of failing steps, keeps the contract. -/
theorem mutation_all_or_nothing (self : TrustedPeerStore) (p : Pid) (m : Mutation)
    (oracle : Nat → Answer) (s : Fs Pid) : AllOrNothing self p m oracle s := by
  have hfaults : ∀ n, True ∨ (oracle n).Faultless := fun _ => .inl trivial
  have heffect : s.lockOwner = none →
      Effect True m s (m.run self p oracle s).1 (m.run self p oracle s).2 :=
    fun hidle => (call_effect self p m hidle hfaults).1
  -- a held lock refuses the call before it has any effect, so each part asks first if it is
  refine ⟨?_, node_of_not_renamed, ?_, ?_, ?_, ?_, ?_⟩
  · by_cases hidle : s.lockOwner = none
    · have heffect := heffect hidle
      generalize m.run self p oracle s = x at heffect ⊢
      obtain ⟨r, s'⟩ := x
      cases heffect with
      | kept hcarried _ | absent hcarried _ _ => exact .inl hcarried.store
      | unsynced hload hnext hnode _ _ _ | synced hload hnext _ hnode _ =>
          exact .inr ⟨_, _, hload, hnext, hnode⟩
    · exact .inl (call_held self p m oracle hidle).2.store
  · intro e he hsync
    by_cases hidle : s.lockOwner = none
    · have heffect := heffect hidle
      generalize m.run self p oracle s = x at heffect he ⊢
      obtain ⟨r, s'⟩ := x
      cases heffect with
      | kept hcarried _ => exact hcarried.store
      | unsynced _ _ _ _ herr _ =>
          cases he
          exact absurd herr hsync
      | absent | synced => cases he
    · exact (call_held self p m oracle hidle).2.store
  · intro reply hreply
    refine ⟨(strict_code self m).unfailed_of_ok hreply, ?_⟩
    by_cases hidle : s.lockOwner = none
    · obtain ⟨S, hload, hsuccess⟩ := ok_effect hidle hreply
      refine ⟨S, hload, fun hnone => ?_, fun T hT => ?_⟩
      · rcases hsuccess with ⟨-, hreply, hcarried⟩ | ⟨T', hnext, -⟩
        · exact ⟨hreply, update_of_next_eq_none hnone, hcarried.store⟩
        · rw [hnext] at hnone
          cases hnone
      · rcases hsuccess with ⟨hnext, -, -⟩ | ⟨T', hnext, hreply, hacc, hnode, -⟩
        · rw [hnext] at hT
          cases hT
        · rw [hnext] at hT
          cases hT
          exact ⟨hreply, hacc, toMap_next hnext, hnode⟩
    · obtain ⟨⟨e, he⟩, -⟩ := call_held self p m oracle hidle
      rw [hreply] at he
      cases he
  · by_cases hidle : s.lockOwner = none
    · exact (call_effect self p m hidle hfaults).2.2.trans hidle.symm
    · exact (call_held self p m oracle hidle).2.owner
  -- what decides on fullness is the number of records to write, once the opening has worked
  · rintro record S rfl hs hload hopening
    obtain ⟨oracle', s', hrun⟩ :=
      store_of_opening record (opening_of_unfailed hs hload hopening)
    rw [hrun, ← length_stored_gt_iff (storable_of_loadNode hload).count,
      ← writeAll_full_iff self p (S.stored record) oracle' s']
    cases ((writeAll self (S.stored record)).run.exec (Fs.step p) oracle' s').1 with
    | ok a => simp [Except.map]
    | error e => simp [Except.map]
  -- the failed removal leaves a file that loads, so the second meets no fault of the first
  · rintro id S rfl hs hload oracle' hcalm
    obtain ⟨S', hload', -⟩ := loads_after_remove self p id oracle hs.idle hload
    have hs' : AtRest ((Mutation.remove id).run self p oracle s).2 := by
      obtain ⟨-, husable, hidle⟩ := call_effect self p (.remove id) hs.idle hfaults
      exact ⟨hidle, husable.mpr hs.usable⟩
    have hok : ((Mutation.remove id).run self p oracle'
        ((Mutation.remove id).run self p oracle s).2).1 =
          .ok ((Mutation.remove id).replyOn S') := by
      have hfits : (Mutation.remove id).Fits := trivial
      rcases result_faultless hs' hload' hcalm hfits with hok | ⟨-, -, record, hm, -⟩
      · exact hok
      · cases hm
    refine ⟨⟨_, hok⟩, ?_⟩
    obtain ⟨S'', hload'', habsent⟩ := loads_after_remove self p id oracle' hs'.idle hload'
    exact ⟨S'', hload'', habsent _ hok⟩

/-- A set with as many records as a store takes. -/
def fullSet : TrustedPeers where
  records := (List.range maxTrustedPeers).map fun n => recordOf (UInt8.ofNat n)
  ordered := by decide +kernel

/-- A full store refuses one more record, and a removal whose last sync failed can be repeated. -/
theorem mutation_all_or_nothing_refused :
    let s : Fs Unit :=
      (Fs.fresh : Fs Unit).setNode .trustedPeers (.regular (encode fullSet.records))
    let remove := Mutation.remove (recordOf 7).identity
    (∃ e, ((Mutation.store (recordOf 128)).run ⟨false⟩ () calm s).1 = .error e ∧ FullError e) ∧
    ∃ outcome, (remove.run ⟨false⟩ () calm (remove.run ⟨false⟩ () (failingAt 23) s).2).1 =
      .ok (.removal outcome) := by
  intro s remove
  have hs : AtRest s := ⟨rfl, .inl rfl⟩
  have hlabels : ∀ record ∈ fullSet.records, LabelFits record.label := by
    intro record hrecord
    obtain ⟨n, -, rfl⟩ := List.mem_map.mp hrecord
    exact trivial
  have hload : loadNode (s.node .trustedPeers) = .ok fullSet :=
    decode_encode_eq_ok_iff.mpr ⟨rfl, by decide +kernel, hlabels⟩
  have hopening : ∀ step ∈ (opening ⟨false⟩).run.trace (Fs.step ()) calm s,
      ¬ step.1.Failed step.2 :=
    (strict_opening ⟨false⟩).unfailed_of_ok (opening_of_faultless hs hload calm_faultless)
  constructor
  · obtain ⟨-, -, -, -, -, hfull, -⟩ :=
      mutation_all_or_nothing ⟨false⟩ () (.store (recordOf 128)) calm s
    exact (hfull _ _ rfl hs hload hopening).mpr ⟨by decide +kernel, by decide +kernel⟩
  · obtain ⟨-, -, -, -, -, -, hretry⟩ :=
      mutation_all_or_nothing ⟨false⟩ () remove (failingAt 23) s
    exact (hretry _ _ rfl hs hload calm calm_faultless).1

end LocalTransfer
