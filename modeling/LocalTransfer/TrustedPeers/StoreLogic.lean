import LocalTransfer.TrustedPeers.Store

/-!
# What one call of the store does

The operations of the store's programs fall into a few kinds: the quiet ones, which
touch neither the store file nor the lock, and the four that matter (taking the
lock, the rename, the directory sync, releasing the lock). A `StoreLogic` gives each
kind a meaning over some state; `load_spec` and `mutation_spec` then say what a
whole call does in those terms. The sequential and the concurrent reading of the
store are two instances.
-/

namespace LocalTransfer

open Lib TrustedPeers TrustedPeerStore

/-! ## Calls -/

/-- A mutating call. -/
inductive Mutation
  | store (record : TrustedPeerRecord)
  | remove (identity : PeerKeyIdentity)

/-- What a successful call returns. -/
inductive Reply
  | loaded (S : TrustedPeers)
  | stored
  | removal (outcome : TrustedPeerRemoval)
  deriving DecidableEq

namespace Mutation

/-- The program of a mutating call. -/
def code (self : TrustedPeerStore) : Mutation → StoreProg Reply
  | .store record => (fun _ => Reply.stored) <$> TrustedPeerStore.store self record
  | .remove identity => Reply.removal <$> TrustedPeerStore.remove self identity

/-- The set a call turns the loaded set into; `none` when there is nothing to remove. -/
def next : Mutation → TrustedPeers → Option TrustedPeers
  | .store record, S => some (S.replace record)
  | .remove identity, S => if S.contains identity then some (S.without identity) else none

/-- What a mutating call means for the map from identities to labels. -/
def update (M : PeerKeyIdentity → Option (Option TrustedPeerLabel)) :
    Mutation → PeerKeyIdentity → Option (Option TrustedPeerLabel)
  | .store record => Function.update M record.identity (some record.label)
  | .remove identity => Function.update M identity none

/-- What a call that has written returns. -/
def reply : Mutation → Reply
  | .store _ => .stored
  | .remove _ => .removal .removed

end Mutation

theorem toMap_next {m : Mutation} {S T : TrustedPeers} (h : m.next S = some T) :
    T.toMap = m.update S.toMap := by
  cases m with
  | store record =>
      cases h
      exact toMap_replace S record
  | remove identity =>
      simp only [Mutation.next] at h
      split at h
      · cases h
        exact toMap_without S identity
      · cases h

/-- What loading makes of the node at the store path. -/
def loadNode : Node → Except TrustedPeerStoreError TrustedPeers
  | .missing => .ok TrustedPeers.empty
  | .regular contents => decode contents
  | .symlink => .error (.symlinkNotAllowed storePath)
  | .other => .error (.notRegularFile storePath)

/-- The reasons to write nothing that lie in the records. -/
inductive Rejects (records : List TrustedPeerRecord) : TrustedPeerStoreError → Prop
  | capacity : records.length > maxTrustedPeers →
      Rejects records (.capacityExceeded records.length maxTrustedPeers)
  | size : records.length ≤ maxTrustedPeers →
      (encode records).length > maxTrustedPeersStoreBytes →
      Rejects records (.storeTooLarge (encode records).length maxTrustedPeersStoreBytes)

/-- The records pass the checks made before writing. -/
structure Accepted (records : List TrustedPeerRecord) : Prop where
  count : records.length ≤ maxTrustedPeers
  size : (encode records).length ≤ maxTrustedPeersStoreBytes

/-- The failures that come after the rename. -/
inductive SyncError : TrustedPeerStoreError → Prop
  | file (source : IoError) : SyncError (ioError "sync trusted-peer store" source)
  | directory (source : IoError) : SyncError (ioError "sync trusted-peer store directory" source)

/-! ## Kinds of operations -/

namespace FsOp

/-- The operations that touch neither the contents of a store nor the lock. -/
def Quiet : FsOp → Prop
  | .tryLock | .unlock | .persist _ _ | .persistNoclobber _ _ | .syncParent => False
  | .openCreate f => f = .trustedPeersLock
  | _ => True

/-- An operation returns what it should, or an error it is excused for. -/
def Settled {α : Type} (excused : Prop) (r : Except IoError α) (a : α) : Prop :=
  r = .ok a ∨ (excused ∧ ∃ e, r = .error e)

theorem Settled.mono {α : Type} {excused excused' : Prop} {r : Except IoError α} {a : α}
    (h : Settled excused r a) (himp : excused → excused') : Settled excused' r a :=
  h.imp_right (And.imp_left himp)

/-- What the result of a quiet operation says about the files it ran on. -/
def Reports (node : FileName → Node) (excused : Prop) : (o : FsOp) → o.Result → Prop
  | .symlinkMetadata f, r => Settled excused r (node f).kind
  | .parentMetadata, r => ∃ directory, Settled excused r directory
  | .openRead f, r => Settled excused r (node f)
  | .openCreate f, r => Settled excused r ((node f).kind.getD .regular)
  | .createDirAll, r | .setPermissions _, r | .openMetadata _, r | .readToEnd _, r
  | .createTemporary, r | .writeTemporary _, r | .syncTemporary, r | .syncFile _, r
  | .openParent, r => Settled excused r ()
  | .tryLock, _ | .unlock, _ | .persist _ _, _ | .persistNoclobber _ _, _ | .syncParent, _ => True

/-- More may be excused. -/
theorem Reports.mono {node : FileName → Node} {excused excused' : Prop} {o : FsOp} {r : o.Result}
    (h : o.Reports node excused r) (himp : excused → excused') : o.Reports node excused' r := by
  cases o with
  | parentMetadata =>
      obtain ⟨directory, h⟩ := h
      exact ⟨directory, h.mono himp⟩
  | tryLock | unlock | persist | persistNoclobber | syncParent => trivial
  | symlinkMetadata | openRead | openCreate | createDirAll | setPermissions | openMetadata
  | readToEnd | createTemporary | writeTemporary | syncTemporary | syncFile | openParent =>
      exact Settled.mono h himp

end FsOp

variable {σ : Type}

/-- A reading of the store's operations over states `σ`. An excused state is one in
which a call may fail through no fault of its input. -/
structure StoreLogic (L : Logic σ FsOp FsOp.Result) where
  node : σ → FileName → Node
  quiet : σ → σ → Prop
  acquired : σ → σ → Prop
  committed : Bytes → σ → σ → Prop
  flushed : σ → σ → Prop
  released : σ → σ → Prop
  /-- When the rename to these contents is allowed. -/
  permitted : Bytes → σ → Prop
  contended : σ → Prop
  excused : σ → Prop
  quiet_refl : ∀ s, quiet s s
  quiet_trans : ∀ {s₁ s₂ s₃}, quiet s₁ s₂ → quiet s₂ s₃ → quiet s₁ s₃
  rely_quiet : ∀ {s s'}, L.rely s s' → quiet s s'
  excused_mono : ∀ {s s'}, quiet s s' → excused s → excused s'
  store_symlink : ∀ {s s'}, quiet s s' → node s' .trustedPeers = .symlink →
    node s .trustedPeers = .symlink
  quiet_op : ∀ {s o r s'}, o.Quiet → L.next s o r s' →
    L.guar s s' ∧ quiet s s' ∧ o.Reports (node s) (excused s') r
  try_lock : ∀ {s r s'}, L.next s .tryLock r s' → L.guar s s' ∧
    ((r = .ok true ∧ acquired s s') ∨ (r = .ok false ∧ contended s ∧ quiet s s') ∨
      ∃ e, r = .error e ∧ quiet s s' ∧ excused s')
  unlock : ∀ {s r s'}, L.next s .unlock r s' → L.guar s s' ∧ released s s'
  persist : ∀ {s contents r s'}, permitted contents s →
    L.next s (.persist .trustedPeers contents) r s' → L.guar s s' ∧
    ((r = .ok () ∧ committed contents s s') ∨ ∃ e, r = .error e ∧ quiet s s' ∧ excused s')
  sync_parent : ∀ {s r s'}, L.next s .syncParent r s' → L.guar s s' ∧
    ((r = .ok () ∧ flushed s s') ∨ ∃ e, r = .error e ∧ quiet s s' ∧ excused s')

namespace StoreLogic

variable {L : Logic σ FsOp FsOp.Result} (A : StoreLogic L)

/-! ## Calm programs -/

/-- The program only performs quiet operations from here on, and fails only if excused. -/
def Calm {ε α : Type} (x : FsProg ε α) (s : σ) : Prop :=
  wp L x.run (fun r s' => A.quiet s s' ∧ ((∃ e, r = .error e) → A.excused s')) s

section Calm

variable {A} {ε ε' α β : Type}

theorem Calm.pure (a : α) (s : σ) : A.Calm (pure a : FsProg ε α) s := by
  refine wp_pure fun s₁ h => ⟨A.rely_quiet h, ?_⟩
  rintro ⟨e, he⟩
  cases he

theorem Calm.throw {s : σ} (h : A.excused s) (e : ε) : A.Calm (throw e : FsProg ε α) s :=
  wp_throw fun _ hr => ⟨A.rely_quiet hr, fun _ => A.excused_mono (A.rely_quiet hr) h⟩

/-- What is calm after some quiet steps can be put behind them. -/
theorem Calm.after {s s' : σ} {x : FsProg ε α} (hx : A.Calm x s') (hq : A.quiet s s') :
    wp L x.run (fun r s'' => A.quiet s s'' ∧ ((∃ e, r = .error e) → A.excused s'')) s' :=
  wp_mono hx fun _ _ h => ⟨A.quiet_trans hq h.1, h.2⟩

/-- A calm program in front of another one. -/
theorem Calm.seq {x : FsProg ε α} {f : α → FsProg ε β} {Q : Except ε β → σ → Prop} {s : σ}
    (hx : A.Calm x s) (hf : ∀ a s', A.quiet s s' → wp L (f a).run Q s')
    (herr : ∀ e s', A.quiet s s' → A.excused s' → Q (.error e) s') :
    wp L (x >>= f).run Q s := by
  refine Lib.wp_bind (wp_mono hx ?_)
  rintro (e | a) s' ⟨hq, hexc⟩
  · intro s₁ hr
    have hq₁ := A.rely_quiet hr
    exact herr e s₁ (A.quiet_trans hq hq₁) (A.excused_mono hq₁ (hexc ⟨e, rfl⟩))
  · exact hf a s' hq

theorem Calm.bind {x : FsProg ε α} {f : α → FsProg ε β} {s : σ} (hx : A.Calm x s)
    (hf : ∀ a s', A.quiet s s' → A.Calm (f a) s') : A.Calm (x >>= f) s :=
  hx.seq (fun a s' hq => (hf a s' hq).after hq) fun _ _ hq hexc => ⟨hq, fun _ => hexc⟩

theorem Calm.adapt {x : FsProg ε α} {g : ε → ε'} {s : σ} (hx : A.Calm x s) :
    A.Calm (ExceptT.adapt g x) s := by
  refine wp_adapt (wp_mono hx ?_)
  rintro (e | a) s' ⟨hq, hexc⟩
  · exact ⟨hq, fun _ => hexc ⟨e, rfl⟩⟩
  · refine ⟨hq, ?_⟩
    rintro ⟨e, he⟩
    cases he

/-- A quiet operation at the head. -/
theorem wp_quiet {o : FsOp} {f : o.Result → FsProg ε β} {Q : Except ε β → σ → Prop} {s : σ}
    (ho : o.Quiet)
    (hf : ∀ r s₁ s', A.quiet s s₁ → A.quiet s₁ s' →
      o.Reports (A.node s₁) (A.excused s') r → wp L (f r).run Q s') :
    wp L (call o >>= f).run Q s := by
  refine wp_call fun s₁ h₁ r s' hn => ?_
  obtain ⟨hg, hq, hrep⟩ := A.quiet_op ho hn
  exact ⟨hg, hf r s₁ s' (A.rely_quiet h₁) hq hrep⟩

theorem Calm.call {o : FsOp} {f : o.Result → FsProg ε β} {s : σ} (ho : o.Quiet)
    (hf : ∀ r s₁ s', A.quiet s s₁ → A.quiet s₁ s' →
      o.Reports (A.node s₁) (A.excused s') r → A.Calm (f r) s') :
    A.Calm (Lib.call o >>= f) s :=
  wp_quiet ho fun r s₁ s' h₁ hq hrep => (hf r s₁ s' h₁ hq hrep).after (A.quiet_trans h₁ hq)

/-- Passing an operation's result on with the `?` operator. -/
theorem Calm.orElseFail {r : Except IoError α} {a : α} {f : IoError → ε} {s : σ}
    (h : FsOp.Settled (A.excused s) r a) : A.Calm (orElseFail r f : FsProg ε α) s := by
  rcases h with rfl | ⟨hexc, e, rfl⟩
  · exact Calm.pure a s
  · exact Calm.throw hexc _

end Calm

/-! ## The persistence helpers -/

/-- The `?` operator in front of the rest of a program. -/
theorem wp_orElseFail {ε α β : Type} {r : Except IoError α} {a : α} {f : IoError → ε}
    {g : α → FsProg ε β} {Q : Except ε β → σ → Prop} {s : σ}
    (h : FsOp.Settled (A.excused s) r a) (hg : wp L (g a).run Q s)
    (herr : ∀ source s', A.quiet s s' → A.excused s' → Q (.error (f source)) s') :
    wp L (orElseFail r f >>= g).run Q s := by
  rcases h with rfl | ⟨hexc, e, rfl⟩
  · exact wp_bind (wp_pure fun s' hr => wp_stable hg hr)
  · refine wp_bind (wp_throw fun s' hr => ?_)
    intro s'' hr'
    have hq := A.quiet_trans (A.rely_quiet hr) (A.rely_quiet hr')
    exact herr e s'' hq (A.excused_mono hq hexc)

/-- A quiet operation whose failure is passed on, in front of the rest of a program. -/
theorem wp_quiet_unit {ε β : Type} {o : FsOp} {s : σ} {f : IoError → ε} {g : FsProg ε β}
    {Q : Except ε β → σ → Prop} (ho : o.Quiet) (result : o.Result → Except IoError Unit)
    (hrep : ∀ {node excused r}, o.Reports node excused r → FsOp.Settled excused (result r) ())
    (hg : ∀ s', A.quiet s s' → wp L g.run Q s')
    (herr : ∀ source s', A.quiet s s' → A.excused s' → Q (.error (f source)) s') :
    wp L (do orElseFail (result (← call o)) f; g).run Q s := by
  refine wp_quiet (A := A) ho fun r s₁ s' h₁ hq h => ?_
  have hq' := A.quiet_trans h₁ hq
  exact A.wp_orElseFail (hrep h) (hg s' hq')
    fun source s'' h'' => herr source s'' (A.quiet_trans hq' h'')

/-- A quiet operation whose failure is passed on. -/
theorem calm_unit {ε : Type} {o : FsOp} {s : σ} {f : IoError → ε} (ho : o.Quiet)
    (result : o.Result → Except IoError Unit)
    (hrep : ∀ {node excused r}, o.Reports node excused r → FsOp.Settled excused (result r) ()) :
    A.Calm (do orElseFail (result (← call o)) f) s :=
  Calm.call ho fun _ _ _ _ _ h => Calm.orElseFail (hrep h)

theorem calm_hardenExistingFile (f : FileName) (s : σ) : A.Calm (hardenExistingFile f) s := by
  unfold hardenExistingFile
  refine Calm.call trivial fun r s₁ s' _ _ h => ?_
  rcases h with rfl | ⟨hexc, e, rfl⟩
  · cases A.node s₁ f with
    | regular => exact A.calm_unit (o := .setPermissions (.file f)) trivial id fun h => h
    | missing | symlink | other => exact Calm.pure _ _
  · exact Calm.throw hexc _

theorem calm_hardenExistingParent (s : σ) : A.Calm hardenExistingParent s := by
  unfold hardenExistingParent
  refine Calm.call trivial fun r s₁ s' _ _ h => ?_
  rcases h with ⟨directory, rfl | ⟨hexc, e, rfl⟩⟩
  · match directory with
    | some true => exact A.calm_unit (o := .setPermissions .parent) trivial id fun h => h
    | some false | none => exact Calm.pure _ _
  · exact Calm.throw hexc _

theorem calm_prepareParent (harden : Bool) (s : σ) : A.Calm (prepareParent harden) s := by
  unfold prepareParent
  refine Calm.call trivial fun r s₁ s' _ _ ⟨directory, h⟩ => ?_
  refine Calm.bind (Calm.orElseFail h) fun existing s₂ _ => ?_
  refine Calm.call trivial fun r s₁ s' _ _ h => ?_
  refine Calm.bind (Calm.orElseFail h) fun _ s₃ _ => ?_
  split
  · exact A.calm_unit (o := .setPermissions .parent) trivial id fun h => h
  · exact Calm.pure _ _

/-- The temporary file is prepared without touching any store, and holds the contents. -/
theorem createSyncedTemporary_spec (contents : Bytes) (harden : Bool) (s : σ) :
    wp L (createSyncedTemporary contents harden).run (fun r s' => A.quiet s s' ∧
      (r = .ok ⟨contents⟩ ∨ ∃ e, r = .error e ∧ A.excused s')) s := by
  have herr : ∀ {s₁ : σ}, A.quiet s s₁ → ∀ (e : PersistenceError) s', A.quiet s₁ s' →
      A.excused s' → A.quiet s s' ∧ ((.error e : Except PersistenceError NamedTempFile) =
        .ok ⟨contents⟩ ∨ ∃ e', (.error e : Except PersistenceError NamedTempFile) = .error e' ∧
          A.excused s') :=
    fun h e _ hq hexc => ⟨A.quiet_trans h hq, .inr ⟨e, rfl, hexc⟩⟩
  unfold createSyncedTemporary
  refine (A.calm_prepareParent harden s).seq (fun _ s₁ h₁ => ?_) (herr (A.quiet_refl s))
  refine A.wp_quiet_unit (o := .createTemporary) trivial id (fun h => h) ?_ (fun _ => herr h₁ _)
  intro s₂ h
  have h₂ := A.quiet_trans h₁ h
  refine A.wp_quiet_unit (o := .setPermissions .temporary) trivial id (fun h => h) ?_
    (fun _ => herr h₂ _)
  intro s₃ h
  have h₃ := A.quiet_trans h₂ h
  refine A.wp_quiet_unit (o := .writeTemporary contents) trivial id (fun h => h) ?_
    (fun _ => herr h₃ _)
  intro s₄ h
  have h₄ := A.quiet_trans h₃ h
  refine A.wp_quiet_unit (o := .syncTemporary) trivial id (fun h => h) ?_ (fun _ => herr h₄ _)
  intro s₅ h
  refine wp_pure fun s₆ hr => ⟨?_, .inl rfl⟩
  exact A.quiet_trans (A.quiet_trans h₄ h) (A.rely_quiet hr)

/-! ## Loading -/

/-- What a load returns: the set at some moment of the call, or the structural error of
that moment; an I/O error only if excused. -/
def Loaded (s : σ) (r : Except TrustedPeerStoreError TrustedPeers) (s' : σ) : Prop :=
  (∃ s₁, A.quiet s s₁ ∧ A.quiet s₁ s' ∧ r = loadNode (A.node s₁ .trustedPeers)) ∨
    (A.quiet s s' ∧ A.excused s' ∧ ∃ operation path source, r = .error (.io operation path source))

variable {A} in
theorem Loaded.quiet {s s' : σ} {r : Except TrustedPeerStoreError TrustedPeers}
    (h : A.Loaded s r s') : A.quiet s s' := by
  rcases h with ⟨s₁, h₁, h₂, -⟩ | ⟨h, -⟩
  · exact A.quiet_trans h₁ h₂
  · exact h

variable {A} in
theorem Loaded.after {s₀ s s' : σ} {r : Except TrustedPeerStoreError TrustedPeers}
    (h : A.Loaded s r s') (hq : A.quiet s₀ s) : A.Loaded s₀ r s' := by
  rcases h with ⟨s₁, h₁, h₂, hr⟩ | ⟨h, hio⟩
  · exact .inl ⟨s₁, A.quiet_trans hq h₁, h₂, hr⟩
  · exact .inr ⟨A.quiet_trans hq h, hio⟩

variable {A} in
theorem Loaded.before {s s' s'' : σ} {r : Except TrustedPeerStoreError TrustedPeers}
    (h : A.Loaded s r s') (hq : A.quiet s' s'') : A.Loaded s r s'' := by
  rcases h with ⟨s₁, h₁, h₂, hr⟩ | ⟨h, hexc, hio⟩
  · exact .inl ⟨s₁, h₁, A.quiet_trans h₂ hq, hr⟩
  · exact .inr ⟨A.quiet_trans h hq, A.excused_mono hq hexc, hio⟩

/-- What the bytes read from the store file are decoded to. -/
def decoded : Except TrustedPeerStoreError (Option Bytes) →
    Except TrustedPeerStoreError TrustedPeers
  | .ok (some bytes) => decode bytes
  | .ok none => .ok TrustedPeers.empty
  | .error e => .error e

theorem readStoreBytes_spec (s : σ) :
    wp L readStoreBytes.run (fun r s' => A.Loaded s (decoded r) s') s := by
  have hio : ∀ {s₁ s₂ s₃ : σ} {operation : String} {e : IoError}, A.quiet s s₁ →
      A.quiet s₁ s₂ → A.quiet s₂ s₃ → A.excused s₂ →
      A.Loaded s (decoded (.error (ioError operation e))) s₃ :=
    fun h₁ h₂ h₃ hexc => .inr ⟨A.quiet_trans h₁ (A.quiet_trans h₂ h₃), A.excused_mono h₃ hexc,
      _, _, _, rfl⟩
  unfold readStoreBytes
  refine wp_quiet (A := A) trivial fun r s₁ s₂ h₁ h₂ hrep => ?_
  rcases hrep with rfl | ⟨hexc, e, rfl⟩
  · cases hnode : A.node s₁ .trustedPeers with
    | missing =>
        refine wp_pure fun s₃ h₃ => .inl ⟨s₁, h₁, A.quiet_trans h₂ (A.rely_quiet h₃), ?_⟩
        rw [hnode]
        rfl
    | symlink =>
        refine wp_throw fun s₃ h₃ => .inl ⟨s₁, h₁, A.quiet_trans h₂ (A.rely_quiet h₃), ?_⟩
        rw [hnode]
        rfl
    | other =>
        refine wp_throw fun s₃ h₃ => .inl ⟨s₁, h₁, A.quiet_trans h₂ (A.rely_quiet h₃), ?_⟩
        rw [hnode]
        rfl
    | regular _ =>
        refine wp_quiet (A := A) trivial fun r s₃ s₄ h₃ h₄ hrep => ?_
        have hs₃ := A.quiet_trans (A.quiet_trans h₁ h₂) h₃
        rcases hrep with rfl | ⟨hexc, e, rfl⟩
        · have hload : ∀ {s₅ s₆ : σ} {r : Except TrustedPeerStoreError (Option Bytes)},
              A.quiet s₄ s₅ → L.rely s₅ s₆ →
              decoded r = loadNode (A.node s₃ .trustedPeers) → A.Loaded s (decoded r) s₆ :=
            fun h₅ h₆ heq => .inl ⟨s₃, hs₃,
              A.quiet_trans h₄ (A.quiet_trans h₅ (A.rely_quiet h₆)), heq⟩
          have herr : ∀ {operation : String} (source : IoError) (s₅ : σ), A.quiet s₄ s₅ →
              A.excused s₅ → A.Loaded s (decoded (.error (ioError operation source))) s₅ :=
            fun source s₅ h₅ hexc => hio hs₃ (A.quiet_trans h₄ h₅) (A.quiet_refl _) hexc
          cases hopen : A.node s₃ .trustedPeers with
          | missing =>
              refine wp_pure fun s₅ h₅ => hload (A.quiet_refl _) h₅ ?_
              rw [hopen]
              rfl
          | symlink =>
              -- nothing turns a store file into a symbolic link between the two calls
              have := A.store_symlink (A.quiet_trans h₂ h₃) hopen
              rw [hnode] at this
              cases this
          | other =>
              refine A.wp_quiet_unit (o := .openMetadata .trustedPeers) trivial id (fun h => h) ?_
                herr
              refine fun s₅ h₅ => wp_throw fun s₆ h₆ => hload h₅ h₆ ?_
              rw [hopen]
              rfl
          | regular contents =>
              refine A.wp_quiet_unit (o := .openMetadata .trustedPeers) trivial id (fun h => h) ?_
                herr
              intro s₅ h₅
              split
              · rename_i hlarge
                refine wp_throw fun s₆ h₆ => hload h₅ h₆ ?_
                rw [hopen]
                exact (if_pos hlarge).symm
              · rename_i hsmall
                refine A.wp_quiet_unit (o := .readToEnd .trustedPeers) trivial id (fun h => h) ?_
                  fun source s₆ h₆ => herr source s₆ (A.quiet_trans h₅ h₆)
                intro s₆ h₆
                have htake : contents.take (maxTrustedPeersStoreBytes + 1) = contents :=
                  List.take_of_length_le (by omega)
                simp only [htake, if_neg hsmall]
                refine wp_pure fun s₇ h₇ => hload (A.quiet_trans h₅ h₆) h₇ ?_
                rw [hopen]
                rfl
        · exact wp_throw fun s₅ h₅ => hio hs₃ h₄ (A.rely_quiet h₅) hexc
  · exact wp_throw fun s₃ h₃ => hio h₁ h₂ (A.rely_quiet h₃) hexc

theorem load_spec (self : TrustedPeerStore) (s : σ) :
    wp L (load self).run (A.Loaded s) s := by
  -- hardening is calm and its only errors are I/O errors
  have hharden : ∀ {x : FsProg PersistenceError Unit} {g : StoreProg TrustedPeers} {s₁ : σ},
      A.Calm x s₁ → A.quiet s s₁ → (∀ s₂, A.quiet s s₂ → wp L g.run (A.Loaded s) s₂) →
      wp L (do ExceptT.adapt persistenceError x; g).run (A.Loaded s) s₁ := by
    intro x g s₁ hx h₁ hg
    refine wp_bind (wp_adapt (wp_mono hx ?_))
    rintro (e | a) s₂ ⟨hq, hexc⟩
    · intro s₃ hr
      have hq₃ := A.rely_quiet hr
      exact .inr ⟨A.quiet_trans h₁ (A.quiet_trans hq hq₃),
        A.excused_mono hq₃ (hexc ⟨e, rfl⟩), _, _, _, rfl⟩
    · exact hg s₂ (A.quiet_trans h₁ hq)
  -- what follows the read is named by what it does with the bytes
  have hread : ∀ {k : Option Bytes → StoreProg TrustedPeers}, k none = pure TrustedPeers.empty →
      (∀ bytes, k (some bytes) = ExceptT.mk (pure (decode bytes))) →
      ∀ s₁, A.quiet s s₁ → wp L (readStoreBytes >>= k).run (A.Loaded s) s₁ := by
    intro k hnone hsome s₁ h₁
    refine wp_bind (wp_mono (A.readStoreBytes_spec s₁) ?_)
    intro r s₂ hloaded
    rcases r with e | _ | bytes
    · exact fun s₃ h₃ => (hloaded.after h₁).before (A.rely_quiet h₃)
    · show wp L (k none).run (A.Loaded s) s₂
      rw [hnone]
      exact fun s₃ h₃ => (hloaded.after h₁).before (A.rely_quiet h₃)
    · show wp L (k (some bytes)).run (A.Loaded s) s₂
      rw [hsome]
      exact fun s₃ h₃ => (hloaded.after h₁).before (A.rely_quiet h₃)
  unfold load
  by_cases hself : self.hardenExistingParent
  · simp only [if_pos hself]
    refine hharden (A.calm_hardenExistingParent s) (A.quiet_refl s) fun s₁ h₁ => ?_
    exact hharden (A.calm_hardenExistingFile _ s₁) h₁ (hread rfl fun _ => rfl)
  · simp only [if_neg hself]
    exact hread rfl (fun _ => rfl) s (A.quiet_refl s)

/-! ## Locking -/

/-- The lock path is free or holds a regular file, or a call is excused. -/
def LockUsable : Prop :=
  ∀ s, A.excused s ∨ A.node s .trustedPeersLock = .missing ∨
    ∃ contents, A.node s .trustedPeersLock = .regular contents

section Locking

variable {A} (husable : A.LockUsable)

include husable

theorem calm_openLockFile (self : TrustedPeerStore) (s : σ) : A.Calm (openLockFile self) s := by
  have hexcused : ∀ {s₁ s₂ : σ}, A.quiet s₁ s₂ → A.node s₁ .trustedPeersLock ≠ .missing →
      (∀ contents, A.node s₁ .trustedPeersLock ≠ .regular contents) → A.excused s₂ := by
    intro s₁ s₂ hq hmissing hregular
    rcases husable s₁ with hexc | hnode | ⟨contents, hnode⟩
    · exact A.excused_mono hq hexc
    · exact absurd hnode hmissing
    · exact absurd hnode (hregular contents)
  have hopen : ∀ s₁, A.Calm (do
      ExceptT.adapt persistenceError (ensureHardenedParent self.hardenExistingParent)
      let kind ← orElseFail (← call (.openCreate .trustedPeersLock))
        (lockIoError "open the trusted-peer lock")
      orElseFail (← call (.openMetadata .trustedPeersLock))
        (lockIoError "inspect the trusted-peer lock")
      if kind ≠ .regular then throw (.notRegularFile lockPath)
      else ExceptT.adapt persistenceError (hardenExistingFile .trustedPeersLock) : StoreProg Unit)
      s₁ := by
    intro s₁
    refine Calm.bind (A.calm_prepareParent _ s₁).adapt fun _ s₂ _ => ?_
    refine Calm.call rfl fun r s₃ s₄ _ h₄ hrep => ?_
    refine A.wp_orElseFail hrep ?_ fun _ _ hq hexc => ⟨hq, fun _ => hexc⟩
    refine A.wp_quiet_unit (o := .openMetadata .trustedPeersLock) trivial id (fun h => h) ?_
      fun _ _ hq hexc => ⟨hq, fun _ => hexc⟩
    intro s₅ h₅
    have hthrow : A.node s₃ .trustedPeersLock ≠ .missing →
        (∀ contents, A.node s₃ .trustedPeersLock ≠ .regular contents) →
        A.Calm (throw (.notRegularFile lockPath) : StoreProg Unit) s₅ :=
      fun hm hr => Calm.throw (hexcused (A.quiet_trans h₄ h₅) hm hr) _
    have hfinish : A.Calm (ExceptT.adapt persistenceError
        (hardenExistingFile .trustedPeersLock)) s₅ := (A.calm_hardenExistingFile _ s₅).adapt
    cases hnode : A.node s₃ .trustedPeersLock with
    | missing | regular => exact hfinish.after h₅
    | symlink | other => exact (hthrow (by simp [hnode]) (by simp [hnode])).after h₅
  unfold openLockFile
  refine Calm.call trivial fun r s₁ s₂ _ h₂ hrep => ?_
  rcases hrep with rfl | ⟨hexc, e, rfl⟩
  · cases hnode : A.node s₁ .trustedPeersLock with
    | missing | regular => exact hopen s₂
    | symlink | other => exact Calm.throw (hexcused h₂ (by simp [hnode]) (by simp [hnode])) _
  · exact Calm.throw hexc _

end Locking

/-- What an attempt to take the lock leads to. -/
inductive Locked (s : σ) : Except TrustedPeerStoreError Unit → σ → Prop
  | taken {s₁ s₂ s'} : A.quiet s s₁ → A.acquired s₁ s₂ → A.quiet s₂ s' → Locked s (.ok ()) s'
  | busy {s₁ s'} : A.quiet s s₁ → A.contended s₁ → A.quiet s₁ s' → Locked s (.error .storeBusy) s'
  | failed {e s'} : A.quiet s s' → A.excused s' → Locked s (.error e) s'

theorem lockExclusive_spec (husable : A.LockUsable) (self : TrustedPeerStore) (s : σ) :
    wp L (lockExclusive self).run (A.Locked s) s := by
  unfold lockExclusive
  refine (calm_openLockFile husable self s).seq (fun _ s₁ h₁ => ?_) fun _ _ hq hexc =>
    .failed hq hexc
  refine wp_call fun s₂ h₂ r s₃ hn => ?_
  have hs₂ := A.quiet_trans h₁ (A.rely_quiet h₂)
  obtain ⟨hg, ⟨rfl, hacq⟩ | ⟨rfl, hcont, hq⟩ | ⟨e, rfl, hq, hexc⟩⟩ := A.try_lock hn
  · exact ⟨hg, wp_pure fun s₄ h₄ => .taken hs₂ hacq (A.rely_quiet h₄)⟩
  · exact ⟨hg, wp_throw fun s₄ h₄ => .busy hs₂ hcont (A.quiet_trans hq (A.rely_quiet h₄))⟩
  · refine ⟨hg, wp_throw fun s₄ h₄ => ?_⟩
    have hq₄ := A.rely_quiet h₄
    exact .failed (A.quiet_trans hs₂ (A.quiet_trans hq hq₄)) (A.excused_mono hq₄ hexc)

/-! ## Writing -/

/-- What writing a set leads to: an error before the rename, an error after it, or a
rename whose directory has been synced. -/
inductive Written (records : List TrustedPeerRecord) (s : σ) :
    Except TrustedPeerStoreError Unit → σ → Prop
  | rejected {e s'} : A.quiet s s' → Rejects records e ∨ A.excused s' →
      Written records s (.error e) s'
  | unsynced {e s₁ s₂ s'} : Accepted records → A.quiet s s₁ →
      A.committed (encode records) s₁ s₂ → A.quiet s₂ s' → SyncError e → A.excused s' →
      Written records s (.error e) s'
  | synced {s₁ s₂ s₃ s₄ s'} : Accepted records → A.quiet s s₁ →
      A.committed (encode records) s₁ s₂ → A.quiet s₂ s₃ → A.flushed s₃ s₄ → A.quiet s₄ s' →
      Written records s (.ok ()) s'

theorem syncParentDirectory_spec (s : σ) :
    wp L syncParentDirectory.run (fun r s' =>
      (r = .ok () ∧ ∃ s₁ s₂, A.quiet s s₁ ∧ A.flushed s₁ s₂ ∧ A.quiet s₂ s') ∨
        ∃ e, r = .error e ∧ A.quiet s s' ∧ A.excused s') s := by
  unfold syncParentDirectory
  refine A.wp_quiet_unit (o := .openParent) trivial id (fun h => h) ?_
    fun source _ hq hexc => .inr ⟨source, rfl, hq, hexc⟩
  intro s₁ h₁
  refine wp_call fun s₂ h₂ r s₃ hn => ?_
  have hs₂ := A.quiet_trans h₁ (A.rely_quiet h₂)
  obtain ⟨hg, ⟨rfl, hflush⟩ | ⟨e, rfl, hq, hexc⟩⟩ := A.sync_parent hn
  · exact ⟨hg, wp_pure fun s₄ h₄ => .inl ⟨rfl, s₂, s₃, hs₂, hflush, A.rely_quiet h₄⟩⟩
  · refine ⟨hg, wp_throw fun s₄ h₄ => .inr ⟨e, rfl, ?_, ?_⟩⟩
    · exact A.quiet_trans hs₂ (A.quiet_trans hq (A.rely_quiet h₄))
    · exact A.excused_mono (A.rely_quiet h₄) hexc

theorem writeAll_spec (self : TrustedPeerStore) (records : List TrustedPeerRecord) {s : σ}
    (hperm : ∀ s', A.quiet s s' →
      A.permitted (encode (sortByKey TrustedPeerRecord.identity records)) s') :
    wp L (writeAll self records).run
      (A.Written (sortByKey TrustedPeerRecord.identity records) s) s := by
  have hlen : (sortByKey TrustedPeerRecord.identity records).length = records.length :=
    length_sortByKey records
  unfold writeAll
  split
  · rename_i hcap
    refine wp_throw fun s₁ h₁ => .rejected (A.rely_quiet h₁) (.inl ?_)
    rw [← hlen] at hcap ⊢
    exact .capacity hcap
  · rename_i hcap
    have hcount : (sortByKey TrustedPeerRecord.identity records).length ≤ maxTrustedPeers := by
      rw [hlen]
      exact Nat.le_of_not_lt hcap
    dsimp only
    split
    · rename_i hsize
      exact wp_throw fun s₁ h₁ => .rejected (A.rely_quiet h₁) (.inl (.size hcount hsize))
    · rename_i hsize
      have hacc : Accepted (sortByKey TrustedPeerRecord.identity records) :=
        ⟨hcount, Nat.le_of_not_lt hsize⟩
      refine wp_bind (wp_adapt (wp_mono (A.createSyncedTemporary_spec _ _ s) ?_))
      rintro r s₁ ⟨h₁, rfl | ⟨e, rfl, hexc⟩⟩
      · -- the temporary file is ready: rename it over the store
        refine wp_call fun s₂ h₂ r s₃ hn => ?_
        have hs₂ := A.quiet_trans h₁ (A.rely_quiet h₂)
        obtain ⟨hg, ⟨rfl, hcommit⟩ | ⟨e, rfl, hq, hexc⟩⟩ := A.persist (hperm s₂ hs₂) hn
        · refine ⟨hg, ?_⟩
          refine A.wp_quiet_unit (o := .syncFile .trustedPeers) trivial id (fun h => h) ?_ ?_
          · intro s₄ h₄
            refine wp_adapt (wp_mono (A.syncParentDirectory_spec s₄) ?_)
            rintro r s₅ (⟨rfl, s₆, s₇, h₆, hflush, h₇⟩ | ⟨e, rfl, hq, hexc⟩)
            · exact .synced hacc hs₂ hcommit (A.quiet_trans h₄ h₆) hflush h₇
            · exact .unsynced hacc hs₂ hcommit (A.quiet_trans h₄ hq) (.directory e) hexc
          -- the rename has happened: the failed sync is reported, and excused
          · exact fun source s₄ hq hexc => .unsynced hacc hs₂ hcommit hq (.file source) hexc
        · refine ⟨hg, wp_throw fun s₄ h₄ => ?_⟩
          have hq₄ := A.rely_quiet h₄
          exact .rejected (A.quiet_trans hs₂ (A.quiet_trans hq hq₄))
            (.inr (A.excused_mono hq₄ hexc))
      -- no temporary file: nothing was renamed
      · intro s₂ h₂
        have hq₂ := A.rely_quiet h₂
        exact .rejected (A.quiet_trans h₁ hq₂) (.inr (A.excused_mono hq₂ hexc))

/-! ## Transactions -/

/-- What a mutating call does while it holds the lock. -/
inductive Transacted (m : Mutation) (s : σ) : Except TrustedPeerStoreError Reply → σ → Prop
  | unread {e s₁ s'} : A.quiet s s₁ → A.quiet s₁ s' →
      loadNode (A.node s₁ .trustedPeers) = .error e ∨ A.excused s' → Transacted m s (.error e) s'
  | absent {S s₁ s'} : A.quiet s s₁ → loadNode (A.node s₁ .trustedPeers) = .ok S →
      m.next S = none → A.quiet s₁ s' → Transacted m s (.ok (.removal .alreadyAbsent)) s'
  | wrote {S T s₁ s₂ r s'} : A.quiet s s₁ → loadNode (A.node s₁ .trustedPeers) = .ok S →
      m.next S = some T → A.quiet s₁ s₂ → A.Written T.records s₂ r s' →
      Transacted m s (r.map fun _ => m.reply) s'

variable {A} in
theorem Written.before {records : List TrustedPeerRecord} {s s' s'' : σ}
    {r : Except TrustedPeerStoreError Unit} (h : A.Written records s r s')
    (hq : A.quiet s' s'') : A.Written records s r s'' := by
  cases h with
  | rejected h₁ h₂ => exact .rejected (A.quiet_trans h₁ hq) (h₂.imp_right (A.excused_mono hq))
  | unsynced hacc h₁ h₂ h₃ herr hexc =>
      exact .unsynced hacc h₁ h₂ (A.quiet_trans h₃ hq) herr (A.excused_mono hq hexc)
  | synced hacc h₁ h₂ h₃ h₄ h₅ => exact .synced hacc h₁ h₂ h₃ h₄ (A.quiet_trans h₅ hq)

variable {A} in
theorem Transacted.before {m : Mutation} {s s' s'' : σ} {r : Except TrustedPeerStoreError Reply}
    (h : A.Transacted m s r s') (hq : A.quiet s' s'') : A.Transacted m s r s'' := by
  cases h with
  | unread h₁ h₂ herr =>
      exact .unread h₁ (A.quiet_trans h₂ hq) (herr.imp_right (A.excused_mono hq))
  | absent h₁ hload hnext h₂ => exact .absent h₁ hload hnext (A.quiet_trans h₂ hq)
  | wrote h₁ hload hnext h₂ hwrite => exact .wrote h₁ hload hnext h₂ (hwrite.before hq)

/-- What a whole mutating call does. -/
inductive Mutated (m : Mutation) (s : σ) : Except TrustedPeerStoreError Reply → σ → Prop
  | failed {e s'} : A.quiet s s' → A.excused s' → Mutated m s (.error e) s'
  | busy {s₁ s'} : A.quiet s s₁ → A.contended s₁ → A.quiet s₁ s' →
      Mutated m s (.error .storeBusy) s'
  | ran {s₁ s₂ s₃ s₄ s₅ s₆ r s'} : A.quiet s s₁ → A.acquired s₁ s₂ → A.quiet s₂ s₃ →
      A.Transacted m s₃ r s₄ → A.quiet s₄ s₅ → A.released s₅ s₆ → A.quiet s₆ s' →
      Mutated m s r s'

variable {A} in
theorem Mutated.before {m : Mutation} {s s' s'' : σ} {r : Except TrustedPeerStoreError Reply}
    (h : A.Mutated m s r s') (hq : A.quiet s' s'') : A.Mutated m s r s'' := by
  cases h with
  | failed h hexc => exact .failed (A.quiet_trans h hq) (A.excused_mono hq hexc)
  | busy h₁ hcont h₂ => exact .busy h₁ hcont (A.quiet_trans h₂ hq)
  | ran h₁ h₂ h₃ h₄ h₅ h₆ h₇ => exact .ran h₁ h₂ h₃ h₄ h₅ h₆ (A.quiet_trans h₇ hq)

/-- The lock is taken before the body of a transaction and released after it. -/
theorem transaction_spec {α : Type} (husable : A.LockUsable) (self : TrustedPeerStore)
    (m : Mutation) {body : StoreProg α}
    {f : α → Reply} {s : σ}
    (hbody : ∀ s₁ s₂ s₃, A.quiet s s₁ → A.acquired s₁ s₂ → A.quiet s₂ s₃ →
      wp L body.run (fun r s' => A.Transacted m s₃ (r.map f) s') s₃) :
    wp L (f <$> (do lockExclusive self; releasing body) : StoreProg Reply).run
      (A.Mutated m s) s := by
  have hmap : wp L (do lockExclusive self; releasing body : StoreProg α).run
      (fun r s' => A.Mutated m s (r.map f) s') s := by
    refine wp_bind (wp_mono (A.lockExclusive_spec husable self s) ?_)
    intro r s₁ hlock
    cases hlock with
    | taken h₁ h₂ h₃ =>
        refine wp_bind (wp_mono (hbody _ _ _ h₁ h₂ h₃) ?_)
        intro r s₄ hrun s₅ h₅ r' s₆ hn
        obtain ⟨hg, hrel⟩ := A.unlock hn
        refine ⟨hg, fun s₇ h₇ => ?_⟩
        exact .ran h₁ h₂ h₃ hrun (A.rely_quiet h₅) hrel (A.rely_quiet h₇)
    | busy h₁ h₂ h₃ => exact fun s₂ h => .busy h₁ h₂ (A.quiet_trans h₃ (A.rely_quiet h))
    | failed h₁ h₂ =>
        exact fun s₂ h => .failed (A.quiet_trans h₁ (A.rely_quiet h))
          (A.excused_mono (A.rely_quiet h) h₂)
  refine wp_bind (wp_mono hmap ?_)
  rintro (e | a) s' h
  · exact fun s'' hr => h.before (A.rely_quiet hr)
  · exact fun s'' hr => h.before (A.rely_quiet hr)

/-- The read at the head of a transaction: the rest runs on the set that was read. -/
theorem read_spec {α : Type} (self : TrustedPeerStore) (m : Mutation)
    {body : TrustedPeers → StoreProg α} {f : α → Reply} {s : σ}
    (hbody : ∀ S s₁ s₂, A.quiet s s₁ → loadNode (A.node s₁ .trustedPeers) = .ok S →
      A.quiet s₁ s₂ → wp L (body S).run (fun r s' => A.Transacted m s (r.map f) s') s₂) :
    wp L (load self >>= body).run (fun r s' => A.Transacted m s (r.map f) s') s := by
  refine wp_bind (wp_mono (A.load_spec self s) ?_)
  rintro (e | S) s₁ (⟨s₂, h₂, h₁, hload⟩ | ⟨h₁, hexc, operation, path, source, hio⟩)
  · exact fun s₃ h₃ => .unread h₂ (A.quiet_trans h₁ (A.rely_quiet h₃)) (.inl hload.symm)
  · intro s₃ h₃
    have hq₃ := A.rely_quiet h₃
    exact .unread (A.quiet_refl s) (A.quiet_trans h₁ hq₃) (.inr (A.excused_mono hq₃ hexc))
  · exact hbody S s₂ s₁ h₂ hload.symm h₁
  · cases hio

/-- The write at the end of a transaction. -/
theorem write_spec (self : TrustedPeerStore) (m : Mutation) {records : List TrustedPeerRecord}
    {S T : TrustedPeers} {s s₁ s₂ : σ} (h₁ : A.quiet s s₁)
    (hload : loadNode (A.node s₁ .trustedPeers) = .ok S) (h₂ : A.quiet s₁ s₂)
    (hnext : m.next S = some T)
    (hrecords : sortByKey TrustedPeerRecord.identity records = T.records)
    (hperm : ∀ s', A.quiet s₁ s' → A.permitted (encode T.records) s') :
    wp L (writeAll self records).run
      (fun r s' => A.Transacted m s (r.map fun _ => m.reply) s') s₂ := by
  have hwrite := A.writeAll_spec self records (s := s₂)
    (by rw [hrecords]; exact fun s' h => hperm s' (A.quiet_trans h₂ h))
  rw [hrecords] at hwrite
  exact wp_mono hwrite fun r s' h => .wrote h₁ hload hnext h₂ h

/-- **What a mutating call does.** The rename has to be allowed whenever the call holds
the lock and has read the set it changes. -/
theorem mutation_spec (husable : A.LockUsable) (self : TrustedPeerStore) (m : Mutation) {s : σ}
    (hperm : ∀ {s₁ s₂ s₃ s₄ S T}, A.quiet s s₁ → A.acquired s₁ s₂ → A.quiet s₂ s₃ →
      loadNode (A.node s₃ .trustedPeers) = .ok S → m.next S = some T → A.quiet s₃ s₄ →
      A.permitted (encode T.records) s₄) :
    wp L (m.code self).run (A.Mutated m s) s := by
  cases m with
  | store record =>
      refine A.transaction_spec husable self (.store record) fun s₁ s₂ s₃ h₁ h₂ h₃ => ?_
      refine A.read_spec self _ fun S s₄ s₅ h₄ hload h₅ => ?_
      exact A.write_spec self (.store record) h₄ hload h₅ rfl rfl
        fun s' hq => hperm h₁ h₂ (A.quiet_trans h₃ h₄) hload rfl hq
  | remove identity =>
      refine A.transaction_spec husable self (.remove identity) fun s₁ s₂ s₃ h₁ h₂ h₃ => ?_
      refine A.read_spec self _ fun S s₄ s₅ h₄ hload h₅ => ?_
      by_cases hcontains : S.contains identity
      · have hnext : (Mutation.remove identity).next S = some (S.without identity) :=
          if_pos hcontains
        have hsorted := (S.without identity).ordered.sortByKey_eq
        have hwrite := A.write_spec self (.remove identity) h₄ hload h₅ hnext hsorted
          fun s' hq => hperm h₁ h₂ (A.quiet_trans h₃ h₄) hload hnext hq
        simp only [hcontains, Bool.not_true, Bool.false_eq_true, if_false]
        refine wp_bind (wp_mono hwrite ?_)
        rintro (e | a) s₆ h s₇ h₇
        · exact h.before (A.rely_quiet h₇)
        · exact h.before (A.rely_quiet h₇)
      · have hnext : (Mutation.remove identity).next S = none := if_neg hcontains
        simp only [hcontains, Bool.not_false, if_true]
        exact wp_pure fun s₆ h₆ => .absent h₄ hload hnext (A.quiet_trans h₅ (A.rely_quiet h₆))

end StoreLogic

end LocalTransfer
