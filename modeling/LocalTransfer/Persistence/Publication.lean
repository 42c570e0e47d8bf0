import LocalTransfer.Lib.Monitor
import LocalTransfer.LocalDevice.Stores
import LocalTransfer.TrustedPeers.StoreLogic

/-!
# What the stores publish

What a call of a store may do, and in which order, over every call and every outcome of every
step. A file is renamed into place only when it has just been created, made private while it
was still empty, written whole and flushed. A path's permissions are changed only right after a
look at it has found no symbolic link. And each call keeps to the files that it is there for.
-/

namespace LocalTransfer

open Lib TrustedPeers

variable {σ A α β ε ε' : Type} {U : UuidCrate}

/-! ## The discipline -/

/-- What a step does to the temporary file. -/
inductive TemporaryEvent
  | created
  | restricted
  | written (contents : Bytes)
  | flushed
  | renamed
  | failed
  deriving DecidableEq

/-- The event of a step that succeeds. -/
def TemporaryEvent.of (event : TemporaryEvent) : Except IoError α → TemporaryEvent
  | .ok _ => event
  | .error _ => .failed

def temporaryEvent : (o : FsOp) → o.Result → Option TemporaryEvent
  | .createTemporary, r => some (.of .created r)
  | .setPermissions .temporary, r => some (.of .restricted r)
  | .writeTemporary contents, r => some (.of (.written contents) r)
  | .syncTemporary, r => some (.of .flushed r)
  | .persist _ _, r => some (.of .renamed r)
  | .persistNoclobber _ _, r => some (.of .renamed r)
  | _, _ => none

/-- The steps of a run so far, with their results. -/
abbrev Past := List (Σ o : FsOp, o.Result)

/-- What has happened to the temporary files, in order. -/
def temporaryEvents (past : Past) : List TemporaryEvent :=
  past.filterMap fun step => temporaryEvent step.1 step.2

/-- The last temporary file is complete, and no other name shows it yet. -/
def Complete (contents : Bytes) (past : Past) : Prop :=
  [.created, .restricted, .written contents, .flushed] <:+ temporaryEvents past

/-- The last look at the parent directory found `existing`, and then it was created. -/
def ParentFound (existing : Option Bool) (past : Past) : Prop :=
  [⟨.parentMetadata, .ok existing⟩, ⟨.createDirAll, .ok ()⟩] <:+ past

/-- What a call is there for: the files that it may look at, what it may create where there is
no file, what it may put in a file's place after what it has found, and whether it may change
the permissions of a parent directory that it finds. -/
structure Purpose where
  uses : FileName → Bool
  creates : FileName → Bytes → Prop
  replaces : Past → FileName → Bytes → Prop
  harden : Bool

/-- There is something to write. -/
def Purpose.Writes (self : Purpose) : Prop :=
  ∃ f contents, self.creates f contents ∨ ∃ past, self.replaces past f contents

/-- What a step needs: a file of the call, and what has to come before it. -/
def Discreet (purpose : Purpose) (past : Past) : FsOp → Prop
  | .symlinkMetadata f | .openRead f | .openMetadata f | .readToEnd f | .syncFile f =>
      purpose.uses f = true
  | .openCreate f => purpose.creates f []
  | .tryLock | .unlock => purpose.uses .trustedPeersLock = true
  | .parentMetadata => True
  | .createDirAll | .createTemporary | .openParent | .syncParent => purpose.Writes
  | .setPermissions .temporary => [.created] <:+ temporaryEvents past
  | .writeTemporary _ => [.created, .restricted] <:+ temporaryEvents past
  | .syncTemporary => ∃ contents,
      [.created, .restricted, .written contents] <:+ temporaryEvents past
  | .persist f contents => purpose.replaces past f contents ∧ Complete contents past
  | .persistNoclobber f contents => purpose.creates f contents ∧ Complete contents past
  | .setPermissions (.file f) =>
      purpose.uses f = true ∧ [⟨.symlinkMetadata f, .ok (some .regular)⟩] <:+ past
  | .setPermissions .parent =>
      ParentFound none past ∨
        purpose.harden = true ∧ (ParentFound (some true) past ∨
          [⟨.parentMetadata, .ok (some true)⟩] <:+ past)

/-! ## The rules -/

/-- Every step of the program has what it needs, and what a success leaves behind is as
stated. -/
def Watched (purpose : Purpose) (x : FsProg ε α) (post : α → Past → Prop) (past : Past) : Prop :=
  (Monitor.history (Discreet purpose)).Guarded x.run
    (fun r past' => ∀ a, r = .ok a → post a past') past

/-- With no statement about the end, from anywhere. -/
def Disciplined (purpose : Purpose) (x : FsProg ε α) : Prop :=
  ∀ past, Watched purpose x (fun _ _ => True) past

variable {P : Purpose} {past : Past} {post post' : α → Past → Prop}

namespace Watched

theorem pure {a : α} (h : post a past) : Watched P (pure a : FsProg ε α) post past := by
  intro b hb
  cases hb
  exact h

theorem throw (e : ε) : Watched P (throw e : FsProg ε α) post past := by
  intro b hb
  cases hb

theorem mono {x : FsProg ε α} (h : Watched P x post past)
    (himp : ∀ a past', post a past' → post' a past') : Watched P x post' past :=
  Monitor.Guarded.mono h fun _ past' hpost a ha => himp a past' (hpost a ha)

/-- What has happened before has still happened at the end. -/
theorem grows {x : FsProg ε α} (h : Watched P x post past) :
    Watched P x (fun a past' => post a past' ∧ past <+: past') past :=
  Monitor.Guarded.mono (Monitor.Guarded.grows h) fun _ _ hpost a ha => ⟨hpost.1 a ha, hpost.2⟩

theorem bind {x : FsProg ε α} {f : α → FsProg ε β} {post : β → Past → Prop}
    (h : Watched P x (fun a past' => Watched P (f a) post past') past) :
    Watched P (x >>= f) post past := by
  refine Monitor.Guarded.andThen (Monitor.Guarded.mono h ?_)
  intro r past' hr
  cases r with
  | ok a => exact hr a rfl
  | error e =>
      intro b hb
      cases hb

theorem adapt {x : FsProg ε α} {g : ε → ε'} (h : Watched P x post past) :
    Watched P (ExceptT.adapt g x) post past := by
  refine Monitor.Guarded.adapt (Monitor.Guarded.mono h ?_)
  intro r past' hr a ha
  cases r with
  | ok b =>
      cases ha
      exact hr a rfl
  | error e => cases ha

/-- A step at the head of a program. -/
theorem call {o : FsOp} {f : o.Result → FsProg ε β} {post : β → Past → Prop}
    (ho : Discreet P past o)
    (h : ∀ r, Watched P (f r) post (past ++ [⟨o, r⟩])) :
    Watched P (Lib.call o >>= f) post past :=
  Monitor.Guarded.history ho h

theorem orElseFail {r : Except IoError α} {f : IoError → ε} (h : ∀ a, r = .ok a → post a past) :
    Watched P (orElseFail r f : FsProg ε α) post past := by
  cases r with
  | ok a => exact pure (h a rfl)
  | error e => exact throw _

/-- A step whose failure is passed on, in front of the rest of a program. -/
theorem step {o : FsOp} {f : IoError → ε} {g : α → FsProg ε β} {post : β → Past → Prop}
    (ho : Discreet P past o) (result : o.Result → Except IoError α)
    (h : ∀ r a, result r = .ok a → Watched P (g a) post (past ++ [⟨o, r⟩])) :
    Watched P (Lib.call o >>= fun r => LocalTransfer.orElseFail (result r) f >>= g)
      post past :=
  call ho fun r => bind (orElseFail (h r))

end Watched

namespace Disciplined

theorem pure (a : α) : Disciplined P (pure a : FsProg ε α) := fun _ => Watched.pure trivial

theorem throw (e : ε) : Disciplined P (throw e : FsProg ε α) := fun _ => Watched.throw e

theorem bind {x : FsProg ε α} {f : α → FsProg ε β} (hx : Disciplined P x)
    (hf : ∀ a, Disciplined P (f a)) : Disciplined P (x >>= f) :=
  fun past => Watched.bind ((hx past).mono fun a past' _ => hf a past')

/-- What follows depends on whether there is a value. -/
theorem bindOption {x : FsProg ε (Option α)} {f : Option α → FsProg ε β} (hx : Disciplined P x)
    (hsome : ∀ a, Disciplined P (f (some a))) (hnone : Disciplined P (f none)) :
    Disciplined P (x >>= f) := by
  refine hx.bind ?_
  intro found
  cases found with
  | none => exact hnone
  | some a => exact hsome a

theorem adapt {x : FsProg ε α} {g : ε → ε'} (hx : Disciplined P x) :
    Disciplined P (ExceptT.adapt g x) := fun past => (hx past).adapt

/-- A step that needs nothing before it. -/
theorem call {o : FsOp} {f : o.Result → FsProg ε β} (ho : ∀ past, Discreet P past o)
    (hf : ∀ r, Disciplined P (f r)) : Disciplined P (Lib.call o >>= f) :=
  fun past => Watched.call (ho past) fun r => hf r _

theorem orElseFail (r : Except IoError α) (f : IoError → ε) :
    Disciplined P (orElseFail r f : FsProg ε α) :=
  fun _ => Watched.orElseFail fun _ _ => trivial

/-- The same where a failure is passed on. -/
theorem step {o : FsOp} (ho : ∀ past, Discreet P past o)
    (result : o.Result → Except IoError α) (f : IoError → ε) :
    Disciplined P (Lib.call o >>= fun r => LocalTransfer.orElseFail (result r) f) :=
  call ho fun r => orElseFail (result r) f

/-- A program whose results are only renamed. -/
theorem map {x : FsProg ε α} (hx : Disciplined P x) (g : α → β) :
    Disciplined P (g <$> x) := hx.bind fun a => pure (g a)

end Disciplined

/-- A value that is there already, or an error. -/
theorem watched_value (r : Except ε α) (past : Past) :
    Watched P (ExceptT.mk (pure r)) (fun a _ => r = .ok a) past :=
  fun _ h => h

theorem disciplined_value (r : Except ε α) : Disciplined P (ExceptT.mk (pure r)) :=
  fun past => (watched_value r past).mono fun _ _ _ => trivial

/-! ## The helpers -/

theorem temporaryEvents_append (past past' : Past) :
    temporaryEvents (past ++ past') = temporaryEvents past ++ temporaryEvents past' :=
  List.filterMap_append

/-- An event follows those before it. -/
theorem suffix_event {events : List TemporaryEvent} (h : events <:+ temporaryEvents past)
    {o : FsOp} {r : o.Result} {event : TemporaryEvent} (hevent : temporaryEvent o r = some event) :
    events ++ [event] <:+ temporaryEvents (past ++ [⟨o, r⟩]) := by
  obtain ⟨before, hbefore⟩ := h
  have hlast : temporaryEvents [⟨o, r⟩] = [event] := List.filterMap_cons_some hevent
  refine ⟨before, ?_⟩
  rw [temporaryEvents_append, ← hbefore, hlast, List.append_assoc]

theorem disciplined_hardenExistingFile {f : FileName} (hf : P.uses f = true) :
    Disciplined P (hardenExistingFile f) := by
  intro past
  refine Watched.call hf ?_
  intro r
  match r with
  | .ok (some .regular) =>
      refine Watched.call ⟨hf, List.suffix_append _ _⟩ ?_
      exact fun r => Watched.orElseFail fun _ _ => trivial
  | .ok none | .ok (some .symlink) | .ok (some .other) => exact Watched.pure trivial
  | .error source => exact Watched.throw _

theorem disciplined_hardenExistingParent (h : P.harden = true) :
    Disciplined P hardenExistingParent := by
  intro past
  refine Watched.call trivial ?_
  intro r
  match r with
  | .ok (some true) =>
      refine Watched.call ?_ fun r => Watched.orElseFail fun _ _ => trivial
      exact .inr ⟨h, .inr (List.suffix_append _ _)⟩
  | .ok none | .ok (some false) => exact Watched.pure trivial
  | .error source => exact Watched.throw _

theorem disciplined_prepareParent {setting : Bool} (hwrites : P.Writes)
    (h : setting = true → P.harden = true) :
    Disciplined P (prepareParent setting) := by
  intro past
  refine Watched.step (o := .parentMetadata) trivial id ?_
  intro r existing hexisting
  cases hexisting
  refine Watched.step (o := .createDirAll) hwrites id ?_
  intro r _ hcreated
  cases hcreated
  have hfound : ParentFound existing
      (past ++ [⟨.parentMetadata, .ok existing⟩] ++ [⟨.createDirAll, .ok ()⟩]) :=
    ⟨past, List.append_cons _ _ _⟩
  split
  · rename_i hcase
    refine Watched.call ?_ fun r => Watched.orElseFail fun _ _ => trivial
    rcases hcase with rfl | ⟨hharden, rfl⟩
    · exact .inl hfound
    · exact .inr ⟨h hharden, .inl hfound⟩
  · exact Watched.pure trivial

/-- The temporary file is complete, and holds the contents. -/
theorem watched_createSyncedTemporary (setting : Bool) (hwrites : P.Writes)
    (h : setting = true → P.harden = true) (contents : Bytes) (past : Past) :
    Watched P (createSyncedTemporary contents setting)
      (fun temporary past' => temporary.contents = contents ∧ Complete contents past') past := by
  refine Watched.bind ((disciplined_prepareParent hwrites h past).mono ?_)
  intro _ past₁ _
  refine Watched.step (o := .createTemporary) hwrites id ?_
  intro r _ hr
  cases hr
  have hcreated := suffix_event (List.nil_suffix (l := temporaryEvents past₁))
    (o := .createTemporary) (r := .ok ()) rfl
  refine Watched.step (o := .setPermissions .temporary) hcreated id ?_
  intro r _ hr
  cases hr
  have hrestricted := suffix_event hcreated (o := .setPermissions .temporary) (r := .ok ()) rfl
  refine Watched.step (o := .writeTemporary contents) hrestricted id ?_
  intro r _ hr
  cases hr
  have hwritten := suffix_event hrestricted (o := .writeTemporary contents) (r := .ok ()) rfl
  refine Watched.step (o := .syncTemporary) ⟨contents, hwritten⟩ id ?_
  intro r _ hr
  cases hr
  exact Watched.pure ⟨rfl, suffix_event hwritten (o := .syncTemporary) (r := .ok ()) rfl⟩

/-! ## The trusted peers -/

namespace TrustedPeerStore

variable (self : TrustedPeerStore)

/-- The encoding of some records, in order and within the bounds. -/
def IsStoreFile (contents : Bytes) : Prop :=
  ∃ records : List TrustedPeerRecord, records.length ≤ maxTrustedPeers ∧
    contents = encode (sortByKey TrustedPeerRecord.identity records) ∧
    contents.length ≤ maxTrustedPeersStoreBytes

/-- What the steps have found at the path of the store. -/
inductive Found (past : Past) : Node → Prop
  | absent : ⟨.symlinkMetadata .trustedPeers, .ok none⟩ ∈ past → Found past .missing
  | opened {node : Node} : ⟨.openRead .trustedPeers, .ok node⟩ ∈ past → Found past node

/-- The set that the steps have read. -/
def HasRead (past : Past) (S : TrustedPeers) : Prop :=
  ∃ node, Found past node ∧ loadNode node = .ok S

theorem HasRead.mono {past past' : Past} {S : TrustedPeers} (h : HasRead past S)
    (hgrows : past <+: past') : HasRead past' S := by
  obtain ⟨node, hfound, hload⟩ := h
  refine ⟨node, ?_, hload⟩
  cases hfound with
  | absent hmem => exact .absent (hgrows.subset hmem)
  | opened hmem => exact .opened (hgrows.subset hmem)

/-- A load looks at the store file and writes nothing. -/
def reading : Purpose where
  uses f := f = .trustedPeers
  creates _ _ := False
  replaces _ _ _ := False
  harden := self.hardenExistingParent

/-- A mutation may create an empty lock file, and replaces the store file by its own update of
the set that it has read. -/
def mutating (m : Mutation) : Purpose where
  uses f := f = .trustedPeers ∨ f = .trustedPeersLock
  creates f contents := f = .trustedPeersLock ∧ contents = []
  replaces past f contents := f = .trustedPeers ∧ IsStoreFile contents ∧
    ∃ S T, HasRead past S ∧ m.next S = some T ∧ T.toMap = m.update S.toMap ∧
      contents = encode T.records
  harden := self.hardenExistingParent

variable {m : Mutation}

theorem writes_mutating : (self.mutating m).Writes := ⟨.trustedPeersLock, [], .inl ⟨rfl, rfl⟩⟩

/-- What is read is what was found. -/
theorem watched_readStoreBytes (h : P.uses .trustedPeers = true) (past : Past) :
    Watched P readStoreBytes (fun bytes past' => ∃ node, Found past' node ∧
      loadNode node = bytes.elim (.ok TrustedPeers.empty) decode) past := by
  unfold readStoreBytes
  refine Watched.call h ?_
  intro r
  match r with
  | .error _ | .ok (some .symlink) | .ok (some .other) => exact Watched.throw _
  | .ok none => exact Watched.pure ⟨.missing, .absent (by simp), rfl⟩
  | .ok (some .regular) =>
      refine Watched.call h ?_
      intro r
      match r with
      | .error _ => exact Watched.throw _
      | .ok .missing => exact Watched.pure ⟨.missing, .opened (by simp), rfl⟩
      | .ok (.regular contents) =>
          refine Watched.step (o := .openMetadata _) h id ?_
          intro _ _ _
          split
          · exact Watched.throw _
          · next hsize =>
            refine Watched.step (o := .readToEnd _) h id ?_
            intro _ _ _
            dsimp only
            split
            · exact Watched.throw _
            · refine Watched.pure ⟨.regular contents, .opened (by simp), ?_⟩
              show decode contents = decode (contents.take (maxTrustedPeersStoreBytes + 1))
              rw [List.take_of_length_le (by omega)]
      | .ok .symlink | .ok .other =>
          refine Watched.step (o := .openMetadata _) h id ?_
          exact fun _ _ _ => Watched.throw _

/-- What is loaded is what was read. -/
theorem watched_load (h : P.uses .trustedPeers = true)
    (hsetting : self.hardenExistingParent = true → P.harden = true) (past : Past) :
    Watched P (load self) (fun S past' => HasRead past' S) past := by
  have hread : ∀ {f : Option Bytes → StoreProg TrustedPeers}, f none = pure TrustedPeers.empty →
      (∀ bytes, f (some bytes) = ExceptT.mk (pure (decode bytes))) → ∀ past,
      Watched P (readStoreBytes >>= f) (fun S past' => HasRead past' S) past := by
    intro f hnone hsome past
    refine Watched.bind ((watched_readStoreBytes h past).mono ?_)
    intro bytes past' hfound
    obtain ⟨node, hfound, hload⟩ := hfound
    cases bytes with
    | none =>
        rw [hnone]
        exact Watched.pure ⟨node, hfound, hload⟩
    | some bytes =>
        rw [hsome]
        exact fun S hdecode => ⟨node, hfound, hload.trans hdecode⟩
  unfold load
  dsimp only
  split
  · rename_i hharden
    refine Watched.bind (((disciplined_hardenExistingParent (hsetting hharden)).adapt past).mono ?_)
    intro _ past₁ _
    refine Watched.bind (((disciplined_hardenExistingFile h).adapt past₁).mono ?_)
    exact fun _ past₂ _ => hread rfl (fun _ => rfl) past₂
  · exact hread rfl (fun _ => rfl) past

theorem disciplined_load (h : P.uses .trustedPeers = true)
    (hsetting : self.hardenExistingParent = true → P.harden = true) :
    Disciplined P (load self) :=
  fun past => (watched_load self h hsetting past).mono fun _ _ _ => trivial

theorem disciplined_openLockFile : Disciplined (self.mutating m) (openLockFile self) := by
  have huses : (self.mutating m).uses .trustedPeersLock = true := rfl
  have hcreates : (self.mutating m).creates .trustedPeersLock [] := ⟨rfl, rfl⟩
  have hopen : Disciplined (self.mutating m) (do
      ExceptT.adapt persistenceError (ensureHardenedParent self.hardenExistingParent)
      let kind ← orElseFail (← call (.openCreate .trustedPeersLock))
        (lockIoError "open the trusted-peer lock")
      orElseFail (← call (.openMetadata .trustedPeersLock))
        (lockIoError "inspect the trusted-peer lock")
      if kind ≠ .regular then throw (.notRegularFile lockPath)
      else ExceptT.adapt persistenceError (hardenExistingFile .trustedPeersLock) :
        StoreProg Unit) := by
    refine (disciplined_prepareParent self.writes_mutating id).adapt.bind ?_
    intro _
    refine (Disciplined.step (o := .openCreate _) (fun _ => hcreates) id _).bind ?_
    intro kind
    refine (Disciplined.step (o := .openMetadata _) (fun _ => huses) id _).bind ?_
    intro _
    split
    · exact Disciplined.throw _
    · exact (disciplined_hardenExistingFile huses).adapt
  unfold openLockFile
  refine Disciplined.call (fun _ => huses) ?_
  intro r
  match r with
  | .error _ | .ok (some .symlink) | .ok (some .other) => exact Disciplined.throw _
  | .ok none | .ok (some .regular) => exact hopen

theorem disciplined_lockExclusive : Disciplined (self.mutating m) (lockExclusive self) := by
  unfold lockExclusive
  refine (disciplined_openLockFile self).bind ?_
  intro _
  refine Disciplined.call (fun _ => rfl) ?_
  intro r
  match r with
  | .ok true => exact Disciplined.pure _
  | .ok false | .error _ => exact Disciplined.throw _

/-- Only the release follows the body. -/
theorem disciplined_releasing {body : StoreProg α} (h : Disciplined (self.mutating m) body) :
    Disciplined (self.mutating m) (releasing body) := by
  intro past
  refine Monitor.Guarded.bind (Monitor.Guarded.mono (h past) ?_)
  intro r past' _
  refine Monitor.Guarded.history (o := FsOp.unlock) ?_ ?_
  · rfl
  · exact fun _ _ _ => trivial

theorem disciplined_syncParentDirectory (h : P.Writes) :
    Disciplined P syncParentDirectory :=
  (Disciplined.step (o := .openParent) (fun _ => h) id id).bind fun _ =>
    Disciplined.step (o := .syncParent) (fun _ => h) id id

/-- The update of a set that was read is written. -/
theorem watched_writeAll {past : Past} {records : List TrustedPeerRecord} {S T : TrustedPeers}
    (hread : HasRead past S) (hnext : m.next S = some T)
    (hrecords : sortByKey TrustedPeerRecord.identity records = T.records) :
    Watched (self.mutating m) (writeAll self records) (fun _ _ => True) past := by
  unfold writeAll
  split
  · exact Watched.throw _
  · next hcount =>
    dsimp only
    split
    · exact Watched.throw _
    · next hsize =>
      have hfile : IsStoreFile (encode (sortByKey TrustedPeerRecord.identity records)) :=
        ⟨records, Nat.le_of_not_gt hcount, rfl, Nat.le_of_not_gt hsize⟩
      have htemporary := watched_createSyncedTemporary self.hardenExistingParent
        (self.writes_mutating (m := m)) id
        (encode (sortByKey TrustedPeerRecord.identity records)) past
      refine Watched.bind (htemporary.grows.adapt.mono ?_)
      intro temporary past' htemporary
      obtain ⟨⟨hcontents, hcomplete⟩, hgrows⟩ := htemporary
      rw [hcontents]
      have hreplaces : (self.mutating m).replaces past' .trustedPeers
          (encode (sortByKey TrustedPeerRecord.identity records)) :=
        ⟨rfl, hfile, S, T, hread.mono hgrows, hnext, toMap_next hnext, by rw [hrecords]⟩
      refine Watched.step (o := .persist _ _) ⟨hreplaces, hcomplete⟩ id ?_
      intro r _ _
      have huses : (self.mutating m).uses .trustedPeers = true := rfl
      refine Disciplined.bind (Disciplined.step (o := .syncFile _) (fun _ => huses) id _) ?_ _
      exact fun _ => (disciplined_syncParentDirectory self.writes_mutating).adapt

theorem disciplined_mutation (m : Mutation) : Disciplined (self.mutating m) (m.code self) := by
  have hlocked : ∀ {γ : Type} {body : StoreProg γ}, Disciplined (self.mutating m) body →
      Disciplined (self.mutating m) (lockExclusive self >>= fun _ => releasing body) :=
    fun hbody => (disciplined_lockExclusive self).bind fun _ => disciplined_releasing self hbody
  cases m with
  | store record =>
      refine (hlocked ?_).map _
      intro past
      refine Watched.bind ((watched_load self rfl id past).mono ?_)
      exact fun S past' hread => self.watched_writeAll hread rfl rfl
  | remove identity =>
      refine (hlocked ?_).map _
      intro past
      refine Watched.bind ((watched_load self rfl id past).mono ?_)
      intro S past' hread
      by_cases hcontains : S.contains identity
      · have hnext : (Mutation.remove identity).next S = some (S.without identity) :=
          if_pos hcontains
        have hsorted := (S.without identity).ordered.sortByKey_eq
        simp only [hcontains, Bool.not_true, Bool.false_eq_true, if_false]
        refine Watched.bind ((self.watched_writeAll hread hnext hsorted).mono ?_)
        exact fun _ _ _ => Watched.pure trivial
      · simp only [hcontains, Bool.not_false, if_true]
        exact Watched.pure trivial

end TrustedPeerStore

/-! ## The local device -/

theorem disciplined_readToString (target : Node) {f : FileName} (h : P.uses f = true) :
    Disciplined P (readToString target f) := by
  unfold readToString
  refine (Disciplined.step (o := .openRead _) (fun _ => h) id _).bind ?_
  intro node
  split
  · exact Disciplined.pure _
  · refine (Disciplined.step (o := .readToEnd _) (fun _ => h) id _).bind ?_
    intro _
    split
    · exact Disciplined.pure _
    · exact Disciplined.throw _
  · exact (Disciplined.step (o := .readToEnd _) (fun _ => h) id _).bind fun _ =>
      Disciplined.throw _
  · exact (Disciplined.step (o := .readToEnd _) (fun _ => h) id _).bind fun _ =>
      Disciplined.throw _

namespace ValueFile

variable (F : ValueFile ε α) (target : Node) {setting : Bool}

theorem disciplined_loadExistingAfterRace (huses : P.uses F.file = true) :
    Disciplined P (F.loadExistingAfterRace target) := by
  unfold loadExistingAfterRace
  refine (disciplined_hardenExistingFile huses).adapt.bind ?_
  intro _
  have hread := disciplined_readToString (P := P) target huses
  exact hread.adapt.bindOption (fun contents => disciplined_value _) (Disciplined.throw _)

theorem disciplined_create (huses : P.uses F.file = true) {value : α}
    (hcreates : P.creates F.file (F.encoded value)) (h : setting = true → P.harden = true) :
    Disciplined P (F.create target setting value) := by
  intro past
  have htemporary := watched_createSyncedTemporary setting ⟨F.file, _, .inl hcreates⟩ h
    (F.encoded value) past
  refine Watched.bind (htemporary.adapt.mono ?_)
  intro temporary past' htemporary
  obtain ⟨hcontents, hcomplete⟩ := htemporary
  rw [hcontents]
  refine Watched.call ⟨hcreates, hcomplete⟩ ?_
  intro r
  match r with
  | .ok true =>
      refine Disciplined.bind (Disciplined.step (o := .syncFile _) (fun _ => huses) id _) ?_ _
      exact fun _ => Disciplined.pure _
  | .ok false => exact F.disciplined_loadExistingAfterRace target huses _
  | .error _ => exact Watched.throw _

theorem disciplined_loadOrCreate (huses : P.uses F.file = true) {initial : α}
    (hcreates : P.creates F.file (F.encoded initial)) (h : setting = true → P.harden = true) :
    Disciplined P (F.loadOrCreate target setting initial) := by
  have hread : ∀ {f : Option Text → FsProg ε α}, (∀ contents, Disciplined P (f (some contents))) →
      Disciplined P (f none) → Disciplined P (do
        ExceptT.adapt F.persistenceError (hardenExistingFile F.file)
        let contents ← ExceptT.adapt (F.ioError F.reading) (readToString target F.file)
        f contents) := by
    intro f hsome hnone
    refine (disciplined_hardenExistingFile huses).adapt.bind ?_
    intro _
    exact (disciplined_readToString target huses).adapt.bindOption hsome hnone
  have hcreate : Disciplined P (F.create target setting initial) :=
    F.disciplined_create target huses hcreates h
  unfold loadOrCreate
  dsimp only
  split
  · rename_i hsetting
    refine (disciplined_hardenExistingParent (h hsetting)).adapt.bind ?_
    exact fun _ => hread (fun contents => disciplined_value _) hcreate
  · exact hread (fun contents => disciplined_value _) hcreate

end ValueFile

namespace LocalDeviceManager

variable (self : LocalDeviceManager)

/-- A load may create its two files, and replaces none. -/
def loading (random : DeviceId U) : Purpose where
  uses f := f = .deviceId ∨ f = .deviceName
  creates f contents :=
    f = .deviceId ∧ contents = (DeviceIdStore.valueFile U).encoded random ∨
      f = .deviceName ∧ contents = DeviceNameStore.valueFile.encoded .default
  replaces _ _ _ := False
  harden := self.idStore.hardenExistingParent || self.nameStore.hardenExistingParent

/-- A new name replaces the old one, without a look at it or at the identifier. -/
def updating (value : Text) : Purpose where
  uses f := f = .deviceName
  creates _ _ := False
  replaces _ f contents := f = .deviceName ∧
    ∃ name, DeviceName.new value = .ok name ∧ contents = DeviceNameStore.valueFile.encoded name
  harden := self.nameStore.hardenExistingParent

theorem disciplined_load (links : FileName → Node) (random : DeviceId U) :
    Disciplined (self.loading random) (self.load links random) := by
  have hid : (self.loading random).creates .deviceId
      ((DeviceIdStore.valueFile U).encoded random) := .inl ⟨rfl, rfl⟩
  have hname : (self.loading random).creates .deviceName
      (DeviceNameStore.valueFile.encoded .default) := .inr ⟨rfl, rfl⟩
  refine (disciplined_value _).bind ?_
  intro platform
  refine (ValueFile.disciplined_loadOrCreate _ _ rfl hid ?_).adapt.bind ?_
  · exact fun h => Bool.or_eq_true_iff.mpr (.inl h)
  · intro id
    refine (ValueFile.disciplined_loadOrCreate _ _ rfl hname ?_).adapt.bind ?_
    · exact fun h => Bool.or_eq_true_iff.mpr (.inr h)
    · exact fun name => Disciplined.pure _

theorem disciplined_updateName (value : Text) :
    Disciplined (self.updating value) (self.updateName value) := by
  refine Disciplined.adapt ?_
  intro past
  refine Watched.bind ((watched_value _ past).mono ?_)
  intro name past₁ hvalue
  have hname : DeviceName.new value = .ok name := by
    cases hnew : DeviceName.new value with
    | error e =>
        rw [hnew] at hvalue
        cases hvalue
    | ok other =>
        rw [hnew] at hvalue
        cases hvalue
        rfl
  have hreplaces : ∀ past, (self.updating value).replaces past .deviceName
      (DeviceNameStore.valueFile.encoded name) := fun _ => ⟨rfl, name, hname, rfl⟩
  have htemporary := watched_createSyncedTemporary
    self.nameStore.hardenExistingParent ⟨.deviceName, _, .inr ⟨[], hreplaces []⟩⟩ id
    (DeviceNameStore.valueFile.encoded name) past₁
  refine Watched.bind (htemporary.adapt.mono ?_)
  intro temporary past₂ hwritten
  obtain ⟨hcontents, hcomplete⟩ := hwritten
  rw [hcontents]
  refine Watched.step (o := .persist _ _) ⟨hreplaces _, hcomplete⟩ id ?_
  intro r _ _
  have huses : (self.updating value).uses .deviceName = true := rfl
  refine Disciplined.bind (Disciplined.step (o := .syncFile _) (fun _ => huses) id _) ?_ _
  exact fun _ => Disciplined.pure _

end LocalDeviceManager

/-! ## Every call -/

/-- A call on a store of the configuration directory. -/
inductive ConfigCall (U : UuidCrate)
  | loadPeers (store : TrustedPeerStore)
  | mutatePeers (store : TrustedPeerStore) (m : Mutation)
  | loadDevice (manager : LocalDeviceManager) (links : FileName → Node) (random : DeviceId U)
  | updateName (manager : LocalDeviceManager) (value : Text)

namespace ConfigCall

abbrev Return : ConfigCall U → Type
  | .loadPeers _ => Except TrustedPeerStoreError TrustedPeers
  | .mutatePeers _ _ => Except TrustedPeerStoreError Reply
  | .loadDevice _ _ _ => Except LocalDeviceError (LocalDevice U)
  | .updateName _ _ => Except LocalDeviceError DeviceName

def code : (c : ConfigCall U) → Prog FsOp FsOp.Result c.Return
  | .loadPeers store => (TrustedPeerStore.load store).run
  | .mutatePeers store m => (m.code store).run
  | .loadDevice manager links random => (manager.load links random).run
  | .updateName manager value => (manager.updateName value).run

def purpose : ConfigCall U → Purpose
  | .loadPeers store => store.reading
  | .mutatePeers store m => store.mutating m
  | .loadDevice manager _ random => manager.loading random
  | .updateName manager value => manager.updating value

theorem guarded (c : ConfigCall U) : (Monitor.history (Discreet c.purpose)).Guarded c.code
    (fun _ _ => True) [] := by
  have hany : ∀ {γ δ : Type} {x : FsProg γ δ}, Disciplined c.purpose x →
      (Monitor.history (Discreet c.purpose)).Guarded x.run (fun _ _ => True) [] :=
    fun hx => Monitor.Guarded.mono (hx []) fun _ _ _ => trivial
  cases c with
  | loadPeers store => exact hany (store.disciplined_load rfl id)
  | mutatePeers store m => exact hany (store.disciplined_mutation m)
  | loadDevice manager links random => exact hany (manager.disciplined_load links random)
  | updateName manager value => exact hany (manager.disciplined_updateName value)

end ConfigCall

/-- Whatever the steps of a call return, each of its steps has what it needs. -/
theorem store_calls_discreet (c : ConfigCall U) (sem : (o : FsOp) → A → σ → o.Result × σ)
    (oracle : Nat → A) (s : σ) {before after : Past} {step : Σ o : FsOp, o.Result}
    (h : c.code.trace sem oracle s = before ++ step :: after) :
    Discreet c.purpose before step.1 := by
  obtain ⟨last, hrun, -⟩ := c.guarded.run_trace sem oracle s
  rw [h] at hrun
  exact Monitor.allowed_of_run_history hrun

/-- A record is stored in a directory that was missing. -/
theorem store_calls_discreet_renamed :
    let record : TrustedPeerRecord := ⟨⟨1, [1], by decide, by decide⟩, none⟩
    let store : TrustedPeerStore := ⟨true⟩
    ∃ before, Discreet (store.mutating (.store record)) before
      (.persist .trustedPeers (encode [record])) := by
  intro record store
  let U : UuidCrate := ⟨fun _ => none⟩
  let c : ConfigCall U := .mutatePeers store (.store record)
  have hpersists : FsOp.persist .trustedPeers (encode [record]) ∈
      (c.code.trace (Fs.step ()) (fun _ => ⟨none, none⟩)
        ⟨fun _ => .missing, fun _ => .missing, none⟩).map Sigma.fst := by decide +kernel
  obtain ⟨step, hstep, hpersist⟩ := List.mem_map.mp hpersists
  obtain ⟨before, after, htrace⟩ := List.append_of_mem hstep
  have hdiscreet := store_calls_discreet c _ _ _ htrace
  rw [hpersist] at hdiscreet
  exact ⟨before, hdiscreet⟩

end LocalTransfer
