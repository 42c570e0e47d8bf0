import LocalTransfer.Lib.Interleave
import LocalTransfer.Lib.Text

/-!
# The filesystem and the shared persistence steps

The filesystem operations of `persistence.rs` and of the stores built on it, each a
single step that may fail, and the helper functions of that module as programs over
them. A file's visible content is what its path names now; its durable content is
what a crash goes back to, and only a directory sync moves it forward.

Two things stay outside the state: the parent directory, about which the environment
answers every metadata call, and the temporary file, which no other step can see
before it is renamed. Every path here has a parent directory, so the
`InvalidPath` error of a path without one does not arise.
-/

namespace LocalTransfer

open Lib

/-- An operating-system error the code does not tell apart from others. -/
structure IoError where
  code : Nat
  deriving DecidableEq, Repr

/-- What a metadata call reports about an existing path. -/
inductive FileKind
  | regular
  | symlink
  | other
  deriving DecidableEq, Repr

/-- What a path names. -/
inductive Node
  | missing
  | regular (contents : Bytes)
  | symlink
  | other
  deriving DecidableEq

def Node.kind : Node → Option FileKind
  | .missing => none
  | .regular _ => some .regular
  | .symlink => some .symlink
  | .other => some .other

/-- The files of the configuration directory. -/
inductive FileName
  | trustedPeers
  | trustedPeersLock
  | deviceId
  | deviceName
  deriving DecidableEq, Repr

/-- The paths an error can name. -/
inductive FsPath
  | file (f : FileName)
  | parent
  | temporary
  deriving DecidableEq, Repr

/-! ## Operations -/

/-- One step against the filesystem. A missing path is a result of the calls that
look for it, not an error. -/
inductive FsOp
  | symlinkMetadata (f : FileName)
  | parentMetadata
  | createDirAll
  | setPermissions (p : FsPath)
  | openRead (f : FileName)
  | openCreate (f : FileName)
  | openMetadata (f : FileName)
  | readToEnd (f : FileName)
  | createTemporary
  | writeTemporary (contents : Bytes)
  | syncTemporary
  | tryLock
  | unlock
  | persist (f : FileName) (contents : Bytes)
  | persistNoclobber (f : FileName) (contents : Bytes)
  | syncFile (f : FileName)
  | openParent
  | syncParent
  deriving DecidableEq

/-- What a step returns. Opening a file for reading pins what the path names at that
moment; a lock attempt reports whether the lock was taken, a no-clobber rename
whether the path was free. -/
abbrev FsOp.Result : FsOp → Type
  | .symlinkMetadata _ => Except IoError (Option FileKind)
  | .parentMetadata => Except IoError (Option Bool)
  | .openRead _ => Except IoError Node
  | .openCreate _ => Except IoError FileKind
  | .tryLock | .persistNoclobber _ _ => Except IoError Bool
  | .unlock => Unit
  | _ => Except IoError Unit

/-- The environment's part in one step: an error to inject, and what a metadata call
reports about the parent directory. -/
structure Answer where
  error : Option IoError
  parent : Option Bool

/-- No step fails. -/
def Answer.Faultless (a : Answer) : Prop := a.error = none

/-- What the environment may answer: errors only where faults are allowed. -/
abbrev Env (faults : Prop) := { a : Answer // faults ∨ a.Faultless }

/-- The answer of an environment in which nothing fails. -/
def Env.calm {faults : Prop} : Env faults := ⟨⟨none, none⟩, .inr rfl⟩

/-- The filesystem as the stores see it. -/
structure Fs (Pid : Type) where
  node : FileName → Node
  durable : FileName → Node
  lockOwner : Option Pid

variable {Pid : Type} {α ε : Type}

namespace Fs

def setNode (s : Fs Pid) (f : FileName) (n : Node) : Fs Pid :=
  { s with node := Function.update s.node f n }

/-- A step either fails, changing nothing, or has its effect. -/
def settle (a : Answer) (s : Fs Pid) (r : α) (s' : Fs Pid) : Except IoError α × Fs Pid :=
  match a.error with
  | some e => (.error e, s)
  | none => (.ok r, s')

/-- The effect of one step of process `p`. That a rename onto a directory is refused is
one of the errors the environment can inject. -/
def step [DecidableEq Pid] (p : Pid) : (o : FsOp) → Answer → Fs Pid → o.Result × Fs Pid
  | .symlinkMetadata f, a, s => settle a s (s.node f).kind s
  | .parentMetadata, a, s => settle a s a.parent s
  | .createDirAll, a, s => settle a s () s
  | .setPermissions _, a, s => settle a s () s
  | .openRead f, a, s => settle a s (s.node f) s
  | .openCreate f, a, s =>
      match s.node f with
      | .missing => settle a s .regular (s.setNode f (.regular []))
      | .regular _ => settle a s .regular s
      | .symlink => settle a s .symlink s
      | .other => settle a s .other s
  | .openMetadata _, a, s => settle a s () s
  | .readToEnd _, a, s => settle a s () s
  | .createTemporary, a, s => settle a s () s
  | .writeTemporary _, a, s => settle a s () s
  | .syncTemporary, a, s => settle a s () s
  | .tryLock, a, s =>
      match s.lockOwner with
      | none => settle a s true { s with lockOwner := some p }
      | some _ => settle a s false s
  | .unlock, _, s => ((), if s.lockOwner = some p then { s with lockOwner := none } else s)
  | .persist f contents, a, s => settle a s () (s.setNode f (.regular contents))
  | .persistNoclobber f contents, a, s =>
      match s.node f with
      | .missing => settle a s true (s.setNode f (.regular contents))
      | _ => settle a s false s
  | .syncFile _, a, s => settle a s () s
  | .openParent, a, s => settle a s () s
  | .syncParent, a, s => settle a s () { s with durable := s.node }

@[simp] theorem setNode_node (s : Fs Pid) (f : FileName) (n : Node) :
    (s.setNode f n).node = Function.update s.node f n := rfl
@[simp] theorem setNode_durable (s : Fs Pid) (f : FileName) (n : Node) :
    (s.setNode f n).durable = s.durable := rfl
@[simp] theorem setNode_lockOwner (s : Fs Pid) (f : FileName) (n : Node) :
    (s.setNode f n).lockOwner = s.lockOwner := rfl

/-- A step has its effect, or it changes nothing and an error was injected. -/
theorem settle_cases {a : Answer} {s s' s'' : Fs Pid} {r : α} {x : Except IoError α}
    (h : settle a s r s' = (x, s'')) :
    (x = .ok r ∧ s'' = s') ∨ ∃ e, x = .error e ∧ s'' = s ∧ ¬ a.Faultless := by
  unfold settle at h
  cases herror : a.error with
  | none =>
      rw [herror] at h
      cases h
      exact .inl ⟨rfl, rfl⟩
  | some e =>
      rw [herror] at h
      cases h
      exact .inr ⟨e, rfl, rfl, by simp [Answer.Faultless, herror]⟩

/-- What a crash of the machine leaves: the durable contents and no lock. -/
def crash (s : Fs Pid) : Fs Pid := { s with node := s.durable, lockOwner := none }

end Fs

/-! ## Programs -/

/-- A program over the filesystem. -/
abbrev FsProg (ε : Type) := Fallible FsOp FsOp.Result ε

/-- The `?` operator on a step's result, with the error it is mapped to. -/
def orElseFail (r : Except IoError α) (f : IoError → ε) : FsProg ε α :=
  match r with
  | .ok a => pure a
  | .error e => throw (f e)

inductive PersistenceOperation
  | inspectDirectory
  | createDirectory
  | hardenDirectory
  | hardenFile
  | createTemporary
  | writeTemporary
  | syncTemporary
  deriving DecidableEq, Repr

/-- `PersistenceError::Io`. -/
structure PersistenceError where
  operation : PersistenceOperation
  path : FsPath
  source : IoError
  deriving DecidableEq, Repr

/-- `NamedTempFile`: a temporary file with the contents written to it. -/
structure NamedTempFile where
  contents : Bytes

def hardenExistingFile (f : FileName) : FsProg PersistenceError Unit := do
  match (← call (.symlinkMetadata f) : Except IoError (Option FileKind)) with
  | .ok (some .regular) =>
      orElseFail (← call (.setPermissions (.file f))) (⟨.hardenFile, .file f, ·⟩)
  | .ok _ => pure ()
  | .error source => throw ⟨.hardenFile, .file f, source⟩

def hardenExistingParent : FsProg PersistenceError Unit := do
  match (← call .parentMetadata : Except IoError (Option Bool)) with
  | .ok (some true) =>
      orElseFail (← call (.setPermissions .parent)) (⟨.hardenDirectory, .parent, ·⟩)
  | .ok _ => pure ()
  | .error source => throw ⟨.inspectDirectory, .parent, source⟩

def prepareParent (hardenExistingParent : Bool) : FsProg PersistenceError Unit := do
  let existingDirectory ←
    orElseFail (← call .parentMetadata) (⟨.inspectDirectory, .parent, ·⟩)
  orElseFail (← call .createDirAll) (⟨.createDirectory, .parent, ·⟩)
  if existingDirectory = none ∨ (hardenExistingParent ∧ existingDirectory = some true) then
    orElseFail (← call (.setPermissions .parent)) (⟨.hardenDirectory, .parent, ·⟩)
  else pure ()

def ensureHardenedParent (hardenExisting : Bool) : FsProg PersistenceError Unit :=
  prepareParent hardenExisting

def createSyncedTemporary (contents : Bytes) (hardenExistingParent : Bool) :
    FsProg PersistenceError NamedTempFile := do
  prepareParent hardenExistingParent
  orElseFail (← call .createTemporary) (⟨.createTemporary, .parent, ·⟩)
  orElseFail (← call (.setPermissions .temporary)) (⟨.hardenFile, .temporary, ·⟩)
  orElseFail (← call (.writeTemporary contents)) (⟨.writeTemporary, .temporary, ·⟩)
  orElseFail (← call .syncTemporary) (⟨.syncTemporary, .temporary, ·⟩)
  pure ⟨contents⟩

/-- `sync_parent_directory` on Unix: opens the directory and syncs it. -/
def syncParentDirectory : FsProg IoError Unit := do
  orElseFail (← call .openParent) id
  orElseFail (← call .syncParent) id

end LocalTransfer
