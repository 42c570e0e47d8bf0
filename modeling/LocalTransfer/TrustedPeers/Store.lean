import LocalTransfer.TrustedPeers.Codec

/-!
# The trusted-peer store

`TrustedPeerStore` as programs over the filesystem: the lock-free `load`, and the
locked transactions `store` and `remove`. A guard is released on every path out of
the transaction that took it, as dropping it does.
-/

namespace LocalTransfer

open Lib TrustedPeers

/-- The outcome of a removal. -/
inductive TrustedPeerRemoval
  | removed
  | alreadyAbsent
  deriving DecidableEq, Repr

/-- The store at its one path. -/
structure TrustedPeerStore where
  hardenExistingParent : Bool

/-- A program of the store. -/
abbrev StoreProg := FsProg TrustedPeerStoreError

/-! ## Errors -/

def storePath : FsPath := .file .trustedPeers
def lockPath : FsPath := .file .trustedPeersLock

def ioError (operation : String) (source : IoError) : TrustedPeerStoreError :=
  .io operation storePath source

def lockIoError (operation : String) (source : IoError) : TrustedPeerStoreError :=
  .io operation lockPath source

def operationText : PersistenceOperation → String
  | .inspectDirectory => "inspect trusted-peer store directory"
  | .createDirectory => "create trusted-peer store directory"
  | .hardenDirectory => "harden trusted-peer store directory permissions"
  | .hardenFile => "harden trusted-peer store file permissions"
  | .createTemporary => "create temporary trusted-peer store"
  | .writeTemporary => "write temporary trusted-peer store"
  | .syncTemporary => "sync temporary trusted-peer store"

def persistenceError (error : PersistenceError) : TrustedPeerStoreError :=
  .io (operationText error.operation) error.path error.source

namespace TrustedPeerStore

/-! ## Reading -/

/-- `read_store_bytes`: `none` when the file does not exist. -/
def readStoreBytes : StoreProg (Option Bytes) := do
  match (← call (.symlinkMetadata .trustedPeers) : Except IoError (Option FileKind)) with
  | .error source => throw (ioError "inspect trusted-peer store" source)
  | .ok none => pure none
  | .ok (some .symlink) => throw (.symlinkNotAllowed storePath)
  | .ok (some .other) => throw (.notRegularFile storePath)
  | .ok (some .regular) =>
      match (← call (.openRead .trustedPeers) : Except IoError Node) with
      | .error source => throw (ioError "open trusted-peer store" source)
      | .ok .missing => pure none
      | .ok (.regular contents) => do
          orElseFail (← call (.openMetadata .trustedPeers))
            (ioError "inspect open trusted-peer store")
          if contents.length > maxTrustedPeersStoreBytes then
            throw (.storeTooLarge contents.length maxTrustedPeersStoreBytes)
          else do
            orElseFail (← call (.readToEnd .trustedPeers)) (ioError "read trusted-peer store")
            let bytes := contents.take (maxTrustedPeersStoreBytes + 1)
            if bytes.length > maxTrustedPeersStoreBytes then
              throw (.storeTooLarge bytes.length maxTrustedPeersStoreBytes)
            else pure (some bytes)
      | .ok _ => do
          orElseFail (← call (.openMetadata .trustedPeers))
            (ioError "inspect open trusted-peer store")
          throw (.notRegularFile storePath)

/-- `load`. -/
def load (store : TrustedPeerStore) : StoreProg TrustedPeers := do
  if store.hardenExistingParent then do
    ExceptT.adapt persistenceError LocalTransfer.hardenExistingParent
    ExceptT.adapt persistenceError (hardenExistingFile .trustedPeers)
  else pure ()
  match ← readStoreBytes with
  | some bytes => ExceptT.mk (pure (decode bytes))
  | none => pure TrustedPeers.empty

/-! ## Locking -/

/-- `open_lock_file`. -/
def openLockFile (store : TrustedPeerStore) : StoreProg Unit := do
  match (← call (.symlinkMetadata .trustedPeersLock) : Except IoError (Option FileKind)) with
  | .error source => throw (lockIoError "inspect the trusted-peer lock" source)
  | .ok (some .symlink) => throw (.symlinkNotAllowed lockPath)
  | .ok (some .other) => throw (.notRegularFile lockPath)
  | .ok _ => do
      ExceptT.adapt persistenceError (ensureHardenedParent store.hardenExistingParent)
      let kind ← orElseFail (← call (.openCreate .trustedPeersLock))
        (lockIoError "open the trusted-peer lock")
      orElseFail (← call (.openMetadata .trustedPeersLock))
        (lockIoError "inspect the trusted-peer lock")
      if kind ≠ .regular then throw (.notRegularFile lockPath)
      else ExceptT.adapt persistenceError (hardenExistingFile .trustedPeersLock)

/-- `lock_exclusive`: takes the lock or reports the store busy, without waiting. -/
def lockExclusive (store : TrustedPeerStore) : StoreProg Unit := do
  openLockFile store
  match (← call .tryLock : Except IoError Bool) with
  | .ok true => pure ()
  | .ok false => throw .storeBusy
  | .error source => throw (lockIoError "lock the trusted-peer store" source)

/-- Runs the rest of a transaction and releases the lock, whatever comes of it. -/
def releasing {α : Type} (body : StoreProg α) : StoreProg α :=
  ExceptT.mk (body.run >>= fun result => Prog.op .unlock fun _ => .ret result)

/-! ## Mutations -/

/-- `write_all`. -/
def writeAll (store : TrustedPeerStore) (records : List TrustedPeerRecord) : StoreProg Unit := do
  if records.length > maxTrustedPeers then
    throw (.capacityExceeded records.length maxTrustedPeers)
  else do
    let bytes := encode (sortByKey TrustedPeerRecord.identity records)
    if bytes.length > maxTrustedPeersStoreBytes then
      throw (.storeTooLarge bytes.length maxTrustedPeersStoreBytes)
    else do
      let temporary ← ExceptT.adapt persistenceError
        (createSyncedTemporary bytes store.hardenExistingParent)
      orElseFail (← call (.persist .trustedPeers temporary.contents))
        (ioError "replace trusted-peer store")
      orElseFail (← call (.syncFile .trustedPeers)) (ioError "sync trusted-peer store")
      ExceptT.adapt (ioError "sync trusted-peer store directory") syncParentDirectory

/-- `store`. -/
def store (self : TrustedPeerStore) (record : TrustedPeerRecord) : StoreProg Unit := do
  lockExclusive self
  releasing do
    let current ← load self
    writeAll self (current.stored record)

/-- `remove`. -/
def remove (self : TrustedPeerStore) (identity : PeerKeyIdentity) :
    StoreProg TrustedPeerRemoval := do
  lockExclusive self
  releasing do
    let current ← load self
    if !current.contains identity then pure .alreadyAbsent
    else do
      writeAll self (current.remaining identity)
      pure .removed

end TrustedPeerStore

end LocalTransfer
