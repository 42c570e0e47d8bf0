import LocalTransfer.Lib.Hex
import LocalTransfer.LocalDevice.DeviceName
import LocalTransfer.Persistence.Strict

/-!
# The stores of the local device

`identity.rs`, `device_name.rs` and `local_device.rs` as programs over the filesystem. Each
store keeps one value in one file and reads and creates it the same way; `ValueFile` is
that common part, and each store's functions are its definitions at the store's own file,
format and errors.

The UUID library is a parameter, as far as the code uses it. What a symbolic link at one of
the paths leads to is a parameter too: every step here replaces a link or leaves it alone,
none writes through it.
-/

namespace LocalTransfer

open Lib

/-! ## Platform -/

inductive Platform
  | macOs
  | windows
  | linux
  deriving DecidableEq, Repr

structure UnsupportedPlatformError where
  targetOs : Text
  deriving DecidableEq

def Platform.fromTargetOs (targetOs : Text) : Except UnsupportedPlatformError Platform :=
  if targetOs = "macos".toList then .ok .macOs
  else if targetOs = "windows".toList then .ok .windows
  else if targetOs = "linux".toList then .ok .linux
  else .error ⟨targetOs⟩

/-! ## Device identifiers -/

/-- The parser of the `uuid` crate, which accepts several forms. -/
structure UuidCrate where
  parseStr : Text → Option Uuid

/-- Parsing inverts formatting. -/
def UuidCrate.RoundTrips (U : UuidCrate) : Prop :=
  ∀ uuid, U.parseStr uuid.hyphenated = some uuid

/-- A randomly generated identifier: `new_v4` and the parser yield version 4 only. -/
structure DeviceId (U : UuidCrate) where
  uuid : Uuid
  version : uuid.getVersionNum = 4

inductive ParseDeviceIdError
  | notCanonical
  deriving DecidableEq, Repr

namespace DeviceId

variable {U : UuidCrate}

/-- `Display`. -/
def display (id : DeviceId U) : Text := id.uuid.hyphenated

/-- `FromStr`. -/
def fromStr (value : Text) : Except ParseDeviceIdError (DeviceId U) :=
  match U.parseStr value with
  | none => .error .notCanonical
  | some uuid =>
      if h : value ≠ uuid.hyphenated ∨ uuid.getVersionNum ≠ 4 then .error .notCanonical
      else .ok ⟨uuid, not_not.mp (not_or.mp h).2⟩

theorem fromStr_display (hU : U.RoundTrips) (id : DeviceId U) : fromStr id.display = .ok id := by
  obtain ⟨uuid, hversion⟩ := id
  simp [fromStr, display, hU uuid, hversion]

end DeviceId

/-! ## One value in one file -/

/-- `ErrorKind::NotFound`, `IsADirectory` and `InvalidData` where they are passed on. -/
def IoError.notFound : IoError := ⟨2⟩
def IoError.isADirectory : IoError := ⟨21⟩
def IoError.invalidData : IoError := ⟨84⟩

/-- `contents.strip_suffix('\\n').unwrap_or(contents)`. -/
def withoutLineFeed (contents : Text) : Text :=
  if contents.getLast? = some '\n' then contents.dropLast else contents

@[simp] theorem withoutLineFeed_append (text : Text) : withoutLineFeed (text ++ ['\n']) = text := by
  simp [withoutLineFeed]

/-- What a read finds at a path, where a link leads to `target`. -/
def Node.follow (node target : Node) : Node :=
  match node with
  | .symlink => target
  | node => node

/-- `fs::read_to_string`: `none` when there is no file. -/
def readToString (target : Node) (f : FileName) : FsProg IoError (Option Text) := do
  let node ← orElseFail (← call (.openRead f)) id
  match node.follow target with
  | .missing => pure none
  | .regular contents => do
      orElseFail (← call (.readToEnd f)) id
      match fromUtf8 contents with
      | some text => pure (some text)
      | none => throw .invalidData
  | .symlink | .other => do
      orElseFail (← call (.readToEnd f)) id
      throw .isADirectory

/-- What tells the two stores apart: the file, the format of its value, the errors and the
texts of the operations they name. -/
structure ValueFile (ε α : Type) where
  file : FileName
  display : α → Text
  parse : Text → Except ε α
  persistenceError : PersistenceError → ε
  ioError : String → IoError → ε
  reading : String
  rereading : String
  persisting : String
  syncing : String

namespace ValueFile

variable {ε α : Type} (F : ValueFile ε α) (target : Node)

def parsePersisted (contents : Text) : Except ε α := F.parse (withoutLineFeed contents)

/-- `format!("{value}\\n")`. -/
def encoded (value : α) : Bytes := utf8 (F.display value ++ ['\n'])

def writeTemporary (harden : Bool) (value : α) : FsProg ε NamedTempFile :=
  ExceptT.adapt F.persistenceError (createSyncedTemporary (F.encoded value) harden)

def loadExistingAfterRace : FsProg ε α := do
  ExceptT.adapt F.persistenceError (hardenExistingFile F.file)
  match ← ExceptT.adapt (F.ioError F.rereading) (readToString target F.file) with
  | some contents => ExceptT.mk (pure (F.parsePersisted contents))
  | none => throw (F.ioError F.rereading .notFound)

def create (harden : Bool) (value : α) : FsProg ε α := do
  let temporary ← F.writeTemporary harden value
  match (← call (.persistNoclobber F.file temporary.contents) : Except IoError Bool) with
  | .ok true => do
      orElseFail (← call (.syncFile F.file)) (F.ioError F.syncing)
      pure value
  | .ok false => F.loadExistingAfterRace target
  | .error source => throw (F.ioError F.persisting source)

def loadOrCreate (harden : Bool) (initial : α) : FsProg ε α := do
  if harden then ExceptT.adapt F.persistenceError hardenExistingParent else pure ()
  ExceptT.adapt F.persistenceError (hardenExistingFile F.file)
  match ← ExceptT.adapt (F.ioError F.reading) (readToString target F.file) with
  | some contents => ExceptT.mk (pure (F.parsePersisted contents))
  | none => F.create target harden initial

end ValueFile

/-! ## The identifier -/

inductive DeviceIdError
  | invalid (path : FsPath) (source : ParseDeviceIdError)
  | io (operation : String) (path : FsPath) (source : IoError)
  deriving DecidableEq

structure DeviceIdStore where
  hardenExistingParent : Bool

namespace DeviceIdStore

variable (U : UuidCrate)

def persistenceError (error : PersistenceError) : DeviceIdError :=
  .io (match error.operation with
    | .inspectDirectory => "inspect device identity directory"
    | .createDirectory => "create device identity directory"
    | .hardenDirectory => "harden device identity directory permissions"
    | .hardenFile => "harden device identity file permissions"
    | .createTemporary => "create temporary device identity"
    | .writeTemporary => "write temporary device identity"
    | .syncTemporary => "sync temporary device identity") error.path error.source

/-- The identifier in its file. -/
def valueFile : ValueFile DeviceIdError (DeviceId U) where
  file := .deviceId
  display := DeviceId.display
  parse value := (DeviceId.fromStr value).mapError (.invalid (.file .deviceId))
  persistenceError := persistenceError
  ioError operation := .io operation (.file .deviceId)
  reading := "read device identity"
  rereading := "read concurrently created device identity"
  persisting := "persist device identity"
  syncing := "sync device identity"

variable {U}

/-- `load_or_create`, with what `DeviceId::random` returns in this call. -/
def loadOrCreate (self : DeviceIdStore) (target : Node) (random : DeviceId U) :
    FsProg DeviceIdError (DeviceId U) :=
  (valueFile U).loadOrCreate target self.hardenExistingParent random

end DeviceIdStore

/-! ## The name -/

inductive DeviceNameError
  | validation (source : DeviceNameValidationError)
  | invalid (path : FsPath) (source : DeviceNameValidationError)
  | io (operation : String) (path : FsPath) (source : IoError)
  deriving DecidableEq

structure DeviceNameStore where
  hardenExistingParent : Bool

namespace DeviceNameStore

def ioError (operation : String) (source : IoError) : DeviceNameError :=
  .io operation (.file .deviceName) source

def persistenceError (error : PersistenceError) : DeviceNameError :=
  .io (match error.operation with
    | .inspectDirectory => "inspect device display name directory"
    | .createDirectory => "create device display name directory"
    | .hardenDirectory => "harden device display name directory permissions"
    | .hardenFile => "harden device display name file permissions"
    | .createTemporary => "create temporary device display name"
    | .writeTemporary => "write temporary device display name"
    | .syncTemporary => "sync temporary device display name") error.path error.source

/-- The name in its file. -/
def valueFile : ValueFile DeviceNameError DeviceName where
  file := .deviceName
  display := DeviceName.asStr
  parse value := (DeviceName.new value).mapError (.invalid (.file .deviceName))
  persistenceError := persistenceError
  ioError := ioError
  reading := "read device display name"
  rereading := "read concurrently created device display name"
  persisting := "persist device display name"
  syncing := "sync device display name"

def loadOrCreate (self : DeviceNameStore) (target : Node) : FsProg DeviceNameError DeviceName :=
  valueFile.loadOrCreate target self.hardenExistingParent .default

def update (self : DeviceNameStore) (value : Text) : FsProg DeviceNameError DeviceName := do
  let name ← ExceptT.mk (pure ((DeviceName.new value).mapError .validation))
  let temporary ← valueFile.writeTemporary self.hardenExistingParent name
  orElseFail (← call (.persist .deviceName temporary.contents))
    (ioError "persist device display name")
  orElseFail (← call (.syncFile .deviceName)) (ioError "sync device display name")
  pure name

end DeviceNameStore

/-! ## The local device -/

/-- A snapshot of the local device. -/
structure LocalDevice (U : UuidCrate) where
  id : DeviceId U
  name : DeviceName
  platform : Platform

inductive LocalDeviceError
  | deviceId (source : DeviceIdError)
  | deviceName (source : DeviceNameError)
  | platform (source : UnsupportedPlatformError)
  deriving DecidableEq

/-- The stores, and the operating system the platform is detected from. -/
structure LocalDeviceManager where
  idStore : DeviceIdStore
  nameStore : DeviceNameStore
  platform : Text

namespace LocalDeviceManager

variable {U : UuidCrate}

/-- `load`, with what `DeviceId::random` returns in this call. -/
def load (self : LocalDeviceManager) (links : FileName → Node) (random : DeviceId U) :
    FsProg LocalDeviceError (LocalDevice U) := do
  let platform ← ExceptT.mk (pure ((Platform.fromTargetOs self.platform).mapError .platform))
  let id ← ExceptT.adapt .deviceId (self.idStore.loadOrCreate (links .deviceId) random)
  let name ← ExceptT.adapt .deviceName (self.nameStore.loadOrCreate (links .deviceName))
  pure ⟨id, name, platform⟩

def updateName (self : LocalDeviceManager) (value : Text) : FsProg LocalDeviceError DeviceName :=
  ExceptT.adapt .deviceName (self.nameStore.update value)

end LocalDeviceManager

end LocalTransfer
