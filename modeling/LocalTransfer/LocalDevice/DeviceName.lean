import LocalTransfer.Lib.Text

/-!
# The display name of the local device

`DeviceName` is a trimmed text without control characters, of 1 to 64 characters. Its
constructor keeps such a text as it is, so a name that is written and parsed again comes
back unchanged (`DeviceName.new_asStr`).
-/

namespace LocalTransfer

open Lib

def maxDeviceNameChars : Nat := 64

inductive DeviceNameValidationError
  | empty
  | tooLong (maximum : Nat)
  | controlCharacter
  deriving DecidableEq, Repr

/-- A validated label for the local device. -/
structure DeviceName where
  asStr : Text
  noControl : asStr.any isControl = false
  trimmed : trim asStr = asStr
  nonempty : asStr ≠ []
  bounded : asStr.length ≤ maxDeviceNameChars

def DeviceName.new (value : Text) : Except DeviceNameValidationError DeviceName :=
  if hcontrol : value.any isControl then .error .controlCharacter
  else if hempty : trim value = [] then .error .empty
  else if hlong : (trim value).length > maxDeviceNameChars then .error (.tooLong maxDeviceNameChars)
  else .ok ⟨trim value, any_isControl_trim (by simpa using hcontrol), trim_trim value, hempty,
    Nat.le_of_not_gt hlong⟩

namespace DeviceName

@[ext] theorem ext {name name' : DeviceName} (h : name.asStr = name'.asStr) : name = name' := by
  cases name
  cases name'
  cases h
  rfl

instance : DecidableEq DeviceName := fun name name' =>
  decidable_of_iff (name.asStr = name'.asStr) ⟨ext, congrArg asStr⟩

/-- A name is its own normal form. -/
@[simp] theorem new_asStr (name : DeviceName) : new name.asStr = .ok name := by
  have hbounded : ¬ name.asStr.length > maxDeviceNameChars := Nat.not_lt.mpr name.bounded
  simp [new, name.noControl, name.trimmed, name.nonempty, hbounded]

/-- `DEFAULT_DEVICE_NAME`. -/
def defaultDeviceName : Text := "Local Device".toList

/-- `DeviceName::default`. -/
def default : DeviceName :=
  ⟨defaultDeviceName, by decide, by decide, by decide, by decide⟩

end DeviceName

end LocalTransfer
