import DbusBroker.Util.Strings

/-!
# Protocol constants and validators

The validators of `dbus/protocol.c` and the object path check of the `c-dvar` library. Each
is one loop over the bytes with a few flags.
-/

namespace DbusBroker

/-- `DBUS_MESSAGE_TYPE_INVALID`. -/
def dbusMessageTypeInvalid : UInt8 := 0

/-- `DBUS_MESSAGE_TYPE_METHOD_CALL`. -/
def dbusMessageTypeMethodCall : UInt8 := 1

/-- `DBUS_MESSAGE_TYPE_METHOD_RETURN`. -/
def dbusMessageTypeMethodReturn : UInt8 := 2

/-- `DBUS_MESSAGE_TYPE_ERROR`. -/
def dbusMessageTypeError : UInt8 := 3

/-- `DBUS_MESSAGE_TYPE_SIGNAL`. -/
def dbusMessageTypeSignal : UInt8 := 4

/-- An ASCII letter. -/
def isLetter (c : UInt8) : Bool := (byte 'a' ≤ c && c ≤ byte 'z') || (byte 'A' ≤ c && c ≤ byte 'Z')

/-- An ASCII digit. -/
def isDigit (c : UInt8) : Bool := byte '0' ≤ c && c ≤ byte '9'

/-- The loop of `dbus_validate_name_common` and `dbus_validate_interface`: elements between dots,
with a digit allowed at the start of an element or not. -/
def validateElements (extra : UInt8 → Bool) (digitFirst : Bool) : Bytes → Bool → Bool → Option (Bool × Bool)
  | [], hasDot, dot => some (hasDot, dot)
  | c :: rest, hasDot, dot =>
    if c = byte '.' then if dot then none else validateElements extra digitFirst rest true true
    else if isLetter c || (isDigit c && (!dot || digitFirst)) || extra c then
      validateElements extra digitFirst rest hasDot false
    else none

/-- `dbus_validate_name_common`. -/
def dbusValidateNameCommon (name : Bytes) (namespaced : Bool) : Bool :=
  if 255 < name.length then false
  else
    let (unique, elements) := match name with
      | c :: rest => if c = byte ':' then (true, rest) else (false, name)
      | [] => (false, name)
    match validateElements (fun c => c = byte '_' || c = byte '-') unique elements false true with
    | some (hasDot, dot) => (hasDot || namespaced) && !dot
    | none => false

/-- `dbus_validate_name`: a bus name. -/
def dbusValidateName (name : Bytes) : Bool := dbusValidateNameCommon name false

/-- `dbus_validate_namespace`: a bus name or a single element. -/
def dbusValidateNamespace (name : Bytes) : Bool := dbusValidateNameCommon name true

/-- `dbus_validate_interface`. -/
def dbusValidateInterface (interface : Bytes) : Bool :=
  if 255 < interface.length then false
  else match validateElements (fun c => c = byte '_') false interface false true with
    | some (hasDot, dot) => hasDot && !dot
    | none => false

/-- The loop of `dbus_validate_member`; the result is the flag `first`. -/
def validateMember : Bytes → Bool → Option Bool
  | [], first => some first
  | c :: rest, first =>
    if isLetter c || (isDigit c && !first) || c = byte '_' then validateMember rest false else none

/-- `dbus_validate_member`. -/
def dbusValidateMember (member : Bytes) : Bool :=
  if 255 < member.length then false
  else match validateMember member true with
    | some first => !first
    | none => false

/-- The loop of `c_dvar_is_path` behind the leading slash; the result is the flag `slash`. -/
def validatePath : Bytes → Bool → Option Bool
  | [], slash => some slash
  | c :: rest, slash =>
    if c = byte '/' then if slash then none else validatePath rest true
    else if isLetter c || isDigit c || c = byte '_' then validatePath rest false
    else none

/-- `c_dvar_is_path`: an object path. -/
def cDvarIsPath : Bytes → Bool
  | [] => false
  | c :: rest =>
    if c = byte '/' then
      match validatePath rest true with
      | some slash => !slash || rest.isEmpty
      | none => false
    else false

end DbusBroker
