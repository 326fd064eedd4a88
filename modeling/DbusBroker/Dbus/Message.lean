import DbusBroker.Dbus.Address

/-!
# Message metadata

The parsed header and the string arguments of a message, as far as routing, matching and
accounting read them.
-/

namespace DbusBroker

/-- A body argument: its type and, for strings and object paths, its value. -/
structure MessageArg where
  element : UInt8
  value : Option Bytes
  deriving DecidableEq, Repr

/-- `MessageMetadata`. The length of `args` is `n_args`; `senderId` is `none` for
`ADDRESS_ID_INVALID`, the driver. -/
structure MessageMetadata where
  type : UInt8
  flags : UInt8
  serial : UInt32
  senderId : Option ℕ
  path : Option Bytes
  interface : Option Bytes
  member : Option Bytes
  errorName : Option Bytes
  replySerial : UInt32
  destination : Option Bytes
  args : List MessageArg
  deriving DecidableEq, Repr

/-- `DBUS_HEADER_FLAG_NO_REPLY_EXPECTED`. -/
def dbusHeaderFlagNoReplyExpected : UInt8 := 1

/-- `DBUS_HEADER_FLAG_NO_AUTO_START`. -/
def dbusHeaderFlagNoAutoStart : UInt8 := 2

/-- The type of an argument slot, zero where nothing was parsed. -/
def MessageMetadata.element (m : MessageMetadata) (i : ℕ) : UInt8 := (m.args[i]?).elim 0 (·.element)

/-- The value of an argument slot. -/
def MessageMetadata.value (m : MessageMetadata) (i : ℕ) : Option Bytes := (m.args[i]?).bind (·.value)

/-- `Message`: what is known of the header and the body, the size of the data and the number of file
descriptors. -/
structure Message where
  metadata : MessageMetadata
  nData : ℕ
  nFds : ℕ
  deriving DecidableEq, Repr

/-- `message_read_serial`: zero if no reply is expected. -/
def messageReadSerial (m : Message) : UInt32 :=
  if m.metadata.type != dbusMessageTypeMethodCall || m.metadata.flags &&& dbusHeaderFlagNoReplyExpected != 0 then 0
  else m.metadata.serial

/-- The sizes of the objects that are charged to users, and of the messages that the driver writes. -/
structure Sizes where
  peer : ℕ
  socketBuffer : ℕ
  message : ℕ
  matchRule : ℕ
  activationMessage : ℕ
  activationRequest : ℕ
  controllerReload : ℕ
  driverMessage : MessageMetadata → ℕ

end DbusBroker
