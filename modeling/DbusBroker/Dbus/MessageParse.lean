import DbusBroker.Dbus.Dvar
import DbusBroker.Dbus.Message
import DbusBroker.Dbus.Address

/-!
# Messages on the wire

Incoming messages with their buffer and the parser of `dbus/message.c`. A pointer into the
buffer is an offset, and the strings of the metadata are the bytes they point to. The memory
behind the header is filled after `message_new_incoming`.

A reader fails at the first error. In the source the variant is poisoned instead and later
reads return dummy values; these are rejected, or the poison is found at the end, as the same
error.
-/

namespace DbusBroker

namespace Wire

open AlignedReader

/-- The errors of `dbus/message.h`. -/
inductive MessageError where
  | corruptHeader
  | tooLarge
  | invalidHeader
  | invalidBody
  | missingFds
  deriving DecidableEq, Repr

/-- `DBUS_MESSAGE_FIELD_SENDER`. -/
def dbusMessageFieldSender : UInt8 := 7

/-- `_DBUS_MESSAGE_FIELD_N`. -/
def dbusMessageFieldN : UInt8 := 10

/-- `MessageMetadata.fields`. The bits of `available` are the fields that were seen. -/
structure Fields where
  available : ℕ
  path : Option Bytes
  interface : Option Bytes
  member : Option Bytes
  errorName : Option Bytes
  replySerial : ℕ
  destination : Option Bytes
  sender : Option Bytes
  signature : Option Bytes
  unixFds : ℕ
  deriving DecidableEq, Repr

/-- Fields of which none was seen. -/
def Fields.init : Fields := ⟨0, none, none, none, none, 0, none, none, none, 0⟩

/-- `MessageMetadata`. The length of `args` is `n_args`; `senderId` is `none` for `ADDRESS_ID_INVALID`. -/
structure Metadata where
  type : UInt8
  flags : UInt8
  version : UInt8
  serial : ℕ
  senderId : Option ℕ
  fields : Fields
  args : List MessageArg
  deriving DecidableEq, Repr

/-- `MESSAGE_METADATA_INIT`. -/
def Metadata.init : Metadata := ⟨0, 0, 0, 0, none, .init, []⟩

/-- Where an `iovec` points to. -/
inductive IoBase where
  | data (offset : ℕ)
  | patch (offset : ℕ)
  deriving DecidableEq, Repr

/-- `struct iovec`. -/
structure IoVec where
  base : Option IoBase
  len : ℕ
  deriving DecidableEq, Repr

/-- `Message`. -/
structure Message where
  bigEndian : Bool
  parsed : Bool
  fds : Option (List ℕ)
  nData : ℕ
  nHeader : ℕ
  nBody : ℕ
  data : Bytes
  body : ℕ
  metadata : Metadata
  originalSender : Option ℕ
  vec0 : IoVec
  vec1 : IoVec
  vec2 : IoVec
  vec3 : IoVec
  patch : Bytes
  assertFailed : Bool
  deriving DecidableEq, Repr

/-- `C_DECIMAL_MAX(uint64_t)`. -/
def decimalMax : ℕ := 21

/-- `ADDRESS_ID_STRING_MAX`. -/
def addressIdStringMax : ℕ := 3 + decimalMax

/-- `MESSAGE_PATCH_MAX`. -/
def messagePatchMax : ℕ := alignTo8 (1 + 3 + 4 + addressIdStringMax + 1)

/-- A message with the sizes of its parts. -/
def messageOf (bigEndian : Bool) (data : Bytes) (nHeader nBody : ℕ) : Message where
  bigEndian := bigEndian
  parsed := false
  fds := none
  nData := alignTo8 nHeader + nBody
  nHeader := nHeader
  nBody := nBody
  data := data
  body := alignTo8 nHeader
  metadata := .init
  originalSender := none
  vec0 := ⟨some (.data 0), alignTo8 nHeader⟩
  vec1 := ⟨none, 0⟩
  vec2 := ⟨none, 0⟩
  vec3 := ⟨some (.data (alignTo8 nHeader)), nBody⟩
  patch := List.replicate messagePatchMax 0
  assertFailed := false

/-- `header->n_body` in a byte order. -/
def headerNBody (bigEndian : Bool) (data : Bytes) : ℕ := uint32OfBytes bigEndian ((data.drop 4).take 4)

/-- `header->n_fields` in a byte order. -/
def headerNFields (bigEndian : Bool) (data : Bytes) : ℕ := uint32OfBytes bigEndian ((data.drop 12).take 4)

/-- `htole32` and `htobe32`: the four bytes of a number. -/
def uint32ToBytes (bigEndian : Bool) (n : ℕ) : Bytes :=
  let bytes : Bytes := [n.toUInt8, (n / 256).toUInt8, (n / 65536).toUInt8, (n / 16777216).toUInt8]
  if bigEndian then bytes.reverse else bytes

/-- The end of `message_new_incoming`, in the byte order of the header; the message has the header only. -/
def messageNewIncomingAs (bigEndian : Bool) (header : Bytes) : Except MessageError Message :=
  let nHeader := messageHeaderSize + headerNFields bigEndian header
  let nBody := headerNBody bigEndian header
  if messageSizeMax < alignTo8 nHeader + nBody then .error .tooLarge
  else .ok (messageOf bigEndian header nHeader nBody)

/-- `message_new_incoming`. -/
def messageNewIncoming (header : Bytes) : Except MessageError Message :=
  if header.head? = some (byte 'l') then messageNewIncomingAs false header
  else if header.head? = some (byte 'B') then messageNewIncomingAs true header
  else .error .corruptHeader

/-- The rest of the message and its file descriptors have been received. -/
def Message.fill (m : Message) (payload : Bytes) (fds : Option (List ℕ)) : Message :=
  { m with data := m.data ++ payload, fds := fds }

/-! ## The header -/

/-- A reader of messages. -/
abbrev MessageReader (α : Type) := AlignedReader MessageError UInt8 α

/-- A poisoned variant makes an invalid header. -/
def dvar {α : Type} (r : DvarReader α) : MessageReader α := mapError (fun _ => .invalidHeader) r

/-- A header field that is a string. -/
def readStringField (bigEndian : Bool) (c : UInt8) (valid : Bytes → Bool) : MessageReader Bytes := do
  let _ ← dvar (cDvarReadVariant [c])
  let value ← dvar (cDvarReadString bigEndian c)
  check .invalidHeader (valid value)
  pure value

/-- A header field that is a number. -/
def readUint32Field (bigEndian : Bool) (e : MessageError) (valid : ℕ → Bool) : MessageReader ℕ := do
  let _ ← dvar (cDvarReadVariant [byte 'u'])
  let value ← dvar (cDvarReadU32 bigEndian)
  check e (valid value)
  pure value

/-- The switch of `message_parse_header` over the known fields. `dbus_validate_error_name` is
`dbus_validate_interface`. -/
def messageReadKnown (bigEndian : Bool) (nFds : ℕ) (field : UInt8) (f : Fields) : MessageReader Fields :=
  if field = 1 then do
    let value ← readStringField bigEndian (byte 'o') fun path => path ≠ lit "/org/freedesktop/DBus/Local"
    pure { f with path := some value }
  else if field = 2 then do
    let value ← readStringField bigEndian (byte 's') fun interface =>
      interface ≠ lit "org.freedesktop.DBus.Local" && dbusValidateInterface interface
    pure { f with interface := some value }
  else if field = 3 then do
    let value ← readStringField bigEndian (byte 's') dbusValidateMember
    pure { f with member := some value }
  else if field = 4 then do
    let value ← readStringField bigEndian (byte 's') dbusValidateInterface
    pure { f with errorName := some value }
  else if field = 5 then do
    let value ← readUint32Field bigEndian .invalidHeader fun serial => serial ≠ 0
    pure { f with replySerial := value }
  else if field = 6 then do
    let value ← readStringField bigEndian (byte 's') dbusValidateName
    pure { f with destination := some value }
  else if field = dbusMessageFieldSender then do
    let value ← readStringField bigEndian (byte 's') dbusValidateName
    pure { f with sender := some value }
  else if field = 8 then do
    let value ← readStringField bigEndian (byte 'g') fun _ => true
    pure { f with signature := some value }
  else if field = 9 then do
    let value ← readUint32Field bigEndian .missingFds fun fds => fds ≤ nFds
    pure { f with unixFds := value }
  else fun _ => .error .invalidHeader

/-- The levels of nesting that are left inside of a header field: all but those of the header, its array and the
field. -/
def fieldLevels : ℕ := cDvarTypeDepthMax - 1 - 3

/-- One header field behind its `(`: the field code and the fields read so far. -/
def messageReadField (bigEndian : Bool) (nFds : ℕ) (f : Fields) : MessageReader (UInt8 × Fields) := do
  let field ← dvar cDvarReadU8
  if dbusMessageFieldN ≤ field then do
    let _ ← dvar (cDvarSkip bigEndian fieldLevels [byte 'v'])
    pure (field, f)
  else do
    check .invalidHeader (!f.available.testBit field.toNat)
    let f ← messageReadKnown bigEndian nFds field { f with available := f.available ||| 2 ^ field.toNat }
    pure (field, f)

/-- What the loop over the header fields has found. -/
structure HeaderParse where
  fields : Fields
  originalSender : Option ℕ
  deriving DecidableEq, Repr

/-- A field has been read up to a position. The string of a sender ends there. -/
def HeaderParse.next (s : HeaderParse) (field : UInt8 × Fields) (position : ℕ) : HeaderParse where
  fields := field.2
  originalSender :=
    if field.1 = dbusMessageFieldSender then some (position - ((field.2.sender.getD []).length + 1))
    else s.originalSender

/-- The loop over the header fields. -/
def messageReadFields (bigEndian : Bool) (nFds : ℕ) : MessageReader HeaderParse :=
  whileMore .invalidHeader
    (element (fun s : HeaderParse => messageReadField bigEndian nFds s.fields) HeaderParse.next
      0 .invalidHeader .invalidHeader 8)
    ⟨.init, none⟩

/-- The mandatory fields of a message type. -/
def mandatoryFields (type : UInt8) : ℕ :=
  if type = dbusMessageTypeMethodCall then 2 ^ 1 ||| 2 ^ 3
  else if type = dbusMessageTypeMethodReturn then 2 ^ 5
  else if type = dbusMessageTypeError then 2 ^ 4 ||| 2 ^ 5
  else if type = dbusMessageTypeSignal then 2 ^ 1 ||| 2 ^ 2 ||| 2 ^ 3
  else 0

/-- The fixed part of the header: type, flags, version, serial and the size of the fields. -/
structure FixedHeader where
  type : UInt8
  flags : UInt8
  version : UInt8
  serial : ℕ
  nFields : ℕ
  deriving DecidableEq, Repr

/-- The reads of `message_parse_header` in front of the fields. -/
def messageReadFixed (bigEndian : Bool) : MessageReader FixedHeader := do
  let _ ← dvar (cDvarReadData 3 0)
  let _ ← dvar cDvarReadU8
  let type ← dvar cDvarReadU8
  let flags ← dvar cDvarReadU8
  let version ← dvar cDvarReadU8
  let _ ← dvar (cDvarReadU32 bigEndian)
  let serial ← dvar (cDvarReadU32 bigEndian)
  let nFields ← dvar (cDvarReadU32 bigEndian)
  let _ ← dvar (cDvarReadData 3 0)
  pure ⟨type, flags, version, serial, nFields⟩

/-- `message_parse_header`, from its first read to its last. -/
def messageReadHeader (bigEndian : Bool) (nFds : ℕ) : MessageReader (FixedHeader × HeaderParse) := do
  let fixed ← messageReadFixed bigEndian
  check .invalidHeader (fixed.type ≠ dbusMessageTypeInvalid && fixed.version = 1 && fixed.serial ≠ 0)
  let s ← within .invalidHeader .invalidHeader fixed.nFields (messageReadFields bigEndian nFds)
  check .invalidHeader (s.fields.available &&& mandatoryFields fixed.type = mandatoryFields fixed.type)
  pure (fixed, s)

/-- `message_parse_header`. -/
def messageParseHeader (bigEndian : Bool) (nFds : ℕ) (header : Bytes) : Except MessageError (FixedHeader × HeaderParse) :=
  match messageReadHeader bigEndian nFds ⟨0, header⟩ with
  | .ok (parse, c) => if c.rest.isEmpty then .ok parse else .error .invalidHeader
  | .error e => .error e

/-! ## The body -/

/-- One argument: strings and object paths among the first 64 are kept. -/
def messageReadArg (bigEndian : Bool) (i : ℕ) (type : Bytes) (args : List MessageArg) : DvarReader (List MessageArg) :=
  if (lit "so").contains (type.headD 0) && i < 64 then do
    let value ← cDvarReadString bigEndian (type.headD 0)
    pure (args ++ List.replicate (i - args.length) ⟨0, none⟩ ++ [⟨type.headD 0, some value⟩])
  else do
    let _ ← cDvarSkip bigEndian (cDvarTypeDepthMax - 1) type
    pure args

/-- The loop over the arguments. -/
def messageReadArgs (bigEndian : Bool) : ℕ → List Bytes → List MessageArg → DvarReader (List MessageArg)
  | _, [], args => pure args
  | i, type :: types, args => do
    let args ← messageReadArg bigEndian i type args
    messageReadArgs bigEndian (i + 1) types args

/-- `message_parse_body`. -/
def messageParseBody (bigEndian : Bool) (signature body : Bytes) : Except MessageError (List MessageArg) :=
  match messageReadArgs bigEndian 0 (cDvarTypes signature) [] ⟨0, body⟩ with
  | .ok (args, c) => if c.rest.isEmpty then .ok args else .error .invalidBody
  | .error _ => .error .invalidBody

/-- `message_parse_metadata`. A missing signature is an empty one. -/
def messageParseMetadata (m : Message) : Except MessageError Message :=
  if m.parsed then .ok m
  else
    match messageParseHeader m.bigEndian (fdlistCount m.fds) (m.data.take m.nHeader) with
    | .error e => .error e
    | .ok (fixed, s) =>
      if ((m.data.drop m.nHeader).take (m.body - m.nHeader)).any (· ≠ 0) then .error .invalidHeader
      else
        let signature := s.fields.signature.getD []
        match messageParseBody m.bigEndian signature ((m.data.drop m.body).take m.nBody) with
        | .error e => .error e
        | .ok args =>
          .ok { m with
            parsed := true
            fds := m.fds.map (·.take s.fields.unixFds)
            originalSender := s.originalSender
            metadata :=
              ⟨fixed.type, fixed.flags, fixed.version, fixed.serial, m.metadata.senderId,
                { s.fields with signature := some signature }, args⟩ }

/-! ## Numbers on the wire -/

@[simp] theorem length_uint32ToBytes (bigEndian : Bool) (n : ℕ) : (uint32ToBytes bigEndian n).length = 4 := by
  cases bigEndian <;> rfl

/-- Four bytes are those of one number. -/
theorem uint32OfBytes_eq_iff (bigEndian : Bool) (d : Bytes) (n : ℕ) :
    d.length = 4 ∧ uint32OfBytes bigEndian d = n ↔ n < 2 ^ 32 ∧ d = uint32ToBytes bigEndian n := by
  have hlittle (d : Bytes) : d.length = 4 ∧ uint32OfBytes false d = n ↔ n < 2 ^ 32 ∧ d = uint32ToBytes false n := by
    constructor
    · rintro ⟨hlen, rfl⟩
      obtain ⟨b₀, b₁, b₂, b₃, rfl⟩ : ∃ b₀ b₁ b₂ b₃, d = [b₀, b₁, b₂, b₃] := by
        match d, hlen with
        | [b₀, b₁, b₂, b₃], _ => exact ⟨b₀, b₁, b₂, b₃, rfl⟩
      have h₀ := b₀.toNat_lt
      have h₁ := b₁.toNat_lt
      have h₂ := b₂.toNat_lt
      have h₃ := b₃.toNat_lt
      have hbyte (b : UInt8) (m : ℕ) (h : m % 256 = b.toNat) : b = m.toUInt8 :=
        UInt8.toNat_inj.mp (h.symm.trans UInt8.toNat_ofNat'.symm)
      simp only [uint32OfBytes, uint32ToBytes, Bool.false_eq_true, if_false, List.foldr_cons, List.foldr_nil,
        List.cons.injEq, and_true]
      refine ⟨by omega, hbyte _ _ (by omega), hbyte _ _ (by omega), hbyte _ _ (by omega), hbyte _ _ (by omega)⟩
    · rintro ⟨hn, rfl⟩
      have hbyte (m : ℕ) : m.toUInt8.toNat = m % 256 := UInt8.toNat_ofNat'
      simp only [uint32OfBytes, uint32ToBytes, Bool.false_eq_true, if_false, List.foldr_cons, List.foldr_nil, hbyte]
      exact ⟨rfl, by omega⟩
  cases bigEndian with
  | false => exact hlittle d
  | true =>
    have hrev := hlittle d.reverse
    simp only [List.length_reverse] at hrev
    refine hrev.trans (and_congr_right fun _ => ?_)
    rw [List.reverse_eq_iff]
    rfl

end Wire

end DbusBroker
