import DbusBroker.Dbus.MessageParse

/-!
# Stitching the sender

`message_stitch_sender` of `dbus/message.c`. It cuts a sender field out of the header, puts a new
one into the patch buffer and leaves the message in up to four pieces.
-/

namespace DbusBroker

namespace Wire

open AlignedReader

/-- `c_assert`. -/
def Message.check (m : Message) (condition : Bool) : Message := { m with assertFailed := m.assertFailed || !condition }

/-- The position in the data that an `iovec` starts at. -/
def IoVec.start (v : IoVec) : ℕ :=
  match v.base with
  | some (.data o) => o
  | _ => 0

/-- The bytes of an `iovec`. -/
def Message.ioBytes (m : Message) (v : IoVec) : Bytes :=
  match v.base with
  | none => []
  | some (.data o) => (m.data.drop o).take v.len
  | some (.patch o) => (m.patch.drop o).take v.len

/-- What is sent: the pieces of the message one behind the other. -/
def Message.wire (m : Message) : Bytes :=
  m.ioBytes m.vec0 ++ m.ioBytes m.vec1 ++ m.ioBytes m.vec2 ++ m.ioBytes m.vec3

/-- `strlen` of a string in the data. -/
def Message.strlen (m : Message) (position : ℕ) : ℕ := ((m.data.drop position).takeWhile (· ≠ 0)).length

/-- The size of a sender field without the padding behind it. -/
def senderFieldSize (n : ℕ) : ℕ := 1 + 3 + 4 + n + 1

/-- The part of `message_stitch_sender` that cuts out the old sender. -/
def messageCutSender (m : Message) (sender : ℕ) : Message :=
  let n := m.strlen sender
  let fieldEnd := alignTo8 m.nHeader
  let field := sender - (1 + 3 + 4)
  let m := m.check (sender + n + 1 ≤ fieldEnd)
  let next := field + alignTo8 (senderFieldSize n)
  { m with
    vec1 := ⟨some (.data next), m.vec0.len - (next - m.vec0.start)⟩
    vec0 := { m.vec0 with len := field - m.vec0.start } }

/-- What is written to the patch buffer: a sender field with the padding behind it. -/
def senderPatch (bigEndian : Bool) (sender : Bytes) : Bytes :=
  let nField := senderFieldSize sender.length
  [dbusMessageFieldSender, 1, byte 's', 0] ++ uint32ToBytes bigEndian sender.length ++ (sender ++ [0]) ++
    List.replicate (alignTo8 nField - nField) 0

/-- The part of `message_stitch_sender` that appends the new sender and adjusts the sizes. -/
def messageAppendSender (m : Message) (sender : Bytes) : Message :=
  let nField := senderFieldSize sender.length
  let nStitch := alignTo8 nField
  let nHeader := m.vec0.len + m.vec1.len + nField
  let nFields := uint32ToBytes m.bigEndian (nHeader - messageHeaderSize)
  { m with
    vec2 := ⟨some (.patch 0), nStitch⟩
    patch := senderPatch m.bigEndian sender ++ m.patch.drop nStitch
    nHeader := nHeader
    nData := alignTo8 nHeader + m.nBody
    data := m.data.take 12 ++ nFields ++ m.data.drop messageHeaderSize }

/-- `message_stitch_sender`. -/
def messageStitchSender (m : Message) (senderId : ℕ) : Message :=
  let m := m.check m.parsed
  let m := m.check (m.vec1.base.isNone && m.vec1.len == 0)
  let m := m.check (m.vec2.base.isNone && m.vec2.len == 0)
  let sender := addressIdToString senderId
  let m := { m with metadata := { m.metadata with senderId := some senderId } }
  let m := m.check (alignTo8 (senderFieldSize sender.length) ≤ messagePatchMax)
  let m := m.check (sender.length ≤ addressIdStringMax)
  let m := m.originalSender.elim m (messageCutSender m)
  messageAppendSender m sender

end Wire

end DbusBroker
