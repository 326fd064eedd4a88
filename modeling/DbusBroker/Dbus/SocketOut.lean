import DbusBroker.Util.Strings
import DbusBroker.Lib.Run

/-!
# The outgoing side of a socket

Byte-exact model of the output queue of `dbus/socket.c`: line and message buffers, the scatter
lists they are sent from, the batch that `socket_dispatch_write` hands to `sendmmsg`, and how
the buffers advance by what the kernel took. The kernel is a parameter. What it took is kept
as a sequence of bytes in which descriptors are attached to the byte they were sent with.

The quota verdict of `user_charge` is an argument of the operations that queue something.
-/

namespace DbusBroker

/-- `struct iovec`: how far its base was moved, and the bytes from there. -/
structure IoVec where
  base : ℕ
  bytes : Bytes
  deriving DecidableEq, Repr

/-- The bytes of a scatter list. -/
def iovBytes (vecs : List IoVec) : Bytes := vecs.flatMap (·.bytes)

/-- A byte in the stream, with the descriptors that are passed along with it. -/
abbrev WireByte := UInt8 × Option (List ℕ)

/-- The bytes of one send. Control data goes with the first byte. -/
def wireBytes (control : Option (List ℕ)) : Bytes → List WireByte
  | [] => []
  | b :: rest => (b, control) :: rest.map (·, none)

/-- `Message` as it is sent: its four vectors, of which the header is never empty, and its descriptors. -/
structure SocketMessage where
  vecs : List Bytes
  fds : Option (List ℕ)
  length_vecs : vecs.length = 4
  nonempty : vecs.flatten ≠ []

/-- `SocketBuffer`. The `content` is everything that was put into the buffer so far; no function reads it. -/
structure WriteBuffer where
  nTotal : ℕ
  message : Option SocketMessage
  vecs : List IoVec
  writer : Option ℕ
  content : List WireByte

/-- `SOCKET_LINE_PREALLOC`. -/
def socketLinePrealloc : ℕ := 64

/-- `SOCKET_MMSG_MAX`. -/
def socketMmsgMax : ℕ := 16

/-- The line terminator. -/
def crlf : Bytes := [0x0d, 0x0a]

/-- `socket_buffer_new_line`. -/
def socketBufferNewLine (n : ℕ) : WriteBuffer := ⟨max n socketLinePrealloc, none, [⟨0, []⟩], none, []⟩

/-- `socket_buffer_new_message`. -/
def socketBufferNewMessage (m : SocketMessage) : WriteBuffer :=
  ⟨0, some m, m.vecs.map (⟨0, ·⟩), none, wireBytes m.fds m.vecs.flatten⟩

/-- `socket_buffer_get_line_space`. -/
def socketBufferGetLineSpace (b : WriteBuffer) : ℕ :=
  b.nTotal - (b.vecs.head?.elim 0 (·.base)) - (b.vecs.head?.elim 0 (·.bytes.length))

/-- The writes of `socket_queue_line` through `socket_buffer_get_line_cursor`. -/
def socketBufferAppend (b : WriteBuffer) (line : Bytes) : WriteBuffer :=
  { b with
    vecs := b.vecs.modifyHead fun v => { v with bytes := v.bytes ++ (line ++ crlf) }
    content := b.content ++ wireBytes none (line ++ crlf) }

/-- `socket_buffer_is_consumed`. -/
def socketBufferIsConsumed (b : WriteBuffer) : Bool := b.writer.elim false (b.vecs.length ≤ ·)

/-- The loop of `socket_buffer_consume` from the writer on: the vectors, by how many the writer advances,
and what is left of the amount. -/
def consumeVecs : List IoVec → ℕ → List IoVec × ℕ × ℕ
  | [], n => ([], 0, n)
  | v :: rest, n =>
    let t := min v.bytes.length n
    let v : IoVec := ⟨v.base + t, v.bytes.drop t⟩
    if v.bytes ≠ [] then (v :: rest, 0, n - t)
    else
      let (rest, advance, n) := consumeVecs rest (n - t)
      (v :: rest, advance + 1, n)

/-- `socket_buffer_consume`: the buffer, and what is left of the amount (asserted to be zero). -/
def socketBufferConsume (b : WriteBuffer) (n : ℕ) : WriteBuffer × ℕ :=
  let writer := b.writer.getD 0
  let (vecs, advance, n) := consumeVecs (b.vecs.drop writer) n
  ({ b with vecs := b.vecs.take writer ++ vecs, writer := some (writer + advance) }, n)

/-- `struct msghdr`: the bytes of its vectors and the control data. -/
structure MsgHdr where
  iov : List Bytes
  control : Option (List ℕ)
  deriving DecidableEq, Repr

/-- The bytes of a message header. -/
def MsgHdr.bytes (m : MsgHdr) : Bytes := m.iov.flatten

/-- What `sendmmsg` returns: an error by how it is handled, or the lengths of the messages it took. -/
inductive SendResult where
  | again
  | hangup
  | fatal
  | sent (lens : List ℕ)
  deriving DecidableEq, Repr

/-- What the calls to a socket return. -/
inductive SocketResult where
  | success
  | lostInterest
  | quota
  | shutdown
  | fatal
  deriving DecidableEq, Repr

/-- The outgoing side of `Socket`. The last four fields are not in the source: what the kernel took, what was
queued, which buffers left the queue after they were sent, and whether an assertion failed on the way
(of the consumption, and of appending a line to a message). -/
structure SocketOut where
  queue : List WriteBuffer
  pending : List WriteBuffer
  shutdown : Bool
  hupOut : Bool
  wire : List WireByte
  queued : List WireByte
  dropped : List WriteBuffer
  consumeFailed : Bool
  lineFailed : Bool

/-- `SOCKET_NULL`. -/
def SocketOut.init : SocketOut := ⟨[], [], false, false, [], [], [], false, false⟩

/-- `socket_queue_line`. -/
def socketQueueLine (s : SocketOut) (line : Bytes) (admitted : Bool) : SocketOut × SocketResult :=
  if s.hupOut || s.shutdown then (s, .shutdown)
  else
    let put (before : List WriteBuffer) (b : WriteBuffer) : SocketOut :=
      { s with queue := before ++ [socketBufferAppend b line], queued := s.queued ++ wireBytes none (line ++ crlf) }
    let fresh : SocketOut × SocketResult :=
      if admitted then (put s.queue (socketBufferNewLine (line.length + 2)), .success) else (s, .quota)
    match s.queue.getLast? with
    | none => fresh
    | some b =>
      if b.message.isSome then ({ s with lineFailed := true }, .fatal)
      else if line.length + 2 > socketBufferGetLineSpace b then fresh
      else (put s.queue.dropLast b, .success)

/-- `socket_queue`. -/
def socketQueue (s : SocketOut) (m : SocketMessage) (admitted : Bool) : SocketOut × SocketResult :=
  if s.hupOut || s.shutdown then (s, .shutdown)
  else if admitted then
    ({ s with
        queue := s.queue ++ [socketBufferNewMessage m]
        queued := s.queued ++ wireBytes m.fds m.vecs.flatten }, .success)
  else (s, .quota)

/-- `socket_hangup_output`. -/
def SocketOut.hangup (s : SocketOut) : SocketOut :=
  if s.hupOut then s else { s with hupOut := true, queue := [] }

/-- `socket_shutdown`, with `socket_shutdown_now`. -/
def socketShutdown (s : SocketOut) : SocketOut :=
  if s.shutdown then s
  else
    let s := { s with shutdown := true }
    if s.queue.isEmpty then s.hangup else s

/-- `fdlist_count` of the descriptors of a buffer. -/
def WriteBuffer.nFds (b : WriteBuffer) : ℕ := (b.message.bind (·.fds)).elim 0 List.length

/-- The control data that a buffer is sent with: only as long as nothing of it was sent. -/
def WriteBuffer.control (b : WriteBuffer) : Option (List ℕ) :=
  if b.writer.isNone then b.message.bind (·.fds) else none

/-- The message header that `socket_dispatch_write` fills in for a buffer. The Zephyr build drops empty
vectors. -/
def socketMsgHdr (zephyr : Bool) (b : WriteBuffer) : MsgHdr :=
  ⟨if zephyr then ((b.vecs.take 4).map (·.bytes)).filter (0 < ·.length) else b.vecs.map (·.bytes), b.control⟩

/-- The batch that `socket_dispatch_write` collects, where `room` is left in the array. It ends with the first
message that carries descriptors. -/
def socketBatch (zephyr : Bool) : ℕ → List WriteBuffer → List MsgHdr
  | 0, _ => []
  | _, [] => []
  | room + 1, b :: rest => socketMsgHdr zephyr b :: if 0 < b.nFds then [] else socketBatch zephyr room rest

/-- The loop of `socket_dispatch_write` over what was sent: the queue, the buffers that leave it, and whether
the assertions hold. -/
def socketConsume : List ℕ → List WriteBuffer → List WriteBuffer × List WriteBuffer × Bool
  | [], queue => (queue, [], true)
  | _ :: _, [] => ([], [], false)
  | n :: lens, b :: rest =>
    let (b, left) := socketBufferConsume b n
    let (queue, done, ok) := socketConsume lens rest
    if socketBufferIsConsumed b then (queue, b :: done, ok && left == 0)
    else (b :: queue, done, ok && left == 0)

/-- What the kernel has when it took that much of each message. -/
def takenBytes : List MsgHdr → List ℕ → List WireByte
  | m :: msgs, n :: lens => wireBytes m.control (m.bytes.take n) ++ takenBytes msgs lens
  | _, _ => []

/-- `socket_dispatch_write`, where `outq` is what `SIOCOUTQ` returns. -/
def socketDispatchWrite (zephyr : Bool) (outq : ℕ) (sendmmsg : List MsgHdr → SendResult) (s : SocketOut) :
    SocketOut × SocketResult :=
  if !s.pending.isEmpty && !zephyr && 128 < outq then (s, .success)
  else
    let s := { s with pending := [] }
    if s.hupOut then (s, .lostInterest)
    else
      let msgs := socketBatch zephyr socketMmsgMax s.queue
      if msgs.isEmpty then (s, .lostInterest)
      else
        match sendmmsg msgs with
        | .again => (s, .success)
        | .fatal => (s, .fatal)
        | .hangup => (s.hangup, .lostInterest)
        | .sent lens =>
          let (queue, done, ok) := socketConsume lens s.queue
          let s := { s with
            queue := queue
            pending := done.filter fun b => (b.message.bind (·.fds)).isSome
            wire := s.wire ++ takenBytes msgs lens
            dropped := s.dropped ++ done
            consumeFailed := s.consumeFailed || !ok }
          if s.queue.isEmpty then
            let s := if s.shutdown then s.hangup else s
            if s.pending.isEmpty then (s, .lostInterest) else (s, .success)
          else (s, .success)

/-- What happens to the outgoing side of a socket; `κ` is a behaviour of the kernel at one write. -/
inductive SocketOp (κ : Type) where
  | queueLine (line : Bytes) (admitted : Bool)
  | queue (message : SocketMessage) (admitted : Bool)
  | dispatchWrite (outq : ℕ) (kernel : κ)
  | shutdown

/-- One operation, with the `sendmmsg` that a behaviour of the kernel gives. -/
def SocketOut.step {κ : Type} (zephyr : Bool) (sendmmsg : κ → List MsgHdr → SendResult) (s : SocketOut) :
    SocketOp κ → SocketOut
  | .queueLine line admitted => (socketQueueLine s line admitted).1
  | .queue message admitted => (socketQueue s message admitted).1
  | .dispatchWrite outq kernel => (socketDispatchWrite zephyr outq (sendmmsg kernel) s).1
  | .shutdown => socketShutdown s

/-! ## The kernel's side -/

/-- The contract of `sendmmsg`: it took a first message, every message before the last one it took completely,
and a non-empty part of the last one. -/
def LinuxSent : List MsgHdr → List ℕ → Prop
  | m :: _, [n] => 0 < n ∧ n ≤ m.bytes.length
  | m :: msgs, n :: n' :: lens => n = m.bytes.length ∧ LinuxSent msgs (n' :: lens)
  | _, _ => False

/-- A kernel that keeps the contract: at a write it takes some messages or none. -/
structure LinuxSend where
  send : List MsgHdr → SendResult
  contract : ∀ msgs, send msgs = .again ∨ ∃ lens, send msgs = .sent lens ∧ LinuxSent msgs lens

/-- A kernel that has room for some bytes, and takes what fits of the first message. -/
def LinuxSend.room (n : ℕ) : LinuxSend where
  send
    | [] => .again
    | m :: _ => if 0 < n ∧ m.bytes ≠ [] then .sent [min n m.bytes.length] else .again
  contract msgs := by
    cases msgs with
    | nil => exact .inl rfl
    | cons m rest =>
      by_cases h : 0 < n ∧ m.bytes ≠ []
      · exact .inr ⟨[min n m.bytes.length], if_pos h, Nat.lt_min.mpr ⟨h.1, List.length_pos_of_ne_nil h.2⟩, Nat.min_le_right _ _⟩
      · exact .inl (if_neg h)

/-- A `sendmsg` for the calls of one batch: the call with that number takes a non-empty part of the message,
or fails with `EAGAIN`. -/
structure Sendmsg where
  call : ℕ → MsgHdr → Option ℕ
  contract : ∀ i m n, call i m = some n → n ≤ m.bytes.length ∧ (m.bytes ≠ [] → 0 < n)

/-- The loop of the `sendmmsg` for Zephyr: the lengths of the messages up to the first failure. -/
def zephyrSendLoop (sendmsg : ℕ → MsgHdr → Option ℕ) : ℕ → List MsgHdr → List ℕ
  | _, [] => []
  | i, m :: rest =>
    match sendmsg i m with
    | none => []
    | some n => n :: zephyrSendLoop sendmsg (i + 1) rest

/-- `sendmmsg` of `dbus_broker_zephyr_compat.h`. -/
def zephyrSendmmsg (sendmsg : Sendmsg) (msgs : List MsgHdr) : SendResult :=
  let lens := zephyrSendLoop sendmsg.call 0 msgs
  if lens.isEmpty && !msgs.isEmpty then .again else .sent lens

end DbusBroker
