import DbusBroker.Util.Strings
import DbusBroker.Lib.Run

/-!
# The incoming side of a socket

The input queue of `dbus/queue.c` with its buffer, cursors and pending target, and the functions
of `dbus/socket.c` that fill it and take lines and messages from it. The memory of the buffer is
a list as long as the buffer; the memory of the target is the list of the bytes copied so far.

The quota verdict of `user_charge` is an argument of the functions that charge. A failed
assertion is a flag. Why a socket was closed is recorded as well; no function reads it.
-/

namespace DbusBroker

/-- `IQUEUE_LINE_MAX`. -/
def iqueueLineMax : ℕ := 16 * 1024

/-- `IQUEUE_RECV_MAX`, the size of the built-in buffer. -/
def iqueueRecvMax : ℕ := 2 * 1024

/-- `MESSAGE_SIZE_MAX`. -/
def messageSizeMax : ℕ := 128 * 1024 * 1024

/-- `sizeof(MessageHeader)`. -/
def messageHeaderSize : ℕ := 16

/-- The pending target of an input queue: its size and what was copied there. -/
structure IQueueTarget where
  nData : ℕ
  copied : Bytes
  deriving DecidableEq, Repr

/-- `IQueue`. `allocated` says that `data` is not the built-in buffer. -/
structure IQueue where
  data : Bytes
  allocated : Bool
  dataSize : ℕ
  dataStart : ℕ
  dataEnd : ℕ
  dataCursor : ℕ
  fds : Option (List ℕ)
  target : Option IQueueTarget
  targetFds : Option (List ℕ)
  assertFailed : Bool
  deriving DecidableEq, Repr

/-- `IQUEUE_NULL`. -/
def IQueue.init : IQueue :=
  ⟨List.replicate iqueueRecvMax 0, false, iqueueRecvMax, 0, 0, 0, none, none, none, false⟩

/-- `c_assert`. -/
def IQueue.check (q : IQueue) (condition : Bool) : IQueue :=
  { q with assertFailed := q.assertFailed || !condition }

/-- `pending.n_data - pending.n_copied`. -/
def IQueue.missing (q : IQueue) : ℕ := q.target.elim 0 fun t => t.nData - t.copied.length

/-- `fdlist_count`. -/
def fdlistCount (fds : Option (List ℕ)) : ℕ := fds.elim 0 List.length

/-- `iqueue_flush`. -/
def iqueueFlush (q : IQueue) : IQueue :=
  { q with dataStart := 0, dataEnd := 0, dataCursor := 0, fds := none, target := none, targetFds := none }

/-- `iqueue_set_target`; false if the quota is exceeded. -/
def iqueueSetTarget (q : IQueue) (nData : ℕ) (admitted : Bool) : IQueue × Bool :=
  let q := q.check q.target.isNone
  if admitted then ({ q with target := some ⟨nData, []⟩ }, true) else (q, false)

/-- What `iqueue_get_cursor` returns: where to read to, and how many bytes. -/
inductive IQueueCursor where
  | pending
  | quota
  | violation
  | target (room : ℕ)
  | buffer (room : ℕ)
  deriving DecidableEq, Repr

/-- The shift of the input buffer to its start. -/
def iqueueShift (q : IQueue) : IQueue :=
  let n := q.dataEnd - q.dataStart
  { q with
    data := (q.data.drop q.dataStart).take n ++ q.data.drop n
    dataCursor := q.dataCursor - q.dataStart
    dataEnd := n
    dataStart := 0 }

/-- The reallocation of the input buffer to its maximum. -/
def iqueueEnlarge (q : IQueue) : IQueue :=
  { (q.check (q.dataStart == 0)).check (!q.allocated) with
    data := q.data.take q.dataEnd ++ List.replicate (iqueueLineMax - q.dataEnd) 0
    allocated := true
    dataSize := iqueueLineMax }

/-- The return to the built-in buffer. -/
def iqueueShrink (q : IQueue) : IQueue :=
  { (q.check (q.dataStart == 0)).check (q.dataEnd ≤ iqueueRecvMax) with
    data := q.data.take q.dataEnd ++ List.replicate (iqueueRecvMax - q.dataEnd) 0
    allocated := false
    dataSize := iqueueRecvMax }

/-- The choice between the target and the input buffer. -/
def iqueueChoose (q : IQueue) : IQueueCursor :=
  if q.dataSize - q.dataEnd ≤ q.missing then .target q.missing
  else .buffer (min (q.dataSize - q.dataEnd) iqueueRecvMax)

/-- `iqueue_get_cursor`. -/
def iqueueGetCursor (q : IQueue) (admitted : Bool) : IQueue × IQueueCursor :=
  let q := iqueueShift q
  if q.dataCursor < q.dataEnd then (q, .pending)
  else if q.dataSize ≤ q.dataEnd then
    if iqueueLineMax ≤ q.dataSize then (q, .violation)
    else if !admitted then (q, .quota)
    else
      let q := iqueueEnlarge q
      (q, iqueueChoose q)
  else if q.allocated && q.target.isSome then
    let q := iqueueShrink q
    (q, iqueueChoose q)
  else (q, iqueueChoose q)

/-- What the scan for the end of a line finds, and the cursor there. -/
inductive LineScan where
  | pending (cursor : ℕ)
  | violation (cursor : ℕ)
  | found (cursor : ℕ)
  deriving DecidableEq, Repr

/-- The loop of `iqueue_pop_line` over the next `n` bytes. -/
def iqueueScan (q : IQueue) : ℕ → ℕ → LineScan
  | 0, cursor => .pending cursor
  | n + 1, cursor =>
    if q.dataEnd ≤ cursor + 1 && 0 < fdlistCount q.fds then .violation cursor
    else if 0 < cursor && q.data[cursor]? == some 0x0a && q.data[cursor - 1]? == some 0x0d then .found cursor
    else iqueueScan q n (cursor + 1)

/-- What the functions that take something from the queue return. -/
inductive IQueuePop where
  | pending
  | violation
  | data (bytes : Bytes) (fds : Option (List ℕ))
  deriving DecidableEq, Repr

/-- `iqueue_pop_line`. -/
def iqueuePopLine (q : IQueue) : IQueue × IQueuePop :=
  let q := q.check q.target.isNone
  match iqueueScan q (q.dataEnd - q.dataCursor) q.dataCursor with
  | .pending cursor => ({ q with dataCursor := cursor }, .pending)
  | .violation cursor => ({ q with dataCursor := cursor }, .violation)
  | .found cursor =>
    let n := cursor - q.dataStart - 1
    ({ q with
        data := q.data.set (q.dataStart + n) 0
        dataStart := cursor + 1
        dataCursor := cursor + 1 },
      .data ((q.data.drop q.dataStart).take n) none)

/-- The copy of `iqueue_pop_data` from the input buffer to the target. -/
def iqueueCopy (q : IQueue) (t : IQueueTarget) : IQueue × IQueueTarget :=
  let n := min (q.dataEnd - q.dataStart) (t.nData - t.copied.length)
  ({ q with dataStart := q.dataStart + n, dataCursor := q.dataCursor + n },
    { t with copied := t.copied ++ (q.data.drop q.dataStart).take n })

/-- `iqueue_pop_data`. The descriptors stay in the queue unless the caller wants them. -/
def iqueuePopData (q : IQueue) (wanted : Bool) : IQueue × IQueuePop :=
  match q.target with
  | none => (q.check false, .pending)
  | some t =>
    let q := q.check (t.copied.length ≤ t.nData)
    let (q, t) := iqueueCopy q t
    let q := { q with target := some t }
    if q.dataEnd - q.dataStart == 0 && q.fds.isSome && q.targetFds.isSome then (q, .violation)
    else
      let q :=
        if q.dataEnd - q.dataStart == 0 && q.fds.isSome then { q with targetFds := q.fds, fds := none } else q
      if t.copied.length < t.nData then (q, .pending)
      else if wanted then ({ q with target := none, targetFds := none }, .data t.copied q.targetFds)
      else ({ q with target := none }, .data t.copied none)

/-! ## The socket -/

/-- Why the incoming side of a socket was closed. -/
inductive Violation where
  | lineTooLong
  | invalidHeader
  | unexpectedFds
  | truncatedFds
  | quota
  deriving DecidableEq, Repr

/-- The incoming side of `Socket`. The message is known by its header and its size. -/
structure SocketIn where
  queue : IQueue
  message : Option (Bytes × ℕ)
  hupIn : Bool
  violation : Option Violation
  deriving DecidableEq, Repr

/-- `SOCKET_NULL`. -/
def SocketIn.init : SocketIn := ⟨.init, none, false, none⟩

/-- `socket_close`, as far as the incoming side is concerned. -/
def SocketIn.close (s : SocketIn) (v : Violation) : SocketIn :=
  { s with queue := iqueueFlush s.queue, message := none, hupIn := true, violation := s.violation.or (some v) }

/-- `le32toh` and `be32toh` of four bytes. -/
def uint32OfBytes (bigEndian : Bool) (bytes : Bytes) : ℕ :=
  (if bigEndian then bytes.reverse else bytes).foldr (fun b n => b.toNat + 256 * n) 0

/-- `c_align_to(n, 8)`. -/
def alignTo8 (n : ℕ) : ℕ := (n + 7) / 8 * 8

/-- `message_new_incoming`: the size of the message, if the header is not corrupt and the message not too
large. -/
def messageNewIncoming (header : Bytes) : Option ℕ :=
  let size (bigEndian : Bool) : Option ℕ :=
    let nHeader := messageHeaderSize + uint32OfBytes bigEndian ((header.drop 12).take 4)
    let nData := alignTo8 nHeader + uint32OfBytes bigEndian ((header.drop 4).take 4)
    if messageSizeMax < nData then none else some nData
  if header.head? == some 0x6c then size false
  else if header.head? == some 0x42 then size true
  else none

/-- What `socket_dequeue_line` and `socket_dequeue` return. -/
inductive SocketPop where
  | nothing
  | eof
  | quota
  | line (bytes : Bytes)
  | message (bytes : Bytes) (fds : Option (List ℕ))
  deriving DecidableEq, Repr

/-- The end of both functions when the queue has nothing more. -/
def SocketIn.noData (s : SocketIn) : SocketPop := if s.hupIn then .eof else .nothing

/-- `socket_dequeue_line`. -/
def socketDequeueLine (s : SocketIn) : SocketIn × SocketPop :=
  match iqueuePopLine s.queue with
  | (q, .pending) => ({ s with queue := q }, s.noData)
  | (q, .violation) => (({ s with queue := q } : SocketIn).close .unexpectedFds, .eof)
  | (q, .data bytes _) => ({ s with queue := q }, .line bytes)

/-- The end of `socket_dequeue`, with the message allocated. -/
def socketDequeueBody (s : SocketIn) : SocketIn × SocketPop :=
  let s := { s with queue := s.queue.check s.message.isSome }
  match iqueuePopData s.queue true with
  | (q, .pending) => ({ s with queue := q }, s.noData)
  | (q, .violation) => (({ s with queue := q } : SocketIn).close .unexpectedFds, .eof)
  | (q, .data bytes fds) =>
    ({ s with queue := q, message := none }, .message ((s.message.elim [] (·.1)) ++ bytes) fds)

/-- `socket_dequeue`. -/
def socketDequeue (s : SocketIn) (admitted : Bool) : SocketIn × SocketPop :=
  let (q, ok) := if s.queue.target.isNone then iqueueSetTarget s.queue messageHeaderSize admitted else (s.queue, true)
  let s := { s with queue := q }
  if !ok then (s, .quota)
  else if s.message.isSome then socketDequeueBody s
  else
    match iqueuePopData s.queue false with
    | (q, .pending) => ({ s with queue := q }, s.noData)
    | (q, .violation) => (({ s with queue := q } : SocketIn).close .unexpectedFds, .eof)
    | (q, .data header _) =>
      match messageNewIncoming header with
      | none => (({ s with queue := q } : SocketIn).close .invalidHeader, .eof)
      | some nData =>
        let (q, ok) := iqueueSetTarget q (nData - messageHeaderSize) admitted
        if !ok then ({ s with queue := q }, .quota)
        else socketDequeueBody { s with queue := q, message := some (header, nData) }

/-- What `recvmsg` returns: an error by how it is handled, the end of the stream, or some bytes and the descriptors
that came with them. -/
inductive RecvResult where
  | again
  | fatal
  | reset
  | eof
  | data (bytes : Bytes) (fds : List ℕ) (truncated : Bool)
  deriving DecidableEq, Repr

/-- The bytes that were read, at the place that the cursor denotes. -/
def iqueueReceive (q : IQueue) (cursor : IQueueCursor) (bytes : Bytes) : IQueue :=
  match cursor with
  | .target _ => { q with target := q.target.map fun t => { t with copied := t.copied ++ bytes } }
  | .buffer _ =>
    { q with
      data := q.data.take q.dataEnd ++ bytes ++ q.data.drop (q.dataEnd + bytes.length)
      dataEnd := q.dataEnd + bytes.length }
  | _ => q

/-- The descriptors at the place that the cursor denotes. -/
def IQueue.fdsAt (q : IQueue) : IQueueCursor → Option (List ℕ)
  | .target _ => q.targetFds
  | _ => q.fds

/-- Descriptors put there. -/
def IQueue.setFdsAt (q : IQueue) (cursor : IQueueCursor) (fds : Option (List ℕ)) : IQueue :=
  match cursor with
  | .target _ => { q with targetFds := fds }
  | _ => { q with fds := fds }

/-- `socket_recvmsg`, where `room` is asserted to be positive. Descriptors that come when there are some already
are dropped. -/
def socketRecvmsg (s : SocketIn) (cursor : IQueueCursor) (room : ℕ) (recv : ℕ → RecvResult) (admitted : Bool) :
    SocketIn :=
  let s := { s with queue := s.queue.check (0 < room) }
  match recv room with
  | .again => s
  | .fatal => s
  | .eof => { s with hupIn := true }
  | .reset => { s with hupIn := true }
  | .data bytes fds truncated =>
    if truncated then s.close .truncatedFds
    else
      let fds := if (s.queue.fdsAt cursor).isSome then [] else fds
      if fds.isEmpty then { s with queue := iqueueReceive s.queue cursor bytes }
      else if !admitted then s.close .quota
      else { s with queue := iqueueReceive (s.queue.setFdsAt cursor (some fds)) cursor bytes }

/-- `socket_dispatch_read`. -/
def socketDispatchRead (s : SocketIn) (recv : ℕ → RecvResult) (admitted : Bool) : SocketIn :=
  if s.hupIn then s
  else
    match iqueueGetCursor s.queue admitted with
    | (q, .pending) => { s with queue := q }
    | (q, .quota) => ({ s with queue := q } : SocketIn).close .quota
    | (q, .violation) => ({ s with queue := q } : SocketIn).close .lineTooLong
    | (q, .target room) => socketRecvmsg { s with queue := q } (.target room) room recv admitted
    | (q, .buffer room) => socketRecvmsg { s with queue := q } (.buffer room) room recv admitted

end DbusBroker
