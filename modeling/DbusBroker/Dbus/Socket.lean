import DbusBroker.Dbus.IQueue
import DbusBroker.Dbus.SocketOut

/-!
# The life of a socket

Both sides of a socket of `dbus/socket.c` together, with the hangups that one side causes on the other
and the flag that ends the socket. The incoming side is a `SocketIn` and the outgoing side a `SocketOut`.

Answers of the kernel and verdicts of the quota are arguments of the operations. The peer can hang up at
any time, so they are arbitrary.
-/

namespace DbusBroker

/-- `Socket`. -/
structure Socket where
  input : SocketIn
  output : SocketOut
  reset : Bool

/-- `SOCKET_NULL`. -/
def Socket.init : Socket := ⟨.init, .init, false⟩

/-- `iqueue_is_eof`. -/
def iqueueIsEof (q : IQueue) : Bool :=
  q.dataEnd ≤ q.dataCursor && q.target.all fun t => t.copied.length < t.nData

namespace Socket

/-- Both directions hung up, and nothing is left with the kernel. -/
def isHungUp (s : Socket) : Bool := s.input.hupIn && s.output.hupOut && s.output.pending.isEmpty

/-- Both directions hung up, nothing is left with the kernel, and the input has ended. -/
def isOver (s : Socket) : Bool := s.isHungUp && iqueueIsEof s.input.queue

/-- `socket_might_reset`. -/
def mightReset (s : Socket) : Socket := if !s.reset && s.isOver then { s with reset := true } else s

/-- `socket_hangup_input`. -/
def hangupInput (s : Socket) : Socket :=
  if s.input.hupIn then s else ({ s with input := { s.input with hupIn := true } } : Socket).mightReset

/-- `socket_hangup_output`. -/
def hangupOutput (s : Socket) : Socket :=
  if s.output.hupOut then s else ({ s with output := s.output.hangup } : Socket).mightReset

/-- `socket_shutdown`, with `socket_shutdown_now`. -/
def shutdown (s : Socket) : Socket :=
  if s.output.shutdown then s
  else
    let s : Socket := { s with output := { s.output with shutdown := true } }
    if s.output.queue.isEmpty then s.hangupOutput else s

/-- `socket_discard_input`. -/
def discardInput (s : Socket) : Socket :=
  { s with input := { s.input with queue := iqueueFlush s.input.queue, message := none } }

/-- `socket_close`. -/
def close (s : Socket) : Socket := s.hangupInput.shutdown.discardInput.mightReset

/-- A socket that is closed because of a violation, which is recorded. -/
def violate (s : Socket) (v : Violation) : Socket :=
  ({ s with input := { s.input with violation := s.input.violation.or (some v) } } : Socket).close

/-- A socket with another input queue. -/
def setQueue (s : Socket) (q : IQueue) : Socket := { s with input := { s.input with queue := q } }

/-- The end of a call that found nothing in the queue. -/
def noData (s : Socket) : Socket × SocketPop :=
  let s := s.mightReset
  (s, s.input.noData)

/-- `socket_dequeue_line`. -/
def dequeueLine (s : Socket) : Socket × SocketPop :=
  match iqueuePopLine s.input.queue with
  | (q, .pending) => (s.setQueue q).noData
  | (q, .violation) => ((s.setQueue q).violate .unexpectedFds, .eof)
  | (q, .data bytes _) => (s.setQueue q, .line bytes)

/-- The end of `socket_dequeue`, with the message allocated. -/
def dequeueBody (s : Socket) : Socket × SocketPop :=
  let s := s.setQueue (s.input.queue.check s.input.message.isSome)
  match iqueuePopData s.input.queue true with
  | (q, .pending) => (s.setQueue q).noData
  | (q, .violation) => ((s.setQueue q).violate .unexpectedFds, .eof)
  | (q, .data bytes fds) =>
    ({ s with input := { s.input with queue := q, message := none } },
      .message ((s.input.message.elim [] (·.1)) ++ bytes) fds)

/-- The part of `socket_dequeue` that reads the header and allocates the message. -/
def dequeueHeader (s : Socket) (admittedBody : Bool) : Socket × SocketPop :=
  match iqueuePopData s.input.queue false with
  | (q, .pending) => (s.setQueue q).noData
  | (q, .violation) => ((s.setQueue q).violate .unexpectedFds, .eof)
  | (q, .data header _) =>
    match messageNewIncoming header with
    | none => ((s.setQueue q).violate .invalidHeader, .eof)
    | some nData =>
      let (q, ok) := iqueueSetTarget q (nData - messageHeaderSize) admittedBody
      if !ok then (s.setQueue q, .quota)
      else ({ s with input := { s.input with queue := q, message := some (header, nData) } } : Socket).dequeueBody

/-- `socket_dequeue`, with the verdicts on the header and on the message. -/
def dequeue (s : Socket) (admittedHeader admittedBody : Bool) : Socket × SocketPop :=
  let (q, ok) :=
    if s.input.queue.target.isNone then iqueueSetTarget s.input.queue messageHeaderSize admittedHeader
    else (s.input.queue, true)
  let s := s.setQueue q
  if !ok then (s, .quota)
  else if s.input.message.isSome then s.dequeueBody
  else s.dequeueHeader admittedBody

/-- `socket_queue_line`. -/
def queueLine (s : Socket) (line : Bytes) (admitted : Bool) : Socket × SocketResult :=
  let (output, r) := socketQueueLine s.output line admitted
  ({ s with output := output }, r)

/-- `socket_queue`. -/
def queue (s : Socket) (message : SocketMessage) (admitted : Bool) : Socket × SocketResult :=
  let (output, r) := socketQueue s.output message admitted
  ({ s with output := output }, r)

/-- `socket_recvmsg`. -/
def recvmsg (s : Socket) (cursor : IQueueCursor) (room : ℕ) (recv : ℕ → RecvResult) (admittedFds : Bool) : Socket :=
  let s := s.setQueue (s.input.queue.check (0 < room))
  match recv room with
  | .again => s
  | .fatal => s
  | .eof => s.hangupInput
  | .reset => s.hangupInput.hangupOutput
  | .data bytes fds truncated =>
    if truncated then s.violate .truncatedFds
    else
      let fds := if (s.input.queue.fdsAt cursor).isSome then [] else fds
      if fds.isEmpty then s.setQueue (iqueueReceive s.input.queue cursor bytes)
      else if !admittedFds then s.violate .quota
      else s.setQueue (iqueueReceive (s.input.queue.setFdsAt cursor (some fds)) cursor bytes)

/-- `socket_dispatch_read`, with the verdicts on the buffer and on the descriptors. -/
def dispatchRead (s : Socket) (recv : ℕ → RecvResult) (admittedBuffer admittedFds : Bool) : Socket :=
  if s.input.hupIn then s
  else
    match iqueueGetCursor s.input.queue admittedBuffer with
    | (q, .pending) => s.setQueue q
    | (q, .quota) => (s.setQueue q).violate .quota
    | (q, .violation) => (s.setQueue q).violate .lineTooLong
    | (q, .target room) => (s.setQueue q).recvmsg (.target room) room recv admittedFds
    | (q, .buffer room) => (s.setQueue q).recvmsg (.buffer room) room recv admittedFds

/-- What `socket_dispatch_write` does with what `sendmmsg` returns. -/
def sendmsg (s : Socket) (msgs : List MsgHdr) : SendResult → Socket
  | .again => s
  | .fatal => s
  | .hangup => s.hangupOutput
  | .sent lens =>
    let (queue, done, ok) := socketConsume lens s.output.queue
    let s : Socket := { s with
      output := { s.output with
        queue := queue
        pending := s.output.pending ++ done.filter fun b => (b.message.bind (·.fds)).isSome
        wire := s.output.wire ++ takenBytes msgs lens
        dropped := s.output.dropped ++ done
        consumeFailed := s.output.consumeFailed || !ok } }
    if s.output.queue.isEmpty && s.output.shutdown then s.hangupOutput else s

/-- `socket_dispatch_write`, where `outq` is what `SIOCOUTQ` returns. -/
def dispatchWrite (zephyr : Bool) (s : Socket) (outq : ℕ) (sendmmsg : List MsgHdr → SendResult) : Socket :=
  if !s.output.pending.isEmpty && !zephyr && 128 < outq then s
  else
    let s :=
      if s.output.pending.isEmpty then s
      else ({ s with output := { s.output with pending := [] } } : Socket).mightReset
    if s.output.hupOut then s
    else
      let msgs := socketBatch zephyr socketMmsgMax s.output.queue
      if msgs.isEmpty then s else s.sendmsg msgs (sendmmsg msgs)

/-- The events of `socket_dispatch`. -/
inductive Event where
  | epollin
  | epollout
  | epollhup
  deriving DecidableEq, Repr

/-- What the kernel and the quota answer during one call of `socket_dispatch`. -/
structure Answers where
  recv : ℕ → RecvResult
  outq : ℕ
  sendmmsg : List MsgHdr → SendResult
  admittedBuffer : Bool
  admittedFds : Bool

/-- `socket_dispatch`. -/
def dispatch (zephyr : Bool) (s : Socket) (a : Answers) : Event → Socket
  | .epollin => s.dispatchRead a.recv a.admittedBuffer a.admittedFds
  | .epollout => s.dispatchWrite zephyr a.outq a.sendmmsg
  | .epollhup => s.hangupOutput.dispatchRead a.recv a.admittedBuffer a.admittedFds

/-- What is done with a socket. -/
inductive Op where
  | queueLine (line : Bytes) (admitted : Bool)
  | queue (message : SocketMessage) (admitted : Bool)
  | dequeueLine
  | dequeue (admittedHeader admittedBody : Bool)
  | dispatch (event : Event) (answers : Answers)
  | shutdown
  | close

/-- One operation. -/
def step (zephyr : Bool) (s : Socket) : Op → Socket
  | .queueLine line admitted => (s.queueLine line admitted).1
  | .queue message admitted => (s.queue message admitted).1
  | .dequeueLine => s.dequeueLine.1
  | .dequeue admittedHeader admittedBody => (s.dequeue admittedHeader admittedBody).1
  | .dispatch event answers => s.dispatch zephyr answers event
  | .shutdown => s.shutdown
  | .close => s.close

end Socket

end DbusBroker
