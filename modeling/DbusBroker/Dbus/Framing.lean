import DbusBroker.Dbus.IQueue
import Mathlib.Algebra.GroupWithZero.Nat

/-!
# Framing of the input stream

A plain parser of the whole stream, and the socket fed with that stream in pieces: any sequence of
reads of any size and of calls that take the next line or message.
-/

namespace DbusBroker

/-! ## The plain parser -/

/-- The position of the first line end in a stream. -/
def crlfIndex : Bytes → Option ℕ
  | a :: b :: rest => if a = 0x0d ∧ b = 0x0a then some 0 else (crlfIndex (b :: rest)).map (· + 1)
  | _ => none

/-- What is taken from a stream. -/
inductive Item where
  | line (bytes : Bytes)
  | message (bytes : Bytes)
  deriving DecidableEq, Repr

/-- How many bytes of the stream an item takes. -/
def Item.size : Item → ℕ
  | .line bytes => bytes.length + 2
  | .message bytes => bytes.length

/-- The authentication: whether it is finished after the lines so far. -/
abbrev Sasl := List Bytes → Bool

/-- What is expected next: a line, after those so far, or a message. -/
inductive Mode where
  | lines (sofar : List Bytes)
  | messages
  deriving DecidableEq, Repr

/-- The mode after one more line. -/
def Sasl.next (auth : Sasl) (sofar : List Bytes) (line : Bytes) : Mode :=
  if auth (sofar ++ [line]) then .messages else .lines (sofar ++ [line])

/-- The next item of a stream. -/
inductive Next where
  | incomplete
  | violation (v : Violation)
  | item (item : Item)
  deriving DecidableEq, Repr

/-- The item that a stream starts with. -/
def nextItem (mode : Mode) (stream : Bytes) : Next :=
  match mode with
  | .lines _ =>
    match crlfIndex (stream.take iqueueLineMax) with
    | some i => .item (.line (stream.take i))
    | none => if stream.length < iqueueLineMax then .incomplete else .violation .lineTooLong
  | .messages =>
    if stream.length < messageHeaderSize then .incomplete
    else
      match messageNewIncoming (stream.take messageHeaderSize) with
      | none => .violation .invalidHeader
      | some n => if stream.length < n then .incomplete else .item (.message (stream.take n))

/-- The mode after an item. -/
def Mode.after (auth : Sasl) : Mode → Item → Mode
  | .lines sofar, .line bytes => auth.next sofar bytes
  | mode, _ => mode

/-- What a parser makes of a whole stream: the items, and at which position it met which violation, if any. -/
structure Parse where
  items : List Item
  violation : Option (ℕ × Violation)
  deriving DecidableEq, Repr

/-- One more item at the front. -/
def Parse.cons (item : Item) (p : Parse) : Parse :=
  ⟨item :: p.items, p.violation.map fun (at_, v) => (item.size + at_, v)⟩

/-- A message is at least a header. -/
theorem messageHeaderSize_le {header : Bytes} {n : ℕ} (h : messageNewIncoming header = some n) :
    messageHeaderSize ≤ n := by
  have hsize (k body : ℕ) : messageHeaderSize ≤ alignTo8 (messageHeaderSize + k) + body := by
    rw [messageHeaderSize, alignTo8]
    omega
  rw [messageNewIncoming] at h
  split at h
  · dsimp only at h
    split at h
    · exact nomatch h
    · cases h
      exact hsize _ _
  · split at h
    · dsimp only at h
      split at h
      · exact nomatch h
      · cases h
        exact hsize _ _
    · exact nomatch h

/-- A line end lies within the stream. -/
theorem crlfIndex_lt {s : Bytes} {i : ℕ} (h : crlfIndex s = some i) : i + 1 < s.length := by
  induction s generalizing i with
  | nil => exact nomatch h
  | cons a rest ih =>
    cases rest with
    | nil => exact nomatch h
    | cons b rest =>
      rw [crlfIndex] at h
      split at h
      · cases h
        simp
      · obtain ⟨j, hj, rfl⟩ := Option.map_eq_some_iff.mp h
        have := ih hj
        simp only [List.length_cons] at this ⊢
        omega

/-- An item takes something, and not more than there is. -/
theorem size_of_nextItem {mode : Mode} {stream : Bytes} {item : Item} (h : nextItem mode stream = .item item) :
    0 < item.size ∧ item.size ≤ stream.length := by
  rw [nextItem.eq_def] at h
  cases mode with
  | lines sofar =>
    dsimp only at h
    cases hi : crlfIndex (stream.take iqueueLineMax) with
    | none =>
      rw [hi] at h
      dsimp only at h
      split at h <;> exact nomatch h
    | some i =>
      rw [hi] at h
      cases h
      have hlt := crlfIndex_lt hi
      rw [List.length_take] at hlt
      simp only [Item.size, List.length_take]
      omega
  | messages =>
    dsimp only at h
    split at h
    · exact nomatch h
    next hlen =>
    cases hn : messageNewIncoming (stream.take messageHeaderSize) with
    | none =>
      rw [hn] at h
      exact nomatch h
    | some n =>
      rw [hn] at h
      dsimp only at h
      split at h
      · exact nomatch h
      next hn' =>
      cases h
      have := messageHeaderSize_le hn
      rw [messageHeaderSize] at this
      simp only [Item.size, List.length_take]
      omega

/-- The plain parser: item by item, up to a violation or the end of the stream. -/
def plainParse (auth : Sasl) (mode : Mode) (stream : Bytes) : Parse :=
  match _h : nextItem mode stream with
  | .incomplete => ⟨[], none⟩
  | .violation v => ⟨[], some (0, v)⟩
  | .item item => (plainParse auth (mode.after auth item) (stream.drop item.size)).cons item
termination_by stream.length
decreasing_by
  have := size_of_nextItem _h
  rw [List.length_drop]
  omega

/-! ## The socket fed with a stream -/

/-- A set of descriptors that was received: the number of bytes of the stream up to the end of its piece, and whether
the piece was read straight to the target. -/
structure FdSet where
  stop : ℕ
  fds : List ℕ
  direct : Bool
  deriving DecidableEq, Repr

/-- The socket, the bytes that are still on their way and how many were received, what was taken so far with the
descriptors that came along, the sets of descriptors that were received, and those of them that were dropped on
arrival. -/
structure Feed where
  socket : SocketIn
  unread : Bytes
  received : ℕ
  mode : Mode
  items : List (Item × Option (List ℕ))
  sets : List FdSet
  discarded : List FdSet

/-- The start: nothing was read. -/
def Feed.init (stream : Bytes) : Feed := ⟨.init, stream, 0, .lines [], [], [], []⟩

/-- A read that returns at most `size + 1` bytes, with the descriptors that come along with them, and the
attempt to take the next line or message. -/
inductive FeedOp where
  | read (size : ℕ) (fds : List ℕ)
  | pop
  deriving DecidableEq, Repr

/-- The piece of the stream that a read returns. -/
def Feed.piece (f : Feed) (size room : ℕ) : Bytes := f.unread.take (min (size + 1) room)

/-- `recvmsg` on the stream. -/
def Feed.recv (f : Feed) (size : ℕ) (fds : List ℕ) (room : ℕ) : RecvResult :=
  if f.unread.isEmpty then .again else .data (f.piece size room) fds false

/-- Where `socket_dispatch_read` reads to, if it reads. -/
def SocketIn.cursor (s : SocketIn) : Option IQueueCursor :=
  if s.hupIn then none
  else
    match (iqueueGetCursor s.queue true).2 with
    | .target room => some (.target room)
    | .buffer room => some (.buffer room)
    | _ => none

/-- The room that a cursor leaves. -/
def IQueueCursor.room : IQueueCursor → ℕ
  | .target room => room
  | .buffer room => room
  | _ => 0

/-- The cursor denotes the target. -/
def IQueueCursor.isTarget : IQueueCursor → Bool
  | .target _ => true
  | _ => false

/-- A read from the stream. -/
def Feed.read (f : Feed) (size : ℕ) (fds : List ℕ) : Feed :=
  let piece := (f.socket.cursor).elim [] fun cursor => f.piece size cursor.room
  let direct := (f.socket.cursor).any (·.isTarget)
  let set := if piece.isEmpty || fds.isEmpty then [] else [⟨f.received + piece.length, fds, direct⟩]
  let spurious := (f.socket.cursor).any fun cursor => ((iqueueGetCursor f.socket.queue true).1.fdsAt cursor).isSome
  { f with
    socket := socketDispatchRead f.socket (f.recv size fds) true
    unread := f.unread.drop piece.length
    received := f.received + piece.length
    sets := f.sets ++ set
    discarded := f.discarded ++ if spurious then set else [] }

/-- The next line or message is taken from the socket. -/
def Feed.pop (auth : Sasl) (f : Feed) : Feed :=
  match f.mode with
  | .lines sofar =>
    match socketDequeueLine f.socket with
    | (socket, .line bytes) =>
      { f with socket := socket, mode := auth.next sofar bytes, items := f.items ++ [(.line bytes, none)] }
    | (socket, _) => { f with socket := socket }
  | .messages =>
    match socketDequeue f.socket true with
    | (socket, .message bytes fds) => { f with socket := socket, items := f.items ++ [(.message bytes, fds)] }
    | (socket, _) => { f with socket := socket }

/-- One operation. -/
def Feed.step (auth : Sasl) (f : Feed) : FeedOp → Feed
  | .read size fds => f.read size fds
  | .pop => f.pop auth

/-- How many bytes of the stream the items take. -/
def itemsSize (items : List (Item × Option (List ℕ))) : ℕ := (items.map (·.1.size)).sum

/-- What the feed has made of the stream so far. -/
def Feed.outcome (f : Feed) : Parse :=
  ⟨f.items.map (·.1), f.socket.violation.map fun v => (itemsSize f.items, v)⟩

end DbusBroker
