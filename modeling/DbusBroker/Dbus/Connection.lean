import DbusBroker.Dbus.Message
import DbusBroker.Util.User

/-!
# Connections

The outgoing side of a connection from `dbus/connection.c` and `dbus/socket.c`, as its callers
see it: which messages are queued, what they are charged, and when the connection takes no
more of them. The incoming side is the messages that are dispatched; here it is only known
whether it ended.
-/

namespace DbusBroker

/-- `SocketBuffer` of a message, with its charges. -/
structure SocketBuffer where
  message : Message
  charges : UserCharge × UserCharge

/-- `Connection`. The user is the one the socket is accounted on. -/
structure Connection where
  user : Option Uid
  fdsAllowed : Bool
  hupIn : Bool
  hupOut : Bool
  shutdown : Bool
  queue : List SocketBuffer

/-- `CONNECTION_NULL`. -/
def Connection.null : Connection := ⟨none, false, true, true, true, []⟩

/-- What `connection_queue` returns. -/
inductive ConnectionResult where
  | success
  | quota
  | unexpectedFds
  deriving DecidableEq, Repr

/-- The charges of `socket_buffer_free`. -/
def socketBufferDischarge (users : UserRegistry) (charges : UserCharge × UserCharge) : UserRegistry :=
  let (users, _) := userChargeDeinit users charges.2
  (userChargeDeinit users charges.1).1

/-- The charges of `socket_buffer_new_message`; the second one is not tried after the first one failed. -/
def socketBufferCharge (sizes : Sizes) (users : UserRegistry) (user actor : Option Uid) (m : Message) :
    UserRegistry × (UserCharge × UserCharge) × UserResult :=
  let (users, bytes, r) := userCharge users user .init actor userSlotBytes
    (UInt32.ofNat (sizes.socketBuffer + sizes.message + m.nData))
  match r with
  | .quota => (users, (bytes, .init), .quota)
  | .success =>
    let (users, fds, r) := userCharge users user .init actor userSlotFds (UInt32.ofNat m.nFds)
    (users, (bytes, fds), r)

/-- `connection_queue`. A message to a connection that is shut down is swallowed. -/
def connectionQueue (sizes : Sizes) (users : UserRegistry) (c : Connection) (actor : Option Uid) (m : Message) :
    UserRegistry × Connection × ConnectionResult :=
  if 0 < m.nFds && !c.fdsAllowed then (users, c, .unexpectedFds)
  else if c.hupOut || c.shutdown then (users, c, .success)
  else
    match socketBufferCharge sizes users c.user actor m with
    | (users, charges, .quota) => (socketBufferDischarge users charges, c, .quota)
    | (users, charges, .success) => (users, { c with queue := c.queue ++ [⟨m, charges⟩] }, .success)

/-- `socket_discard_output`. -/
def socketDiscardOutput (users : UserRegistry) (c : Connection) : UserRegistry × Connection :=
  (c.queue.foldl (fun users buffer => socketBufferDischarge users buffer.charges) users, { c with queue := [] })

/-- `socket_hangup_output`. -/
def socketHangupOutput (users : UserRegistry) (c : Connection) : UserRegistry × Connection :=
  if c.hupOut then (users, c) else socketDiscardOutput users { c with hupOut := true }

/-- `connection_shutdown`. What is queued is still sent. -/
def connectionShutdown (c : Connection) : Connection :=
  if c.shutdown then c else { c with shutdown := true, hupOut := c.hupOut || c.queue.isEmpty }

/-- `connection_close`. -/
def connectionClose (c : Connection) : Connection := connectionShutdown { c with hupIn := true }

/-- `socket_dispatch_write` when the first buffer was sent completely. -/
def socketSent (users : UserRegistry) (c : Connection) : UserRegistry × Connection :=
  match c.queue with
  | [] => (users, c)
  | buffer :: rest =>
    (socketBufferDischarge users buffer.charges,
      { c with queue := rest, hupOut := c.hupOut || (c.shutdown && rest.isEmpty) })

/-- `connection_is_running`, where `pending` says that descriptors of sent messages are still held. -/
def connectionIsRunning (c : Connection) (pending : Bool) : Bool := !(c.hupIn && c.hupOut && !pending)

end DbusBroker
