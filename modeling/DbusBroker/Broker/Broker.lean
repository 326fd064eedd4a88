import DbusBroker.Bus.Dispatch
import DbusBroker.Lib.Run
import Mathlib.Data.UInt

/-!
# The broker

What happens to a broker: clients connect, send messages and leave, the kernel takes what
is queued for them, and the controller manages activatable names. Each event runs to its
end before the next one, as `dispatch_context_dispatch` calls one handler after the other.

When the broker ends, all peers are dropped silently and nothing happens any more.
-/

namespace DbusBroker

open Std

/-- A bus and whether its broker still runs. -/
structure Broker where
  bus : Bus
  running : Bool

/-- What happens to a broker. -/
inductive BrokerOp where
  | connect (uid : Uid) (admitted fdsAllowed : Bool)
  | message (id : ℕ) (message : Message) (body : Body) (outside : Outside)
  | eof (id : ℕ) (policy : Policy) (pending : Bool)
  | violation (id : ℕ) (policy : Policy) (pending : Bool)
  | sent (id : ℕ)
  | hangupOutput (id : ℕ)
  | addName (path name : Bytes) (uid : Uid)
  | releaseName (path reason : Bytes)
  | resetName (path : Bytes) (serial : ℕ) (reason : Bytes)
  | reloaded (serial : UInt32) (valid : Bool)
  | controllerSent
  | exit

section Peers

variable (sizes : Sizes)

/-- The end of `peer_dispatch`: a peer whose connection is done is freed. -/
def peerReap (b : Bus) (id : ℕ) (pending : Bool) : Bus :=
  if connectionIsRunning (b.connections id) pending then b else peerFree b id

/-- `peer_dispatch` at the end of the input. What is queued for the peer is still sent. -/
def peerDispatchEof (b : Bus) (id : ℕ) (policy : Policy) (pending : Bool) : Bus :=
  let b := b.setConnection id { b.connections id with hupIn := true }
  let b := driverGoodbye sizes policy b id false
  peerReap (b.setConnection id (connectionShutdown (b.connections id))) id pending

/-- `peer_dispatch` on a violation of the protocol. -/
def peerDispatchViolation (b : Bus) (id : ℕ) (policy : Policy) (pending : Bool) : Bus :=
  let b := b.setConnection id (connectionClose (b.connections id))
  peerReap (driverGoodbye sizes policy b id false) id pending

/-- `message_stitch_sender`, as far as the metadata know of it. -/
def messageStitchSender (m : Message) (id : ℕ) : Message :=
  { m with metadata := { m.metadata with senderId := some id } }

/-- `peer_dispatch` of one message, with the fatal error if there is one. -/
def peerDispatchMessage (b : Bus) (id : ℕ) (user : Uid) (m : Message) (body : Body) (outside : Outside) :
    Bus × Bool :=
  match driverDispatch sizes outside b id user (messageStitchSender m id) body with
  | (b, none) => (b, false)
  | (b, some .fatal) => (b, true)
  | (b, some _) => (peerDispatchViolation sizes b id outside.policy outside.pending, false)

/-- `peer_registry_flush`. -/
def peerRegistryFlush (b : Bus) : Bus :=
  b.peers.keys.foldl (fun b id => peerFree (driverGoodbye sizes .permissive b id true) id) b

end Peers

section Names

variable (sizes : Sizes)

/-- `controller_add_name`. -/
def controllerAddName (b : Bus) (path name : Bytes) (uid : Uid) : Bus :=
  let names := nameRegistryRefName b.names name
  let users := userRegistryRefUser b.users uid
  let b := { b with names := names, users := users }
  let b := if (b.activations.find? path).isSome then b
    else
      match activationInit users names path name uid with
      | (users, names, some activation) => { b with users := users, names := names }.setActivation path activation
      | (_, _, none) => b
  { b with users := userUnref b.users uid, names := nameUnref b.idle b.names name }

/-- `controller_name_free`. -/
def controllerNameFree (b : Bus) (path : Bytes) : Bus :=
  match b.activations.find? path with
  | none => b
  | some activation =>
    let (users, names) := activationDeinit b.idle b.users b.names activation
    { b with users := users, names := names, activations := b.activations.erase path }

/-- `controller_method_name_release`. -/
def controllerMethodNameRelease (b : Bus) (path reason : Bytes) : Bus :=
  match b.activations.find? path with
  | none => b
  | some activation =>
    controllerNameFree (driverNameActivationFailed sizes b path activation.pending reason) path

/-- The reply of the controller to a request to reload, `controller_dispatch_reply` and `controller_dispatch_error`. -/
def controllerDispatchReload (b : Bus) (serial : UInt32) (valid : Bool) : Bus :=
  match (b.controller.reloadTree.find? serial).bind fun i => (b.controller.reloads.read i).map fun r => (i, r) with
  | none => b
  | some (i, r) =>
    let b := match r.senderId.bind (peerRegistryFindPeer b) with
      | none => b
      | some sender =>
        if valid then driverSendReply sizes b sender r.senderSerial []
        else driverSendError sizes b sender r.senderSerial (lit "org.freedesktop.DBus.Error.Failed")
          (lit "Config invalid. Reload ignored.")
    let (users, controller) := controllerReloadFree b.users b.controller i
    { b with users := users, controller := controller }

end Names

namespace Broker

/-- Sizes of objects that do not count. -/
def noSizes : Sizes := ⟨0, 0, 0, 0, 0, 0, 0, fun _ => 0⟩

/-- A call of a method of the driver. -/
def callMessage (interface member : Bytes) (serial : UInt32) : Message where
  metadata :=
    { type := dbusMessageTypeMethodCall
      flags := 0
      serial := serial
      senderId := none
      path := some driverPath
      interface := some interface
      member := some member
      errorName := none
      replySerial := 0
      destination := some driverName
      args := [] }
  nData := 0
  nFds := 0

/-- Everything is allowed. -/
def allOutside : Outside := ⟨.permissive, true, .ok ([], 0), 0, false, nofun⟩

/-- The first call of a peer. -/
def helloOp (id : ℕ) : BrokerOp := .message id (callMessage driverName (lit "Hello") 1) .unit allOutside

/-- A message from one peer to another. -/
def peerMessage (type flags : UInt8) (serial replySerial : UInt32) (destination nFds : ℕ) : Message where
  metadata :=
    { type := type
      flags := flags
      serial := serial
      senderId := none
      path := some (lit "/org/example")
      interface := some (lit "org.example")
      member := some (lit "Open")
      errorName := none
      replySerial := replySerial
      destination := some (addressIdToString destination)
      args := [] }
  nData := 0
  nFds := nFds

/-- A peer that takes no descriptors calls another one. -/
def twoPeers (flags : UInt8) : List BrokerOp :=
  [.connect 0 true false, .connect 0 true true, helloOp 0, helloOp 1,
    .message 0 (peerMessage dbusMessageTypeMethodCall flags 5 0 1 0) .unit allOutside]

variable (sizes : Sizes)

/-- `broker_new`. -/
def init (users : UserRegistry) (user : Uid) (controllerConnection : Connection) : Broker :=
  ⟨.init users user controllerConnection, true⟩

/-- The end of `broker_run`. -/
def stop (b : Bus) : Broker := ⟨peerRegistryFlush sizes b, false⟩

/-- What happens to the bus of a running broker. Messages come from connected peers whose input has not
ended; an event for anybody else does not happen. -/
def perform (b : Bus) : BrokerOp → Broker
  | .connect uid admitted fdsAllowed => ⟨(peerNewWithFd sizes b uid admitted fdsAllowed).1, true⟩
  | .message id message body outside =>
    match b.peers.find? id with
    | none => ⟨b, true⟩
    | some peer =>
      if (b.connections id).hupIn then ⟨b, true⟩
      else
        match peerDispatchMessage sizes b id peer.user message body outside with
        | (b, false) => ⟨b, true⟩
        | (b, true) => stop sizes b
  | .eof id policy pending =>
    if (b.peers.find? id).isSome then ⟨peerDispatchEof sizes b id policy pending, true⟩ else ⟨b, true⟩
  | .violation id policy pending =>
    if (b.peers.find? id).isSome && !(b.connections id).hupIn then
      ⟨peerDispatchViolation sizes b id policy pending, true⟩
    else ⟨b, true⟩
  | .sent id =>
    let (users, c) := socketSent b.users (b.connections id)
    ⟨{ b with users := users }.setConnection id c, true⟩
  | .hangupOutput id =>
    let (users, c) := socketHangupOutput b.users (b.connections id)
    ⟨{ b with users := users }.setConnection id c, true⟩
  | .addName path name uid => ⟨controllerAddName b path name uid, true⟩
  | .releaseName path reason => ⟨controllerMethodNameRelease sizes b path reason, true⟩
  | .resetName path serial reason => ⟨driverNameActivationFailed sizes b path serial reason, true⟩
  | .reloaded serial valid => ⟨controllerDispatchReload sizes b serial valid, true⟩
  | .controllerSent =>
    let (users, c) := socketSent b.users b.controllerConnection
    ⟨{ b with users := users, controllerConnection := c }, true⟩
  | .exit => stop sizes b

/-- A broker of root with a generous quota. -/
def roomy : Broker := init ⟨false, .empty, 4, fun _ => 2 ^ 31, false, false⟩ 0 ⟨some 0, false, false, false, false, []⟩

/-- One event. -/
def step (s : Broker) (op : BrokerOp) : Broker := if s.running then perform sizes s.bus op else s

end Broker

end DbusBroker
