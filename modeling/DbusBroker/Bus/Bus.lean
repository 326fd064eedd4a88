import DbusBroker.Broker.Controller
import DbusBroker.Bus.Activation
import DbusBroker.Bus.MatchOwner
import DbusBroker.Bus.Reply
import DbusBroker.Dbus.Connection

/-!
# The bus

The state of `bus/bus.c`: the registries of names, match rules, replies and peers, and what
the controller knows of it. A peer is its id. What the source embeds in a `Peer` or a `Name`
is in the table of its kind, under the id of the peer or the string of the name.

The bus keeps a trace of what it did. No function reads the trace.
-/

namespace DbusBroker

open Std

/-- The name of the driver. -/
def driverName : Bytes := lit "org.freedesktop.DBus"

/-- The match registries of a bus: two of its own, two of every peer and two of every name. -/
inductive RegistryRef where
  | wildcard
  | driver
  | peerSender (id : ℕ)
  | peerNameOwnerChanged (id : ℕ)
  | nameSender (name : Bytes)
  | nameNameOwnerChanged (name : Bytes)
  deriving DecidableEq

/-- The name that holds a registry. -/
def RegistryRef.name : RegistryRef → Option Bytes
  | .nameSender name => some name
  | .nameNameOwnerChanged name => some name
  | _ => none

/-- `Peer`, without what is in the tables of the bus. -/
structure Peer where
  user : Uid
  registered : Bool
  monitor : Bool
  charges : UserCharge × UserCharge × UserCharge

/-- What the peer functions return. -/
inductive PeerResult where
  | success
  | quota
  | connectionRefused
  | sendDenied
  | receiveDenied
  | nameReserved
  | nameUnique
  | nameRefused
  | nameAlreadyOwner
  | nameInQueue
  | nameExists
  | nameNotFound
  | nameNotOwner
  | matchInvalid
  | matchNotFound
  | expectedReplyExists
  | unexpectedReply
  | unexpectedFds
  deriving DecidableEq, Repr

/-- An argument of a message that the driver writes: a string, a number, or something else of a type. -/
inductive DriverArg where
  | s (value : Bytes)
  | u (value : UInt32)
  | other (element : UInt8)
  deriving DecidableEq, Repr

/-- What the metadata of a message keeps of an argument. -/
def DriverArg.toArg : DriverArg → MessageArg
  | .s value => ⟨byte 's', some value⟩
  | .u _ => ⟨byte 'u', none⟩
  | .other element => ⟨element, none⟩

/-- How a request that waited for an activation ended: with a reply, with an error, or without either. -/
inductive Outcome where
  | replied
  | failed
  | silent
  deriving DecidableEq, Repr

/-- What a bus did. -/
inductive Event where
  | hello (peer : ℕ)
  | nameLost (peer : ℕ) (name : Bytes)
  | nameOwnerChanged (name : Bytes) (old new : Option ℕ)
  | nameAcquired (peer : ℕ) (name : Bytes)
  | matchAdded (peer : ℕ) (keys : MatchKeys)
  | matchRemoved (peer : ℕ) (keys : MatchKeys)
  | becameMonitor (peer : ℕ) (rules : List MatchKeys)
  | goodbye (peer : ℕ)
  | called (callee caller : ℕ) (serial : UInt32)
  | answered (callee caller : ℕ) (serial : UInt32)
  | noReply (callee caller : ℕ) (serial : UInt32)
  | cancelled (callee caller : ℕ) (serial : UInt32)
  | requestQueued (path : Bytes) (sender : ℕ) (serial : UInt32)
  | requestResolved (path name : Bytes) (sender : ℕ) (serial : UInt32) (outcome : Outcome)
  | messageQueued (path : Bytes) (message : Message)
  | messageResolved (path name : Bytes) (message : Message) (attempt : Option (ℕ × PeerResult)) (error : Bool)
  | activate (path : Bytes) (serial : ℕ)
  | forwarded (sender : Option ℕ) (owned : List Bytes) (metadata : MessageMetadata) (destinations denied : List ℕ)
  | sent (receiver : ℕ) (metadata : MessageMetadata) (body : List DriverArg)

/-- `Bus`, with the tables of its peers and the part of the controller it talks to. -/
structure Bus where
  user : Uid
  users : UserRegistry
  names : NameRegistry ℕ
  matchIndex : MatchWorld RegistryRef (ℕ × MatchKeys) ℕ
  ownedMatches : ℕ → RuleTree
  replies : ReplyWorld ℕ
  peers : SearchTree (compare : ℕ → ℕ → Ordering) Peer
  connections : ℕ → Connection
  ids : ℕ
  nPeers : ℕ
  nRegistered : ℕ
  nMonitors : ℕ
  activations : StringTree Activation
  activationIds : ℕ
  controller : Controller
  controllerConnection : Connection
  assertFailed : Bool
  trace : List Event

/-- `bus_init`, with the user of the broker and the connection of the controller. -/
def Bus.init (users : UserRegistry) (user : Uid) (controllerConnection : Connection) : Bus where
  user := user
  users := users
  names := .init
  matchIndex := .init
  ownedMatches := fun _ => .empty
  replies := .init
  peers := .empty
  connections := fun _ => .null
  ids := 0
  nPeers := 0
  nRegistered := 0
  nMonitors := 0
  activations := .empty
  activationIds := 0
  controller := .init
  controllerConnection := controllerConnection
  assertFailed := false
  trace := []

/-- The verdicts of the policies of the peers, and whether a name may be owned. -/
structure Policy where
  checkOwn : ℕ → Bytes → Bool
  checkSend : MessageMetadata → ℕ → Bool
  checkReceive : MessageMetadata → ℕ → Bool

/-- The policy of a build without policies. -/
def Policy.permissive : Policy := ⟨fun _ _ => true, fun _ _ => true, fun _ _ => true⟩

namespace Bus

/-- Record the outcome of an assertion. -/
def check (b : Bus) (condition : Bool) : Bus := { b with assertFailed := b.assertFailed || !condition }

/-- Record what was done. -/
def log (b : Bus) (events : List Event) : Bus := { b with trace := b.trace ++ events }

/-- A registry has no rules. -/
def isIdle (b : Bus) (registry : RegistryRef) : Bool :=
  (b.matchIndex.registries registry).subscriptionTree.entries.isEmpty &&
    (b.matchIndex.registries registry).monitorTree.entries.isEmpty

/-- The names without match rules, as `name_free` asserts. -/
def idle (b : Bus) (name : Bytes) : Bool :=
  b.isIdle (.nameSender name) && b.isIdle (.nameNameOwnerChanged name)

/-- Write back a peer. -/
def setPeer (b : Bus) (id : ℕ) (peer : Peer) : Bus := { b with peers := b.peers.insert id peer }

/-- Write back a connection. -/
def setConnection (b : Bus) (id : ℕ) (c : Connection) : Bus :=
  { b with connections := Function.update b.connections id c }

/-- `peer_is_registered`. -/
def isRegistered (b : Bus) (id : ℕ) : Bool := (b.peers.find? id).any (·.registered)

/-- `peer_is_monitor`. -/
def isMonitor (b : Bus) (id : ℕ) : Bool := (b.peers.find? id).any (·.monitor)

/-- The user of a peer. -/
def userOf (b : Bus) (id : ℕ) : Option Uid := (b.peers.find? id).map (·.user)

/-- The names that a peer is the primary owner of. -/
def primaryNames (b : Bus) (id : ℕ) : List Bytes :=
  (b.names.owners id).ownershipTree.entries.filterMap fun e =>
    if nameOwnershipIsPrimary b.names e.2 then some e.1 else none

end Bus

/-- `peer_registry_find_peer`. -/
def peerRegistryFindPeer (b : Bus) (id : ℕ) : Option ℕ := if b.isRegistered id then some id else none

/-- The primary owner of a name. -/
def nameOwnerOf (w : NameRegistry ℕ) (name : Bytes) : Option ℕ := (namePrimary w name).bind w.ownerOf

/-- `bus_find_peer_by_name`: the peer, and the name if one was looked up and exists. -/
def busFindPeerByName (b : Bus) (name : Bytes) : Option ℕ × Option Name :=
  match addressFromString name with
  | .id id => (peerRegistryFindPeer b id, none)
  | .name name => (nameOwnerOf b.names name, b.names.nameTree.find? name)
  | .other => (none, none)

/-- Collect from the registries of the names a peer is the primary owner of. -/
def collectPrimaryNames (b : Bus) (sender : ℕ) (collect : RegistryRef → List ℕ → List ℕ) (destinations : List ℕ) :
    List ℕ :=
  (b.primaryNames sender).foldl (fun destinations name => collect (.nameSender name) destinations) destinations

/-- `bus_get_monitor_destinations`. -/
def busGetMonitorDestinations (b : Bus) (destinations : List ℕ) (sender : Option ℕ) (metadata : MessageMetadata) :
    List ℕ :=
  let collect := fun registry destinations =>
    matchRegistryGetMonitors Prod.fst (b.matchIndex.registries registry) destinations metadata
  if b.nMonitors = 0 then destinations
  else
    let destinations := collect .wildcard destinations
    match sender with
    | some sender => collect (.peerSender sender) (collectPrimaryNames b sender collect destinations)
    | none => collect .driver destinations

/-- `bus_get_broadcast_destinations`. -/
def busGetBroadcastDestinations (b : Bus) (destinations : List ℕ) (registry : Option RegistryRef) (sender : Option ℕ)
    (metadata : MessageMetadata) : List ℕ :=
  let collect := fun registry destinations =>
    matchRegistryGetSubscribers Prod.fst (b.matchIndex.registries registry) destinations metadata
  let destinations := collect .wildcard destinations
  let destinations := match registry with
    | some registry => collect registry destinations
    | none => destinations
  match sender with
  | some sender => collectPrimaryNames b sender collect destinations
  | none => collect .driver destinations

/-- `connection_queue` on the connection of a peer. -/
def peerConnectionQueue (sizes : Sizes) (b : Bus) (receiver : ℕ) (actor : Option Uid) (m : Message) :
    Bus × ConnectionResult :=
  let (users, c, r) := connectionQueue sizes b.users (b.connections receiver) actor m
  ({ b with users := users }.setConnection receiver c, r)

/-- Queue a message on a peer that asked for it, and disconnect the peer if it cannot take it. -/
def peerDeliver (sizes : Sizes) (b : Bus) (receiver : ℕ) (m : Message) : Bus :=
  match peerConnectionQueue sizes b receiver none m with
  | (b, .success) => b
  | (b, _) => b.setConnection receiver (connectionShutdown (b.connections receiver))

end DbusBroker
