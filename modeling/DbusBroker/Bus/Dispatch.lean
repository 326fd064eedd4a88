import DbusBroker.Bus.Driver
import DbusBroker.Dbus.MessageParse

/-!
# The methods of the driver

The methods of `bus/driver.c` that change the bus, the tables they are found in, and the
dispatch of a message that a peer sent. The arguments of a call come parsed, by their
signature, but for those with a variant, which the driver may fail to read. A method that
only reads the bus is an answer from outside.
-/

namespace DbusBroker

open Std

/-- The bytes of a body that `message_parse_body` accepted for a signature. -/
structure VerifiedBody (signature : Bytes) where
  bigEndian : Bool
  data : Bytes
  verified : ∃ args, Wire.messageParseBody bigEndian signature data = .ok args

/-- The signatures whose arguments the driver looks at. -/
def driverSignatures : List Bytes := [[], lit "s", lit "su", lit "asu", lit "a\x7bss\x7d", lit "ssv"]

/-- The arguments of a message, by their signature. -/
inductive Body where
  | unit
  | s (string : Bytes)
  | su (string : Bytes) (number : UInt32)
  | asu (strings : List Bytes) (number : UInt32)
  | apss (pairs : List (Bytes × Bytes))
  | ssv (body : VerifiedBody (lit "ssv"))
  | other (signature : Bytes) (unread : signature ∉ driverSignatures)

/-- The signature of a message. -/
def Body.signature : Body → Bytes
  | .unit => []
  | .s _ => lit "s"
  | .su _ _ => lit "su"
  | .asu _ _ => lit "asu"
  | .apss _ => lit "a\x7bss\x7d"
  | .ssv _ => lit "ssv"
  | .other signature _ => signature

/-- What the dispatch of a message takes from elsewhere: the verdicts of the policies, also on who may be a monitor,
the answer of a method that only reads, which is a reply or an error for the caller, the size of an environment that
is passed on, and whether descriptors of sent messages are still held. -/
structure Outside where
  policy : Policy
  eavesdrop : Bool
  answer : Except DriverError (List DriverArg × ℕ)
  environmentData : ℕ
  pending : Bool
  answerable : ∀ e, answer = .error e → (driverErrorName e).isSome

section Methods

variable (sizes : Sizes) (outside : Outside) (b : Bus) (id : ℕ) (serial : UInt32)

/-- `driver_method_hello`. -/
def driverMethodHello : Bus × Option DriverError :=
  if b.isRegistered id then (b, some .peerAlreadyRegistered)
  else
    let b := (peerRegister b id).log [.hello id]
    let b := driverSendReply sizes b id serial [.s (addressIdToString id)]
    (driverNameOwnerChanged sizes outside.policy b (.peerNameOwnerChanged id) (addressIdToString id) none (some id), none)

/-- The number `driver_method_request_name` replies, or the error it returns. -/
def requestNameReply : PeerResult → Except DriverError UInt32
  | .success => .ok 1
  | .nameInQueue => .ok 2
  | .nameExists => .ok 3
  | .nameAlreadyOwner => .ok 4
  | .quota => .error .quota
  | .nameReserved => .error .nameReserved
  | .nameUnique => .error .nameUnique
  | .nameRefused => .error .nameRefused
  | _ => .error .fatal

/-- The end of `driver_method_request_name` and `driver_method_release_name`: the change is announced, what
waited for the name is delivered, and the caller gets its reply. -/
def driverAnnounceChange (change : NameChange ℕ) (activates : Bool) (reply : UInt32) : Bus :=
  let b := driverNameChanged sizes outside.policy b change
  let b := match activates, change.name.bind fun name => (b.names.nameTree.find? name).bind (·.activation),
      change.newOwner with
    | true, some path, some owner => driverNameActivated sizes outside.policy b path owner
    | _, _, _ => b
  driverSendReply sizes (busNameChangeDeinit b change) id serial [.u reply]

/-- `driver_method_request_name`. -/
def driverMethodRequestName (name : Bytes) (flags : UInt32) : Bus × Option DriverError :=
  if !dbusValidateName name then (b, some .nameInvalid)
  else
    let (b, change, r) := peerRequestName outside.policy b id name flags
    match requestNameReply r with
    | .error e => (b, some e)
    | .ok reply => (driverAnnounceChange sizes outside b id serial change true reply, none)

/-- The number `driver_method_release_name` replies, or the error it returns. -/
def releaseNameReply : PeerResult → Except DriverError UInt32
  | .success => .ok 1
  | .nameNotFound => .ok 2
  | .nameNotOwner => .ok 3
  | .nameReserved => .error .nameReserved
  | .nameUnique => .error .nameUnique
  | _ => .error .fatal

/-- `driver_method_release_name`. -/
def driverMethodReleaseName (name : Bytes) : Bus × Option DriverError :=
  if !dbusValidateName name then (b, some .nameInvalid)
  else
    let (b, change, r) := peerReleaseName b id name
    match releaseNameReply r with
    | .error e => (b, some e)
    | .ok reply => (driverAnnounceChange sizes outside b id serial change false reply, none)

/-- `driver_method_start_service_by_name`; the flags are ignored. -/
def driverMethodStartServiceByName (service : Bytes) : Bus × Option DriverError :=
  match (b.names.nameTree.find? service).bind (·.activation), b.userOf id with
  | some path, some user =>
    if (namePrimary b.names service).isSome then (driverSendReply sizes b id serial [.u 2], none)
    else busActivationQueueRequest sizes b path id user serial
  | _, _ => (b, some .nameNotActivatable)

/-- The header of `controller_dbus_send_environment`. -/
def controllerEnvironmentMetadata : MessageMetadata where
  type := dbusMessageTypeSignal
  flags := dbusHeaderFlagNoReplyExpected
  serial := -1
  senderId := none
  path := some (lit "/org/bus1/DBus/Broker")
  interface := some (lit "org.bus1.DBus.Broker")
  member := some (lit "SetActivationEnvironment")
  errorName := none
  replySerial := 0
  destination := none
  args := [⟨byte 'a', none⟩]

/-- `driver_method_update_activation_environment`. -/
def driverMethodUpdateActivationEnvironment : Bus × Option DriverError :=
  if !peerIsPrivileged b id then (b, some .peerNotPrivileged)
  else
    match controllerQueue sizes b none controllerEnvironmentMetadata outside.environmentData with
    | (b, .success) => (driverSendReply sizes b id serial [], none)
    | (b, _) => (b, some .fatal)

/-- The header of `controller_dbus_send_reload`. -/
def controllerReloadMetadata (serial : UInt32) : MessageMetadata where
  type := dbusMessageTypeMethodCall
  flags := 0
  serial := serial
  senderId := none
  path := some (lit "/org/bus1/DBus/Controller")
  interface := some (lit "org.bus1.DBus.Controller")
  member := some (lit "ReloadConfig")
  errorName := none
  replySerial := 0
  destination := none
  args := []

/-- `driver_method_reload_config`. A request that was recorded is dropped if the controller cannot be told. -/
def driverMethodReloadConfig : Bus × Option DriverError :=
  match controllerReloadNew sizes b.users b.controller (some b.user) (b.userOf id) with
  | (users, controller, none, _) => ({ b with users := users, controller := controller }, some .forwardFailed)
  | (users, controller, some reload, _) =>
    let reloads := controller.reloads.modify reload fun x => { x with senderId := some id, senderSerial := serial }
    let metadata := controllerReloadMetadata controller.serial
    match controllerQueue sizes { b with users := users, controller := { controller with reloads := reloads } }
        (b.userOf id) metadata (sizes.driverMessage metadata) with
    | (b, .success) => (b, none)
    | (b, _) =>
      let (users, controller) := controllerReloadFree b.users b.controller reload
      ({ b with users := users, controller := controller }, some .forwardFailed)

/-- `driver_method_add_match`. -/
def driverMethodAddMatch (string : Bytes) : Bus × Option DriverError :=
  match peerAddMatch sizes b id string with
  | (b, .error .quota) => (b, some .quota)
  | (b, .error _) => (b, some .matchInvalid)
  | (b, .ok keys) => (driverSendReply sizes (b.log [.matchAdded id keys]) id serial [], none)

/-- `driver_method_remove_match`. -/
def driverMethodRemoveMatch (string : Bytes) : Bus × Option DriverError :=
  match peerRemoveMatch b id string with
  | (b, .error .matchNotFound) => (b, some .matchNotFound)
  | (b, .error _) => (b, some .matchInvalid)
  | (b, .ok keys) => (driverSendReply sizes (b.log [.matchRemoved id keys]) id serial [], none)

/-- The loop of `driver_method_become_monitor`: the rules, up to the first that is refused. -/
def monitorRules (users : UserRegistry) (tree : RuleTree) (user : Option Uid) :
    List Bytes → UserRegistry × RuleTree × Option MatchError
  | [] => (users, tree, none)
  | string :: rest =>
    match matchOwnerRefRule sizes users tree user string true with
    | (users, tree, .ok _) => monitorRules users tree user rest
    | (users, tree, .error e) => (users, tree, some e)

/-- The error path of `driver_method_become_monitor`: the rules are dropped again. -/
def dropRules (users : UserRegistry) (tree : RuleTree) : UserRegistry :=
  ((ruleInstances tree).foldl (fun s keys => let (users, tree, _) := matchRuleUserUnref s.1 s.2 keys; (users, tree))
    (users, tree)).1

/-- `driver_method_become_monitor`. No rules at all are one rule that matches everything. A rule that exceeds the
quota of the user is fatal. -/
def driverMethodBecomeMonitor (strings : List Bytes) (flags : UInt32) : Bus × Option DriverError :=
  if !peerIsPrivileged b id || !outside.eavesdrop then (b, some .peerNotPrivileged)
  else
    match monitorRules sizes b.users .empty (b.userOf id) (if strings = [] then [[]] else strings) with
    | (users, tree, some e) =>
      ({ b with users := dropRules users tree }, some (if e = .invalid then .matchInvalid else .fatal))
    | (users, tree, none) =>
      if flags ≠ 0 then ({ b with users := dropRules users tree }, some .unexpectedFlags)
      else
        let b := driverSendReply sizes { b with users := users } id serial []
        let b := driverGoodbye sizes outside.policy b id false
        ((peerBecomeMonitor b id tree).log [.becameMonitor id tree.keys], none)

/-- `driver_end_read`: what was read, if all of it could be read. -/
def driverEndRead {α : Type} : Except DvarError (α × Cursor UInt8) → Except DriverError α
  | .ok (x, c) => if c.rest.isEmpty then .ok x else .error .fatal
  | .error _ => .error .fatal

/-- The reads of `driver_method_set`. The structure around the arguments and the variant are two levels, on top of
that of the body. -/
def driverReadSet (bigEndian : Bool) : DvarReader (Bytes × Bytes) := do
  let _ ← cDvarReadData 3 0
  let interface ← cDvarReadString bigEndian (byte 's')
  let property ← cDvarReadString bigEndian (byte 's')
  let type ← cDvarReadType
  let _ ← cDvarSkip bigEndian (cDvarTypeDepthMax - 3) type
  pure (interface, property)

/-- `driver_method_set`. No property can be set. -/
def driverMethodSet (body : VerifiedBody (lit "ssv")) : Bus × Option DriverError :=
  match driverEndRead (driverReadSet body.bigEndian ⟨0, body.data⟩) with
  | .error e => (b, some e)
  | .ok (interface, property) =>
    if interface ≠ driverName then (b, some .unexpectedInterface)
    else if property ≠ lit "Features" && property ≠ lit "Interfaces" then (b, some .unexpectedProperty)
    else (b, some .readonlyProperty)

/-- A method that only reads the bus. -/
def driverMethodQuery : Bus × Option DriverError :=
  match outside.answer with
  | .error e => (b, some e)
  | .ok (body, nFds) => (driverSendReplyWithFds sizes b id serial body nFds, none)

end Methods

/-- The functions behind the methods. -/
inductive DriverHandler where
  | hello
  | addMatch
  | removeMatch
  | requestName
  | releaseName
  | startServiceByName
  | updateActivationEnvironment
  | reloadConfig
  | becomeMonitor
  | set
  | query

/-- `DriverMethod`. -/
structure DriverMethod where
  name : Bytes
  needsRegistration : Bool
  path : Option Bytes
  handler : DriverHandler
  signature : Bytes

/-- The path of the driver. -/
def driverPath : Bytes := lit "/org/freedesktop/DBus"

/-- `driver_methods`. -/
def driverMethods : List DriverMethod :=
  [⟨lit "Hello", false, none, .hello, []⟩,
   ⟨lit "AddMatch", true, none, .addMatch, lit "s"⟩,
   ⟨lit "RemoveMatch", true, none, .removeMatch, lit "s"⟩,
   ⟨lit "RequestName", true, none, .requestName, lit "su"⟩,
   ⟨lit "ReleaseName", true, none, .releaseName, lit "s"⟩,
   ⟨lit "GetConnectionCredentials", true, none, .query, lit "s"⟩,
   ⟨lit "GetConnectionUnixUser", true, none, .query, lit "s"⟩,
   ⟨lit "GetConnectionUnixProcessID", true, none, .query, lit "s"⟩,
   ⟨lit "GetAdtAuditSessionData", true, none, .query, lit "s"⟩,
   ⟨lit "GetConnectionSELinuxSecurityContext", true, none, .query, lit "s"⟩,
   ⟨lit "StartServiceByName", true, none, .startServiceByName, lit "su"⟩,
   ⟨lit "ListQueuedOwners", true, none, .query, lit "s"⟩,
   ⟨lit "ListNames", true, none, .query, []⟩,
   ⟨lit "ListActivatableNames", true, none, .query, []⟩,
   ⟨lit "NameHasOwner", true, none, .query, lit "s"⟩,
   ⟨lit "UpdateActivationEnvironment", true, some driverPath, .updateActivationEnvironment, lit "a\x7bss\x7d"⟩,
   ⟨lit "GetNameOwner", true, none, .query, lit "s"⟩,
   ⟨lit "ReloadConfig", true, none, .reloadConfig, []⟩,
   ⟨lit "GetId", true, none, .query, []⟩]

/-- `monitoring_methods`. -/
def monitoringMethods : List DriverMethod := [⟨lit "BecomeMonitor", true, some driverPath, .becomeMonitor, lit "asu"⟩]

/-- `introspectable_methods`. -/
def introspectableMethods : List DriverMethod := [⟨lit "Introspect", true, none, .query, []⟩]

/-- `peer_methods`. -/
def peerMethods : List DriverMethod :=
  [⟨lit "Ping", true, none, .query, []⟩, ⟨lit "GetMachineId", true, none, .query, []⟩]

/-- `properties_methods`. -/
def propertiesMethods : List DriverMethod :=
  [⟨lit "Get", true, some driverPath, .query, lit "ss"⟩,
   ⟨lit "Set", true, some driverPath, .set, lit "ssv"⟩,
   ⟨lit "GetAll", true, some driverPath, .query, lit "s"⟩]

/-- `debug_stats_methods`. -/
def debugStatsMethods : List DriverMethod :=
  [⟨lit "GetStats", true, some driverPath, .query, []⟩,
   ⟨lit "GetConnectionStats", true, some driverPath, .query, lit "s"⟩,
   ⟨lit "GetAllMatchRules", true, some driverPath, .query, []⟩]

/-- The interfaces of `driver_dispatch_interface`. -/
def driverInterfaces : List (Bytes × List DriverMethod) :=
  [(driverName, driverMethods),
   (lit "org.freedesktop.DBus.Monitoring", monitoringMethods),
   (lit "org.freedesktop.DBus.Introspectable", introspectableMethods),
   (lit "org.freedesktop.DBus.Peer", peerMethods),
   (lit "org.freedesktop.DBus.Properties", propertiesMethods),
   (lit "org.freedesktop.DBus.Debug.Stats", debugStatsMethods)]

section Dispatch

variable (sizes : Sizes) (outside : Outside) (b : Bus) (id : ℕ)

/-- Call the function behind a method; the signature was checked. -/
def driverCall (handler : DriverHandler) (serial : UInt32) (body : Body) : Bus × Option DriverError :=
  match handler, body with
  | .hello, _ => driverMethodHello sizes outside b id serial
  | .addMatch, .s string => driverMethodAddMatch sizes b id serial string
  | .removeMatch, .s string => driverMethodRemoveMatch sizes b id serial string
  | .requestName, .su name flags => driverMethodRequestName sizes outside b id serial name flags
  | .releaseName, .s name => driverMethodReleaseName sizes outside b id serial name
  | .startServiceByName, .su service _ => driverMethodStartServiceByName sizes b id serial service
  | .updateActivationEnvironment, _ => driverMethodUpdateActivationEnvironment sizes outside b id serial
  | .reloadConfig, _ => driverMethodReloadConfig sizes b id serial
  | .becomeMonitor, .asu strings flags => driverMethodBecomeMonitor sizes outside b id serial strings flags
  | .set, .ssv body => driverMethodSet b body
  | .query, _ => driverMethodQuery sizes outside b id serial
  | _, _ => (b, some .unexpectedSignature)

/-- `driver_handle_method`. -/
def driverHandleMethod (method : DriverMethod) (m : Message) (body : Body) : Bus × Option DriverError :=
  if method.path.isSome && m.metadata.path ≠ method.path then (b, some .unexpectedPath)
  else if body.signature ≠ method.signature then (b, some .unexpectedSignature)
  else driverCall sizes outside b id method.handler (messageReadSerial m) body

/-- `driver_dispatch_method`. -/
def driverDispatchMethod (methods : List DriverMethod) (m : Message) (body : Body) : Bus × Option DriverError :=
  match methods.find? fun method =>
      some method.name = m.metadata.member && (b.isRegistered id || !method.needsRegistration) with
  | some method => driverHandleMethod sizes outside b id method m body
  | none => (b, some .unexpectedMethod)

/-- The search of `driver_dispatch_interface` through all interfaces, for a call that names none. -/
def driverDispatchAny (m : Message) (body : Body) : List (Bytes × List DriverMethod) → Bus × Option DriverError
  | [] => (b, some .unexpectedMethod)
  | interface :: rest =>
    match driverDispatchMethod sizes outside b id interface.2 m body with
    | (_, some .unexpectedMethod) => driverDispatchAny m body rest
    | r => r

/-- `driver_dispatch_interface`. -/
def driverDispatchInterface (m : Message) (body : Body) : Bus × Option DriverError :=
  if m.metadata.type ≠ dbusMessageTypeMethodCall then (b, none)
  else
    match m.metadata.interface with
    | some interface =>
      match driverInterfaces.find? fun i => i.1 = interface with
      | some i => driverDispatchMethod sizes outside b id i.2 m body
      | none => (b, some .unexpectedInterface)
    | none => driverDispatchAny sizes outside b id m body driverInterfaces

/-- What `driver_forward_unicast` makes of the result of `peer_queue_unicast`. -/
def PeerResult.toForward : PeerResult → Option DriverError
  | .success => none
  | .expectedReplyExists => some .expectedReplyExists
  | .quota => some .quota
  | .sendDenied => some .sendDenied
  | .receiveDenied => some .receiveDenied
  | .unexpectedFds => some .unexpectedFds
  | _ => some .fatal

/-- `driver_forward_unicast`. -/
def driverForwardUnicast (user : Uid) (destination : Bytes) (m : Message) : Bus × Option DriverError :=
  match busFindPeerByName b destination with
  | (some receiver, _) =>
    let (b, r) := peerQueueUnicast sizes outside.policy b true user id receiver m
    (b, r.toForward)
  | (none, name) =>
    if m.metadata.flags &&& dbusHeaderFlagNoAutoStart ≠ 0 then (b, some .destinationNotFound)
    else
      match name.bind (·.activation) with
      | none => (b, some .nameNotActivatable)
      | some path => busActivationQueueMessage sizes b path id user m

/-- `driver_forward_broadcast`. -/
def driverForwardBroadcast (m : Message) : Bus :=
  let destinations := busGetBroadcastDestinations b [] (some (.peerSender id)) (some id) m.metadata
  let destinations := destinations.filter fun receiver =>
    outside.policy.checkSend m.metadata receiver && outside.policy.checkReceive m.metadata receiver
  destinations.foldl (fun b receiver => peerDeliver sizes b receiver m) b

/-- The messages that are forwarded by `driver_dispatch_internal`. -/
def driverForward (user : Uid) (m : Message) : Bus × Option DriverError :=
  match m.metadata.destination with
  | none =>
    if m.metadata.type = dbusMessageTypeSignal then (driverForwardBroadcast sizes outside b id m, none)
    else (b, some .unexpectedMessageType)
  | some destination =>
    if m.metadata.type = dbusMessageTypeSignal || m.metadata.type = dbusMessageTypeMethodCall then
      driverForwardUnicast sizes outside b id user destination m
    else if m.metadata.type = dbusMessageTypeMethodReturn || m.metadata.type = dbusMessageTypeError then
      match peerQueueReply sizes b id destination m.metadata.replySerial m with
      | (b, .unexpectedReply) => (b, some .unexpectedReply)
      | (b, _) => (b, none)
    else (b, some .unexpectedMessageType)

/-- `driver_dispatch_internal`. -/
def driverDispatchInternal (user : Uid) (m : Message) (body : Body) : Bus × Option DriverError :=
  let b := driverMonitor sizes b (some id) m
  if m.metadata.type = dbusMessageTypeMethodCall && m.metadata.destination.isNone then
    -- without a destination only the methods of every peer are there
    if m.metadata.interface.any (· ≠ lit "org.freedesktop.DBus.Peer") then (b, some .unexpectedMethod)
    else driverDispatchMethod sizes outside b id peerMethods m body
  else if m.metadata.destination = some driverName then
    match driverDispatchInterface sizes outside b id m body with
    | (b, some e) =>
      if !b.isRegistered id && (e = .unexpectedInterface || e = .unexpectedMethod) then (b, some .peerNotYetRegistered)
      else (b, some e)
    | (b, none) => (b, none)
  else if !b.isRegistered id then (b, some .peerNotRegistered)
  else driverForward sizes outside b id user m

/-- `driver_dispatch`: the error that is not answered, if there is one. -/
def driverDispatch (user : Uid) (m : Message) (body : Body) : Bus × Option DriverError :=
  if b.isMonitor id then (b, some .monitorReadOnly)
  else
    match driverDispatchInternal sizes outside b id user m body with
    | (b, none) => (b, none)
    | (b, some e) =>
      match driverErrorName e with
      | some error =>
        (driverSendError sizes b id (messageReadSerial m) (lit error) (lit (driverErrorToString e)), none)
      | none => (b, some e)

end Dispatch

end DbusBroker
