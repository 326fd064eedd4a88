import DbusBroker.Bus.Peer

/-!
# The driver

The messages and the methods of `bus/driver.c`. The driver forwards what peers send to each
other, answers what is sent to itself, and tells everybody who asked about names that
change their owner. Monitors get a copy of all of it.

A message of the driver is known by its metadata, which determine its size. What a method
returns is an error of the driver, if any; `fatal` stands for the codes that end the broker.
-/

namespace DbusBroker

open Std

/-- The errors of the driver. -/
inductive DriverError where
  | unimplemented
  | peerAlreadyRegistered
  | peerNotYetRegistered
  | peerNotRegistered
  | peerNotPrivileged
  | monitorReadOnly
  | unexpectedFds
  | unexpectedMessageType
  | unexpectedPath
  | unexpectedInterface
  | unexpectedMethod
  | unexpectedProperty
  | readonlyProperty
  | unexpectedSignature
  | unexpectedReply
  | forwardFailed
  | quota
  | unexpectedFlags
  | unexpectedEnvironmentUpdate
  | sendDenied
  | receiveDenied
  | expectedReplyExists
  | nameReserved
  | nameUnique
  | nameInvalid
  | nameRefused
  | nameNotFound
  | nameNotActivatable
  | nameOwnerNotFound
  | peerNotFound
  | destinationNotFound
  | matchInvalid
  | matchNotFound
  | adtNotSupported
  | selinuxNotSupported
  | fatal
  deriving DecidableEq, Repr

/-- `driver_error_to_string`; a fatal error has no text. -/
def driverErrorToString : DriverError → String
  | .unimplemented => "Unimplemented functionality"
  | .peerAlreadyRegistered => "Hello() already called"
  | .peerNotYetRegistered => "Hello() was not yet called"
  | .peerNotRegistered => "Message forwarding attempted without calling Hello()"
  | .peerNotPrivileged => "The caller does not have the necessary privileged to call this method"
  | .monitorReadOnly => "Monitor attempted to send message"
  | .unexpectedFds => "Peer does not support file descriptor passing."
  | .unexpectedMessageType => "Unexpected message type"
  | .unexpectedPath => "Invalid object path"
  | .unexpectedInterface => "Invalid interface"
  | .unexpectedMethod => "Invalid method call"
  | .unexpectedProperty => "Invalid property"
  | .readonlyProperty => "Cannot set read-only property"
  | .unexpectedSignature => "Invalid signature for method"
  | .unexpectedReply => "No pending reply with that serial"
  | .forwardFailed => "Request could not be forwarded to the parent process"
  | .quota => "Sending user's quota exceeded"
  | .unexpectedFlags => "Invalid flags"
  | .unexpectedEnvironmentUpdate => "User is not authorized to update environment variables"
  | .sendDenied => "Sender is not authorized to send message"
  | .receiveDenied => "Receiver is not authorized to receive message"
  | .expectedReplyExists => "Pending reply with that serial already exists"
  | .nameReserved => "org.freedesktop.DBus is a reserved name"
  | .nameUnique => "The name is a unique name"
  | .nameInvalid => "The name is not a valid well-known name"
  | .nameRefused => "Request to own name refused by policy"
  | .nameNotFound => "The name does not exist"
  | .nameNotActivatable => "The name is not activatable"
  | .nameOwnerNotFound => "The name does not have an owner"
  | .peerNotFound => "The connection does not exist"
  | .destinationNotFound => "Destination does not exist"
  | .matchInvalid => "Invalid match rule"
  | .matchNotFound => "The match does not exist"
  | .adtNotSupported => "Solaris ADT is not supported"
  | .selinuxNotSupported => "SELinux is not supported"
  | .fatal => ""

/-- The name under which `driver_dispatch` sends an error to the caller, if it does. -/
def driverErrorName : DriverError → Option String
  | .peerNotRegistered | .monitorReadOnly | .fatal => none
  | .unimplemented | .peerAlreadyRegistered | .unexpectedFds => some "org.freedesktop.DBus.Error.Failed"
  | .peerNotYetRegistered | .unexpectedPath | .unexpectedMessageType | .unexpectedReply
  | .unexpectedEnvironmentUpdate | .expectedReplyExists | .sendDenied | .receiveDenied | .peerNotPrivileged
  | .nameRefused => some "org.freedesktop.DBus.Error.AccessDenied"
  | .unexpectedInterface => some "org.freedesktop.DBus.Error.UnknownInterface"
  | .unexpectedMethod => some "org.freedesktop.DBus.Error.UnknownMethod"
  | .unexpectedProperty => some "org.freedesktop.DBus.Error.UnknownProperty"
  | .readonlyProperty => some "org.freedesktop.DBus.Error.PropertyReadOnly"
  | .unexpectedSignature | .unexpectedFlags | .nameReserved | .nameUnique | .nameInvalid =>
    some "org.freedesktop.DBus.Error.InvalidArgs"
  | .forwardFailed | .quota => some "org.freedesktop.DBus.Error.LimitsExceeded"
  | .peerNotFound | .nameNotFound | .nameOwnerNotFound | .destinationNotFound =>
    some "org.freedesktop.DBus.Error.NameHasNoOwner"
  | .nameNotActivatable => some "org.freedesktop.DBus.Error.ServiceUnknown"
  | .matchInvalid => some "org.freedesktop.DBus.Error.MatchRuleInvalid"
  | .matchNotFound => some "org.freedesktop.DBus.Error.MatchRuleNotFound"
  | .adtNotSupported => some "org.freedesktop.DBus.Error.AdtAuditDataUnknown"
  | .selinuxNotSupported => some "org.freedesktop.DBus.Error.SELinuxSecurityContextUnknown"

section Messages

/-- `driver_write_signal_header` and the arguments. -/
def driverSignal (receiver : Option ℕ) (member : Bytes) (body : List DriverArg) : MessageMetadata where
  type := dbusMessageTypeSignal
  flags := dbusHeaderFlagNoReplyExpected
  serial := -1
  senderId := none
  path := some (lit "/org/freedesktop/DBus")
  interface := some driverName
  member := some member
  errorName := none
  replySerial := 0
  destination := receiver.map addressIdToString
  args := body.map DriverArg.toArg

/-- `driver_write_reply_header` and the arguments. -/
def driverReply (receiver : ℕ) (serial : UInt32) (body : List DriverArg) : MessageMetadata where
  type := dbusMessageTypeMethodReturn
  flags := dbusHeaderFlagNoReplyExpected
  serial := -1
  senderId := none
  path := none
  interface := none
  member := none
  errorName := none
  replySerial := serial
  destination := some (addressIdToString receiver)
  args := body.map DriverArg.toArg

/-- The header of `driver_send_error` and the text. -/
def driverErrorMetadata (receiver : ℕ) (serial : UInt32) (error text : Bytes) : MessageMetadata where
  type := dbusMessageTypeError
  flags := dbusHeaderFlagNoReplyExpected
  serial := -1
  senderId := none
  path := none
  interface := none
  member := none
  errorName := some error
  replySerial := serial
  destination := some (addressIdToString receiver)
  args := [(DriverArg.s text).toArg]

variable (sizes : Sizes)

/-- `driver_monitor`. -/
def driverMonitor (b : Bus) (sender : Option ℕ) (m : Message) : Bus :=
  let destinations := busGetMonitorDestinations b [] sender m.metadata
  let b := b.log [.forwarded sender (sender.elim [] b.primaryNames) m.metadata destinations []]
  destinations.foldl (fun b receiver => peerDeliver sizes b receiver m) b

/-- `driver_send_unicast` of a message with some arguments. -/
def driverSendUnicast (b : Bus) (receiver : ℕ) (metadata : MessageMetadata) (body : List DriverArg) (nFds : ℕ) : Bus :=
  let m : Message := ⟨metadata, sizes.driverMessage metadata, nFds⟩
  let b := (driverMonitor sizes b none m).log [.sent receiver metadata body]
  peerDeliver sizes b receiver m

/-- `driver_send_error`. -/
def driverSendError (b : Bus) (receiver : ℕ) (serial : UInt32) (error text : Bytes) : Bus :=
  if serial = 0 then b
  else driverSendUnicast sizes b receiver (driverErrorMetadata receiver serial error text) [.s text] 0

/-- `driver_send_reply_with_fds`. -/
def driverSendReplyWithFds (b : Bus) (receiver : ℕ) (serial : UInt32) (body : List DriverArg) (nFds : ℕ) : Bus :=
  if serial = 0 then b
  else driverSendUnicast sizes b receiver (driverReply receiver serial body) body nFds

/-- `driver_send_reply`. -/
def driverSendReply (b : Bus) (receiver : ℕ) (serial : UInt32) (body : List DriverArg) : Bus :=
  driverSendReplyWithFds sizes b receiver serial body 0

/-- A signal about a name to the peer concerned. -/
def driverNotifyName (b : Bus) (receiver : ℕ) (member name : Bytes) : Bus :=
  driverSendUnicast sizes b receiver (driverSignal (some receiver) member [.s name]) [.s name] 0

/-- `driver_notify_name_acquired`. -/
def driverNotifyNameAcquired (b : Bus) (receiver : ℕ) (name : Bytes) : Bus :=
  driverNotifyName sizes (b.log [.nameAcquired receiver name]) receiver (lit "NameAcquired") name

/-- `driver_notify_name_lost`. -/
def driverNotifyNameLost (b : Bus) (receiver : ℕ) (name : Bytes) : Bus :=
  driverNotifyName sizes (b.log [.nameLost receiver name]) receiver (lit "NameLost") name

/-- The metadata that `driver_notify_name_owner_changed` matches rules against. -/
def nameOwnerChangedMetadata (name old new : Bytes) : MessageMetadata where
  type := dbusMessageTypeSignal
  flags := 0
  serial := 0
  senderId := none
  path := some (lit "/org/freedesktop/DBus")
  interface := some driverName
  member := some (lit "NameOwnerChanged")
  errorName := none
  replySerial := 0
  destination := none
  args := [⟨byte 's', some name⟩, ⟨byte 's', some old⟩, ⟨byte 's', some new⟩]

/-- `driver_notify_name_owner_changed`. Monitors and subscribers are asked for together, and each of them is
skipped if its policy denies it the signal. -/
def driverNotifyNameOwnerChanged (policy : Policy) (b : Bus) (registry : RegistryRef) (name old new : Bytes) : Bus :=
  let metadata := nameOwnerChangedMetadata name old new
  let destinations := busGetMonitorDestinations b [] none metadata
  let destinations := busGetBroadcastDestinations b destinations (some registry) none metadata
  let header := driverSignal none (lit "NameOwnerChanged") [.s name, .s old, .s new]
  let m : Message := ⟨header, sizes.driverMessage header, 0⟩
  let denied := destinations.filter fun receiver => !policy.checkReceive metadata receiver
  let b := b.log [.forwarded none [] metadata destinations denied]
  (destinations.filter fun receiver => policy.checkReceive metadata receiver).foldl
    (fun b receiver => peerDeliver sizes b receiver m) b

/-- The unique name of an owner, and the empty string for no owner. -/
def ownerString (owner : Option ℕ) : Bytes := owner.elim [] addressIdToString

/-- `driver_name_owner_changed` of a name. -/
def driverNameOwnerChanged (policy : Policy) (b : Bus) (registry : RegistryRef) (name : Bytes) (old new : Option ℕ) :
    Bus :=
  let b := match old with
    | some peer => driverNotifyNameLost sizes b peer name
    | none => b
  let b := driverNotifyNameOwnerChanged sizes policy (b.log [.nameOwnerChanged name old new]) registry name
    (ownerString old) (ownerString new)
  match new with
  | some peer => driverNotifyNameAcquired sizes b peer name
  | none => b

/-- `driver_name_owner_changed` of a change of a well-known name. -/
def driverNameChanged (policy : Policy) (b : Bus) (change : NameChange ℕ) : Bus :=
  match change.name with
  | some name =>
    driverNameOwnerChanged sizes policy b (.nameNameOwnerChanged name) name change.oldOwner change.newOwner
  | none => b

end Messages

section Activations

variable (sizes : Sizes)

/-- Write back an activation. -/
def Bus.setActivation (b : Bus) (path : Bytes) (activation : Activation) : Bus :=
  { b with activations := b.activations.insert path activation }

/-- The message of `controller_dbus_send_activation`; the serial does not matter to its size. -/
def controllerActivateMetadata (path : Bytes) : MessageMetadata where
  type := dbusMessageTypeSignal
  flags := dbusHeaderFlagNoReplyExpected
  serial := -1
  senderId := none
  path := some path
  interface := some (lit "org.bus1.DBus.Name")
  member := some (lit "Activate")
  errorName := none
  replySerial := 0
  destination := none
  args := [⟨byte 't', none⟩]

/-- `connection_queue` on the connection of the controller. -/
def controllerQueue (b : Bus) (actor : Option Uid) (metadata : MessageMetadata) (nData : ℕ) : Bus × ConnectionResult :=
  let (users, c, r) := connectionQueue sizes b.users b.controllerConnection actor ⟨metadata, nData, 0⟩
  ({ b with users := users, controllerConnection := c }, r)

/-- The message of `activation_request`, unless one is pending; it is fatal if it cannot be queued. -/
def busActivationRequest (b : Bus) (path : Bytes) (activation : Activation) : Bus × ConnectionResult :=
  if activation.pending ≠ 0 then (b, .success)
  else
    let metadata := controllerActivateMetadata path
    controllerQueue sizes (b.log [.activate path (b.activationIds + 1)]) none metadata (sizes.driverMessage metadata)

/-- `activation_queue_message` of the activation at a path. -/
def busActivationQueueMessage (b : Bus) (path : Bytes) (sender : ℕ) (user : Uid) (m : Message) :
    Bus × Option DriverError :=
  match b.activations.find? path with
  | none => (b, some .fatal)
  | some activation =>
    match busActivationRequest sizes b path activation with
    | (b, .success) =>
      let (users, names, activation, activationIds, r) :=
        activationQueueMessage sizes b.users b.names activation b.activationIds user sender m
      let b := { b with users := users, names := names, activationIds := activationIds }.setActivation path activation
      match r with
      | .success => (b.log [.messageQueued path m], none)
      | _ => (b, some .quota)
    | (b, _) => ({ b with activationIds := b.activationIds + 1 }, some .fatal)

/-- `activation_queue_request` of the activation at a path. -/
def busActivationQueueRequest (b : Bus) (path : Bytes) (sender : ℕ) (user : Uid) (serial : UInt32) :
    Bus × Option DriverError :=
  match b.activations.find? path with
  | none => (b, some .fatal)
  | some activation =>
    match busActivationRequest sizes b path activation with
    | (b, .success) =>
      let (users, activation, activationIds, r) :=
        activationQueueRequest sizes b.users activation b.activationIds user sender serial
      let b := { b with users := users, activationIds := activationIds }.setActivation path activation
      match r with
      | .success => (if serial = 0 then b else b.log [.requestQueued path sender serial], none)
      | _ => (b, some .quota)
    | (b, _) => ({ b with activationIds := b.activationIds + 1 }, some .fatal)

/-- `activation_request_free` of the first request of the activation at a path. -/
def busActivationRequestFree (b : Bus) (path : Bytes) (request : ActivationRequest) (outcome : Outcome) : Bus :=
  match b.activations.find? path with
  | none => b
  | some activation =>
    ({ b with users := activationRequestFree b.users request }.setActivation path
      { activation with requests := activation.requests.tail }).log
        [.requestResolved path activation.name request.senderId request.serial outcome]

/-- `activation_message_free` of the first message of the activation at a path. -/
def busActivationMessageFree (b : Bus) (path : Bytes) (message : ActivationMessage) (attempt : Option (ℕ × PeerResult))
    (error : Bool) : Bus :=
  match b.activations.find? path with
  | none => b
  | some activation =>
    let (users, names) := activationMessageFree b.idle b.users b.names message
    ({ b with users := users, names := names }.setActivation path
      { activation with messages := activation.messages.tail }).log
        [.messageResolved path activation.name message.message attempt error]

/-- The sender of a message that waits, if it is still registered. -/
def activationMessageSender (b : Bus) (message : ActivationMessage) : Option ℕ :=
  message.message.metadata.senderId.bind (peerRegistryFindPeer b)

/-- The error to the sender of a message that is not delivered. -/
def driverRefuseMessage (b : Bus) (message : ActivationMessage) (error text : Bytes) : Bus :=
  match activationMessageSender b message with
  | some sender => driverSendError sizes b sender (messageReadSerial message.message) error text
  | none => b

/-- Whether such an error is sent: the sender is there and expects a reply. -/
def refusalHeard (b : Bus) (message : ActivationMessage) : Bool :=
  (activationMessageSender b message).isSome && messageReadSerial message.message ≠ 0

/-- The end of one request when its name could not be activated. -/
def driverFailRequest (path text : Bytes) (b : Bus) (request : ActivationRequest) : Bus :=
  match peerRegistryFindPeer b request.senderId with
  | some sender =>
    busActivationRequestFree
      (driverSendError sizes b sender request.serial (lit "org.freedesktop.DBus.Error.ServiceUnknown") text) path request
      .failed
  | none => busActivationRequestFree b path request .silent

/-- The end of one message when its name could not be activated. -/
def driverFailMessage (path text : Bytes) (b : Bus) (message : ActivationMessage) : Bus :=
  busActivationMessageFree
    (driverRefuseMessage sizes b message (lit "org.freedesktop.DBus.Error.NameHasNoOwner") text) path message none
    (refusalHeard b message)

/-- `driver_name_activation_failed`, where `reason` is the text of the error of the controller. -/
def driverNameActivationFailed (b : Bus) (path : Bytes) (serial : ℕ) (reason : Bytes) : Bus :=
  match b.activations.find? path with
  | none => b
  | some activation =>
    -- an event for no activation, or for an older one
    if activation.pending = 0 || serial ≠ activation.pending then b
    else
      let text := lit "Could not activate remote peer '" ++ activation.name ++ lit "': " ++ reason
      let b := b.setActivation path { activation with pending := 0 }
      let b := activation.requests.foldl (driverFailRequest sizes path text) b
      activation.messages.foldl (driverFailMessage sizes path text) b

/-- The end of one request when its name got an owner. -/
def driverReplyRequest (path : Bytes) (b : Bus) (request : ActivationRequest) : Bus :=
  match peerRegistryFindPeer b request.senderId with
  | some sender =>
    busActivationRequestFree (driverSendReply sizes b sender request.serial [.u 1]) path request .replied
  | none => busActivationRequestFree b path request .silent

/-- The error a sender gets for a message that could not be queued on the new owner of a name. -/
def activatedError : PeerResult → Option (Bytes × DriverError)
  | .quota => some (lit "org.freedesktop.DBus.Error.LimitsExceeded", .quota)
  | .expectedReplyExists => some (lit "org.freedesktop.DBus.Error.AccessDenied", .expectedReplyExists)
  | .receiveDenied => some (lit "org.freedesktop.DBus.Error.AccessDenied", .receiveDenied)
  | .sendDenied => some (lit "org.freedesktop.DBus.Error.AccessDenied", .sendDenied)
  | .unexpectedFds => some (lit "org.freedesktop.DBus.Error.Failed", .unexpectedFds)
  | _ => none

/-- The end of one message when its name got an owner. -/
def driverDeliverMessage (policy : Policy) (path : Bytes) (receiver : ℕ) (b : Bus) (message : ActivationMessage) : Bus :=
  let (b, r) := peerQueueUnicast sizes policy b (activationMessageSender b message).isSome message.user
    (message.message.metadata.senderId.getD 0) receiver message.message
  match activatedError r with
  | some (error, e) =>
    busActivationMessageFree (driverRefuseMessage sizes b message error (lit (driverErrorToString e))) path message
      (some (receiver, r)) (refusalHeard b message)
  | none => busActivationMessageFree b path message (some (receiver, r)) false

/-- `driver_name_activated`. -/
def driverNameActivated (policy : Policy) (b : Bus) (path : Bytes) (receiver : ℕ) : Bus :=
  match b.activations.find? path with
  | none => b
  | some activation =>
    let b := b.setActivation path { activation with pending := 0 }
    let b := activation.requests.foldl (driverReplyRequest sizes path) b
    activation.messages.foldl (driverDeliverMessage sizes policy path receiver) b

end Activations

section Goodbye

variable (sizes : Sizes)

/-- The reply slots that a peer waits on are dropped. -/
def driverCancelReply (b : Bus) (slot : ℕ) : Bus :=
  match b.replies.slots.read slot with
  | none => b
  | some s => busReplySlotFree (b.log [.cancelled s.registry s.owner s.serial]) slot

/-- One ownership of a peer that leaves. -/
def driverReleaseOwnership (policy : Policy) (silent : Bool) (b : Bus) (ownership : ℕ) : Bus :=
  let (b, change) := peerReleaseNameOwnership b ownership
  let b := if silent then b else driverNameChanged sizes policy b change
  busNameChangeDeinit b change

/-- One reply slot that a peer that leaves did not answer. -/
def driverExpireReply (silent : Bool) (b : Bus) (slot : ℕ) : Bus :=
  match b.replies.slots.read slot with
  | none => b
  | some s =>
    if silent then busReplySlotFree (b.log [.cancelled s.registry s.owner s.serial]) slot
    else
      let b := driverSendError sizes (b.log [.noReply s.registry s.owner s.serial]) s.owner s.serial
        (lit "org.freedesktop.DBus.Error.NoReply") (lit "Remote peer disconnected")
      busReplySlotFree b slot

/-- `driver_goodbye`. -/
def driverGoodbye (policy : Policy) (b : Bus) (id : ℕ) (silent : Bool) : Bus :=
  let b := peerFlushMatches (b.log [.goodbye id]) id
  let b := (b.replies.replyList id).foldl driverCancelReply b
  let b := { b with matchIndex := matchRegistryFlush Prod.fst b.matchIndex (.peerSender id) }
  let b := (b.names.owners id).ownershipTree.values.foldl (driverReleaseOwnership sizes policy silent) b
  let b := if b.isRegistered id then
      let b := if silent then b
        else driverNameOwnerChanged sizes policy b (.peerNameOwnerChanged id) (addressIdToString id) (some id) none
      peerUnregister b id
    else if b.isMonitor id then peerStopMonitor b id
    else b
  let b := { b with matchIndex := matchRegistryFlush Prod.fst b.matchIndex (.peerNameOwnerChanged id) }
  (b.replies.replyTree id).values.foldl (driverExpireReply sizes silent) b

end Goodbye

end DbusBroker
