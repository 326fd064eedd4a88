import DbusBroker.Bus.Name
import DbusBroker.Dbus.Message

/-!
# Activations

The activation of a name from `bus/activation.c`. Messages to an activatable name without an
owner and requests to start it are queued until the name gets an owner. The first of them
asks the controller to activate the name.
-/

namespace DbusBroker

/-- `ActivationRequest`. -/
structure ActivationRequest where
  charge : UserCharge
  senderId : ℕ
  serial : UInt32

/-- `ActivationMessage`, with the names its sender wanted when it was sent. -/
structure ActivationMessage where
  user : Uid
  charges : UserCharge × UserCharge
  message : Message
  sendersNames : List Bytes

/-- `Activation`. The number of the activation the controller was asked for is zero if it is not pending. -/
structure Activation where
  name : Bytes
  user : Uid
  messages : List ActivationMessage
  requests : List ActivationRequest
  pending : ℕ

/-- What the activation functions return. -/
inductive ActivationResult where
  | success
  | quota
  | alreadyActivatable
  deriving DecidableEq, Repr

variable {ο : Type} [DecidableEq ο]

/-- `activation_request_free`. -/
def activationRequestFree (users : UserRegistry) (request : ActivationRequest) : UserRegistry :=
  (userChargeDeinit users request.charge).1

/-- The charges of `activation_message_free`. -/
def activationMessageDischarge (users : UserRegistry) (message : ActivationMessage) : UserRegistry :=
  let (users, _) := userChargeDeinit users message.charges.2
  let (users, _) := userChargeDeinit users message.charges.1
  userUnref users message.user

/-- `activation_message_free`. -/
def activationMessageFree (idle : Bytes → Bool) (users : UserRegistry) (names : NameRegistry ο)
    (message : ActivationMessage) : UserRegistry × NameRegistry ο :=
  (activationMessageDischarge users message, nameSnapshotFree idle names message.sendersNames)

/-- `activation_request`: the number of the activation, and the numbers given out so far. -/
def activationRequest (activation : Activation) (activationIds : ℕ) : Activation × ℕ :=
  if activation.pending ≠ 0 then (activation, activationIds)
  else ({ activation with pending := activationIds + 1 }, activationIds + 1)

/-- The charges of `activation_queue_message`; the second one is not tried after the first one failed. -/
def activationMessageCharge (sizes : Sizes) (users : UserRegistry) (activation : Activation) (user : Uid)
    (m : Message) : UserRegistry × (UserCharge × UserCharge) × UserResult :=
  let (users, bytes, r) := userCharge users (some activation.user) .init (some user) userSlotBytes
    (UInt32.ofNat (sizes.activationMessage + sizes.message + m.nData))
  match r with
  | .quota => (users, (bytes, .init), .quota)
  | .success =>
    let (users, fds, r) := userCharge users (some activation.user) .init (some user) userSlotFds (UInt32.ofNat m.nFds)
    (users, (bytes, fds), r)

/-- `activation_queue_message` of a sender. -/
def activationQueueMessage (sizes : Sizes) (users : UserRegistry) (names : NameRegistry ο) (activation : Activation)
    (activationIds : ℕ) (user : Uid) (sender : ο) (m : Message) :
    UserRegistry × NameRegistry ο × Activation × ℕ × ActivationResult :=
  let (activation, activationIds) := activationRequest activation activationIds
  match activationMessageCharge sizes (userRef users user) activation user m with
  | (users, charges, .quota) =>
    (activationMessageDischarge users ⟨user, charges, m, []⟩, names, activation, activationIds, .quota)
  | (users, charges, .success) =>
    let (names, sendersNames) := nameSnapshotNew names sender
    let message : ActivationMessage := ⟨user, charges, m, sendersNames⟩
    (users, names, { activation with messages := activation.messages ++ [message] }, activationIds, .success)

/-- `activation_queue_request`. -/
def activationQueueRequest (sizes : Sizes) (users : UserRegistry) (activation : Activation) (activationIds : ℕ)
    (user : Uid) (senderId : ℕ) (serial : UInt32) : UserRegistry × Activation × ℕ × ActivationResult :=
  let (activation, activationIds) := activationRequest activation activationIds
  -- without a reply nothing has to be remembered
  if serial = 0 then (users, activation, activationIds, .success)
  else
    let (users, charge, r) := userCharge users (some activation.user) .init (some user) userSlotBytes
      (UInt32.ofNat sizes.activationRequest)
    let request : ActivationRequest := ⟨charge, senderId, serial⟩
    match r with
    | .quota => (activationRequestFree users request, activation, activationIds, .quota)
    | .success =>
      (users, { activation with requests := activation.requests ++ [request] }, activationIds, .success)

/-- Attach an activation to its name, or take it off. -/
def NameRegistry.setActivation (w : NameRegistry ο) (name : Bytes) (path : Option Bytes) : NameRegistry ο :=
  match w.nameTree.find? name with
  | some n => w.setName name { n with activation := path }
  | none => w.check false

/-- `activation_init` of the activation at a path. -/
def activationInit (users : UserRegistry) (names : NameRegistry ο) (path name : Bytes) (user : Uid) :
    UserRegistry × NameRegistry ο × Option Activation :=
  match (names.nameTree.find? name).bind (·.activation) with
  | some _ => (users, names, none)
  | none =>
    (userRef users user, (nameRef names name).setActivation name (some path), some ⟨name, user, [], [], 0⟩)

/-- `activation_deinit`. -/
def activationDeinit (idle : Bytes → Bool) (users : UserRegistry) (names : NameRegistry ο) (activation : Activation) :
    UserRegistry × NameRegistry ο :=
  let (users, names) := activation.messages.foldl
    (fun s message => activationMessageFree idle s.1 s.2 message) (users, names)
  let users := activation.requests.foldl activationRequestFree users
  (userUnref users activation.user, nameUnref idle (names.setActivation activation.name none) activation.name)

end DbusBroker
