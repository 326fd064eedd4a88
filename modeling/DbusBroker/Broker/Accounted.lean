import DbusBroker.Broker.Broker
import DbusBroker.Bus.MovesDispatch
import DbusBroker.Util.UserAccounts
import Mathlib.Logic.Relation

/-!
# What a broker does to its users

The functions of the bus and of the driver change the registry of users with the functions of
`util/user.c` and in no other way. What these preserve is preserved by whatever happens to a
broker, so in every state of a broker everything that exists is referenced.
-/

namespace DbusBroker

open Std

/-- One call of a function of `util/user.c`. -/
inductive UserStep (r : UserRegistry) : UserRegistry → Prop
  | refUser (u : Uid) : UserStep r (userRegistryRefUser r u)
  | ref (u : Uid) : UserStep r (userRef r u)
  | unref (u : Uid) : UserStep r (userUnref r u)
  | charge (user : Option Uid) (c : UserCharge) (actor : Option Uid) (slot : ℕ) (amount : UInt32) :
      UserStep r (userCharge r user c actor slot amount).1
  | deinit (c : UserCharge) : UserStep r (userChargeDeinit r c).1

/-- A registry comes from another one by calls of these functions. -/
def Accounted : UserRegistry → UserRegistry → Prop := Relation.ReflTransGen UserStep

/-- The registry of users of a bus comes from that of another one. -/
def Bus.Accounted (b b' : Bus) : Prop := DbusBroker.Accounted b.users b'.users

section Steps

variable {r r' r'' : UserRegistry}

theorem Accounted.refl (r : UserRegistry) : Accounted r r := Relation.ReflTransGen.refl

theorem Accounted.trans (h : Accounted r r') (h' : Accounted r' r'') : Accounted r r'' := Relation.ReflTransGen.trans h h'

theorem UserStep.accounted (h : UserStep r r') : Accounted r r' := Relation.ReflTransGen.single h

/-- Everything stays referenced. -/
theorem Accounted.live (h : Accounted r r') (hlive : r.accounts.Live) : r'.accounts.Live := by
  induction h with
  | refl => exact hlive
  | tail _ hstep ih =>
    cases hstep with
    | refUser u => exact live_userRegistryRefUser ih u
    | ref u => exact live_userRef ih u
    | unref u => exact live_userUnref ih u
    | charge user c actor slot amount => exact live_userCharge ih user c actor slot amount
    | deinit c => exact live_userChargeDeinit ih c

/-- The same is done for everything in a list. -/
theorem accounted_foldl {α β : Type} (g : β → UserRegistry) {f : β → α → β} (hf : ∀ s x, Accounted (g s) (g (f s x)))
    (l : List α) (s : β) : Accounted (g s) (g (l.foldl f s)) := by
  induction l generalizing s with
  | nil => exact .refl _
  | cons x rest ih => exact (hf s x).trans (ih _)

/-- A charge with its results. -/
theorem accounted_userCharge {user actor : Option Uid} {c c' : UserCharge} {slot : ℕ} {amount : UInt32} {res : UserResult}
    (h : userCharge r user c actor slot amount = (r', c', res)) : Accounted r r' := by
  have hstep := (UserStep.charge (r := r) user c actor slot amount).accounted
  rw [h] at hstep
  exact hstep

theorem accounted_userChargeDeinit (r : UserRegistry) (c : UserCharge) : Accounted r (userChargeDeinit r c).1 :=
  (UserStep.deinit c).accounted

theorem accounted_userRef (r : UserRegistry) (u : Uid) : Accounted r (userRef r u) := (UserStep.ref u).accounted

theorem accounted_userUnref (r : UserRegistry) (u : Uid) : Accounted r (userUnref r u) := (UserStep.unref u).accounted

/-- Two charges that are returned. -/
theorem accounted_discharge (r : UserRegistry) (c c' : UserCharge) :
    Accounted r (userChargeDeinit (userChargeDeinit r c).1 c').1 :=
  (accounted_userChargeDeinit r c).trans (accounted_userChargeDeinit _ c')

end Steps

section Connections

variable (sizes : Sizes) (users : UserRegistry)

/-- `socket_buffer_new_message`. -/
theorem accounted_socketBufferCharge (user actor : Option Uid) (m : Message) :
    Accounted users (socketBufferCharge sizes users user actor m).1 := by
  rw [socketBufferCharge]
  rcases hbytes : userCharge users user .init actor userSlotBytes
    (UInt32.ofNat (sizes.socketBuffer + sizes.message + m.nData)) with ⟨users₁, bytes, r⟩
  cases r with
  | quota => exact accounted_userCharge hbytes
  | success => exact (accounted_userCharge hbytes).trans (UserStep.charge _ _ _ _ _).accounted

/-- `connection_queue`. -/
theorem accounted_connectionQueue (c : Connection) (actor : Option Uid) (m : Message) :
    Accounted users (connectionQueue sizes users c actor m).1 := by
  have hcharge := accounted_socketBufferCharge sizes users c.user actor m
  rw [connectionQueue]
  split_ifs
  · exact .refl users
  · exact .refl users
  · rcases hbuffer : socketBufferCharge sizes users c.user actor m with ⟨users₁, charges, r⟩
    rw [hbuffer] at hcharge
    cases r with
    | quota => exact hcharge.trans (accounted_discharge users₁ _ _)
    | success => exact hcharge

/-- `socket_discard_output`. -/
theorem accounted_socketDiscardOutput (c : Connection) : Accounted users (socketDiscardOutput users c).1 :=
  accounted_foldl id (fun users _ => accounted_discharge users _ _) c.queue users

/-- `socket_hangup_output`. -/
theorem accounted_socketHangupOutput (c : Connection) : Accounted users (socketHangupOutput users c).1 := by
  rw [socketHangupOutput]
  split
  · exact .refl users
  · exact accounted_socketDiscardOutput users _

/-- `socket_dispatch_write`. -/
theorem accounted_socketSent (c : Connection) : Accounted users (socketSent users c).1 := by
  rw [socketSent]
  split
  · exact .refl users
  · exact accounted_discharge users _ _

end Connections

section Rules

variable (sizes : Sizes) (users : UserRegistry)

/-- `match_rule_new`, as far as it charges. -/
theorem accounted_matchRuleCharge (user : Option Uid) (string : Bytes) :
    Accounted users (matchRuleCharge sizes users user string).1 := by
  rw [matchRuleCharge]
  rcases hbytes : userCharge users user .init none userSlotBytes
    (UInt32.ofNat (sizes.matchRule + string.length + 1)) with ⟨users₁, bytes, r⟩
  cases r with
  | quota => exact accounted_userCharge hbytes
  | success => exact (accounted_userCharge hbytes).trans (UserStep.charge _ _ _ _ _).accounted

/-- `match_rule_new`. -/
theorem accounted_matchRuleNew (user : Option Uid) (string : Bytes) (allowEavesdrop : Bool) :
    Accounted users (matchRuleNew sizes users user string allowEavesdrop).1 := by
  have hcharge := accounted_matchRuleCharge sizes users user string
  rw [matchRuleNew]
  split
  · exact .refl users
  · rcases hrule : matchRuleCharge sizes users user string with ⟨users₁, rule, r⟩
    rw [hrule] at hcharge
    cases r with
    | quota => exact hcharge.trans (accounted_discharge users₁ _ _)
    | success =>
      dsimp only
      split
      · exact hcharge.trans (accounted_discharge users₁ _ _)
      · exact hcharge

/-- `match_owner_ref_rule`. -/
theorem accounted_matchOwnerRefRule (tree : RuleTree) (user : Option Uid) (string : Bytes) (allowEavesdrop : Bool) :
    Accounted users (matchOwnerRefRule sizes users tree user string allowEavesdrop).1 := by
  have hnew := accounted_matchRuleNew sizes users user string allowEavesdrop
  rw [matchOwnerRefRule]
  rcases hrule : matchRuleNew sizes users user string allowEavesdrop with ⟨users₁, e | ⟨keys, rule⟩⟩
  · rw [hrule] at hnew
    exact hnew
  · rw [hrule] at hnew
    dsimp only
    split
    · exact hnew.trans (accounted_discharge users₁ _ _)
    · exact hnew

/-- `match_rule_user_unref`. -/
theorem accounted_matchRuleUserUnref (tree : RuleTree) (keys : MatchKeys) :
    Accounted users (matchRuleUserUnref users tree keys).1 := by
  rw [matchRuleUserUnref]
  split
  · exact .refl users
  · split
    · exact accounted_discharge users _ _
    · exact .refl users

/-- The loop of `driver_method_become_monitor`. -/
theorem accounted_monitorRules (tree : RuleTree) (user : Option Uid) (strings : List Bytes) :
    Accounted users (monitorRules sizes users tree user strings).1 := by
  induction strings generalizing users tree with
  | nil => exact .refl users
  | cons string rest ih =>
    have hrule := accounted_matchOwnerRefRule sizes users tree user string true
    rw [monitorRules]
    rcases href : matchOwnerRefRule sizes users tree user string true with ⟨users₁, tree₁, e | keys⟩
    · rw [href] at hrule
      exact hrule
    · rw [href] at hrule
      exact hrule.trans (ih users₁ tree₁)

/-- The error path of `driver_method_become_monitor`. -/
theorem accounted_dropRules (tree : RuleTree) : Accounted users (dropRules users tree) :=
  accounted_foldl Prod.fst (fun s keys => accounted_matchRuleUserUnref s.1 s.2 keys) (ruleInstances tree) (users, tree)

end Rules

section Names

variable (idle : Bytes → Bool) (users : UserRegistry) (w : NameRegistry ℕ)

/-- `name_ownership_free`. -/
theorem accounted_nameOwnershipFree (id : ℕ) : Accounted users (nameOwnershipFree idle users w id).1 := by
  rw [nameOwnershipFree]
  split
  · exact .refl users
  · exact accounted_userChargeDeinit users _

/-- `name_ownership_new`. -/
theorem accounted_nameOwnershipNew (owner : ℕ) (user : Option Uid) (name : Bytes) :
    Accounted users (nameOwnershipNew idle users w owner user name).1 := by
  rw [nameOwnershipNew]
  rcases hcharge : userCharge users user .init none userSlotObjects 1 with ⟨users₁, charge, r⟩
  cases r with
  | success => exact accounted_userCharge hcharge
  | quota => exact (accounted_userCharge hcharge).trans (accounted_nameOwnershipFree idle users₁ _ _)

/-- `name_ownership_release`. -/
theorem accounted_nameOwnershipRelease (id : ℕ) : Accounted users (nameOwnershipRelease idle users w id).1 := by
  rw [nameOwnershipRelease]
  split
  · exact .refl users
  · dsimp only
    split
    · exact accounted_nameOwnershipFree idle users _ id
    · exact accounted_nameOwnershipFree idle users _ id

/-- `name_ownership_update`. -/
theorem accounted_nameOwnershipUpdate (id : ℕ) (flags : UInt32) :
    Accounted users (nameOwnershipUpdate idle users w id flags).1 := by
  rw [nameOwnershipUpdate]
  split
  · exact .refl users
  · dsimp only
    split
    · exact .refl users
    · split_ifs
      · exact .refl users
      · exact accounted_nameOwnershipFree idle users _ _
      all_goals exact .refl users

/-- The end of `name_registry_request_name`. -/
theorem accounted_nameRegistryRequestUpdate (name : Bytes) (id : ℕ) (flags : UInt32) :
    Accounted users (nameRegistryRequestUpdate idle users w name id flags).1 := by
  have hupdate := accounted_nameOwnershipUpdate idle users w id flags
  rw [nameRegistryRequestUpdate]
  rcases hresult : nameOwnershipUpdate idle users w id flags with ⟨users₁, w₁, change, r⟩
  rw [hresult] at hupdate
  dsimp only
  split
  · exact hupdate
  · exact hupdate.trans (accounted_nameOwnershipFree idle users₁ w₁ id)

/-- `name_registry_request_name`. -/
theorem accounted_nameRegistryRequestName (owner : ℕ) (user : Option Uid) (name : Bytes) (flags : UInt32) :
    Accounted users (nameRegistryRequestName idle users w owner user name flags).1 := by
  rw [nameRegistryRequestName]
  split
  · exact accounted_nameRegistryRequestUpdate idle users _ name _ flags
  · have hnew := accounted_nameOwnershipNew idle users (nameRegistryRefName w name) owner user name
    rcases hresult : nameOwnershipNew idle users (nameRegistryRefName w name) owner user name with ⟨users₁, w₁, _ | id⟩
    · rw [hresult] at hnew
      exact hnew
    · rw [hresult] at hnew
      exact hnew.trans (accounted_nameRegistryRequestUpdate idle users₁ _ name id flags)

/-- `name_registry_release_name`. -/
theorem accounted_nameRegistryReleaseName (owner : ℕ) (name : Bytes) :
    Accounted users (nameRegistryReleaseName idle users w owner name).1 := by
  rw [nameRegistryReleaseName]
  split
  · exact .refl users
  · split
    · exact .refl users
    · exact accounted_nameOwnershipRelease idle users w _

end Names

section Objects

variable (sizes : Sizes) (users : UserRegistry)

/-- `reply_slot_new`. -/
theorem accounted_replySlotNew (w : ReplyWorld ℕ) (registry owner : ℕ) (user actor : Option Uid) (id : ℕ)
    (serial : UInt32) : Accounted users (replySlotNew users w registry owner user actor id serial).1 := by
  rw [replySlotNew]
  split
  · exact .refl users
  · rcases hcharge : userCharge users user .init actor userSlotObjects 1 with ⟨users₁, charge, r⟩
    cases r with
    | quota => exact accounted_userCharge hcharge
    | success => exact accounted_userCharge hcharge

/-- `reply_slot_free`. -/
theorem accounted_replySlotFree (w : ReplyWorld ℕ) (slot : ℕ) : Accounted users (replySlotFree users w slot).1 := by
  rw [replySlotFree]
  split
  · exact .refl users
  · exact accounted_userChargeDeinit users _

/-- `activation_message_free`. -/
theorem accounted_activationMessageDischarge (message : ActivationMessage) :
    Accounted users (activationMessageDischarge users message) :=
  (accounted_discharge users _ _).trans (accounted_userUnref _ _)

/-- The charges of `activation_queue_message`. -/
theorem accounted_activationMessageCharge (activation : Activation) (user : Uid) (m : Message) :
    Accounted users (activationMessageCharge sizes users activation user m).1 := by
  rw [activationMessageCharge]
  rcases hbytes : userCharge users (some activation.user) .init (some user) userSlotBytes
    (UInt32.ofNat (sizes.activationMessage + sizes.message + m.nData)) with ⟨users₁, bytes, r⟩
  cases r with
  | quota => exact accounted_userCharge hbytes
  | success => exact (accounted_userCharge hbytes).trans (UserStep.charge _ _ _ _ _).accounted

/-- `activation_queue_message`. -/
theorem accounted_activationQueueMessage (names : NameRegistry ℕ) (activation : Activation) (activationIds : ℕ) (user : Uid)
    (sender : ℕ) (m : Message) :
    Accounted users (activationQueueMessage sizes users names activation activationIds user sender m).1 := by
  rw [activationQueueMessage]
  obtain ⟨activation, activationIds⟩ := activationRequest activation activationIds
  have hcharge := accounted_activationMessageCharge sizes (userRef users user) activation user m
  have href := (accounted_userRef users user).trans hcharge
  dsimp only
  rcases hresult : activationMessageCharge sizes (userRef users user) activation user m with ⟨users₁, charges, r⟩
  rw [hresult] at href
  cases r with
  | quota => exact href.trans (accounted_activationMessageDischarge users₁ _)
  | success => exact href

/-- `activation_queue_request`. -/
theorem accounted_activationQueueRequest (activation : Activation) (activationIds : ℕ) (user : Uid) (senderId : ℕ)
    (serial : UInt32) :
    Accounted users (activationQueueRequest sizes users activation activationIds user senderId serial).1 := by
  rw [activationQueueRequest]
  obtain ⟨activation, activationIds⟩ := activationRequest activation activationIds
  dsimp only
  split
  · exact .refl users
  · rcases hcharge : userCharge users (some activation.user) .init (some user) userSlotBytes
      (UInt32.ofNat sizes.activationRequest) with ⟨users₁, charge, r⟩
    cases r with
    | quota => exact (accounted_userCharge hcharge).trans (accounted_userChargeDeinit users₁ _)
    | success => exact accounted_userCharge hcharge

/-- `activation_init`. -/
theorem accounted_activationInit (names : NameRegistry ℕ) (path name : Bytes) (user : Uid) :
    Accounted users (activationInit users names path name user).1 := by
  rw [activationInit]
  split
  · exact .refl users
  · exact accounted_userRef users user

/-- `activation_deinit`. -/
theorem accounted_activationDeinit (idle : Bytes → Bool) (names : NameRegistry ℕ) (activation : Activation) :
    Accounted users (activationDeinit idle users names activation).1 := by
  have hmessages : Accounted users (activation.messages.foldl
      (fun s message => activationMessageFree idle s.1 s.2 message) (users, names)).1 :=
    accounted_foldl Prod.fst (fun s message => accounted_activationMessageDischarge s.1 message) activation.messages
      (users, names)
  have hrequests := hmessages.trans (accounted_foldl id (f := activationRequestFree)
    (fun users request => accounted_userChargeDeinit users request.charge) activation.requests _)
  exact hrequests.trans (accounted_userUnref _ _)

/-- `controller_reload_new`. -/
theorem accounted_controllerReloadNew (c : Controller) (broker user : Option Uid) :
    Accounted users (controllerReloadNew sizes users c broker user).1 := by
  rw [controllerReloadNew]
  split
  · exact .refl users
  · rcases hcharge : userCharge users broker .init user userSlotBytes (UInt32.ofNat sizes.controllerReload)
      with ⟨users₁, charge, r⟩
    cases r with
    | quota => exact accounted_userCharge hcharge
    | success => exact accounted_userCharge hcharge

/-- `controller_reload_free`. -/
theorem accounted_controllerReloadFree (c : Controller) (reload : ℕ) :
    Accounted users (controllerReloadFree users c reload).1 := by
  rw [controllerReloadFree]
  split
  · exact .refl users
  · exact accounted_userChargeDeinit users _

/-- `peer_free`. -/
theorem accounted_peerDischarge (peer : Peer) : Accounted users (peerDischarge users peer) :=
  ((accounted_discharge users _ _).trans (accounted_userChargeDeinit _ _)).trans (accounted_userUnref _ _)

/-- The charges of `peer_new_with_fd`. -/
theorem accounted_peerCharge (user : Uid) : Accounted users (peerCharge sizes users user).1 := by
  rw [peerCharge]
  rcases hbytes : userCharge users (some user) .init none userSlotBytes (UInt32.ofNat sizes.peer) with ⟨users₁, bytes, r⟩
  have haccounted := accounted_userCharge hbytes
  cases r with
  | quota => exact haccounted
  | success =>
    dsimp only
    rcases hfds : userCharge users₁ (some user) .init none userSlotFds 1 with ⟨users₂, fds, r⟩
    have haccounted₂ := haccounted.trans (accounted_userCharge hfds)
    cases r with
    | quota => exact haccounted₂
    | success => exact haccounted₂.trans (UserStep.charge _ _ _ _ _).accounted

end Objects

namespace Bus.Accounted

variable {b b' b'' : Bus}

/-- Nothing is done. -/
theorem refl (b : Bus) : b.Accounted b := DbusBroker.Accounted.refl b.users

/-- One thing is done after the other. -/
theorem trans (h : b.Accounted b') (h' : b'.Accounted b'') : b.Accounted b'' := DbusBroker.Accounted.trans h h'

/-- Only the registry of users counts. -/
theorem congr (h : b.Accounted b') (hstart : b''.users = b.users) : b''.Accounted b' := by
  rw [Bus.Accounted, hstart]
  exact h

/-- Events are recorded. -/
theorem log (h : b.Accounted b') (events : List Event) : b.Accounted (b'.log events) := h

/-- The same is done for everything in a list. -/
theorem foldl {α : Type} {f : Bus → α → Bus} (hf : ∀ b x, Bus.Accounted b (f b x)) (l : List α) (b : Bus) :
    b.Accounted (l.foldl f b) :=
  accounted_foldl Bus.users hf l b

end Bus.Accounted

section Messages

variable (sizes : Sizes) (b : Bus)

/-- `connection_queue` on a peer. -/
theorem accounted_peerConnectionQueue (receiver : ℕ) (actor : Option Uid) (m : Message) :
    b.Accounted (peerConnectionQueue sizes b receiver actor m).1 :=
  accounted_connectionQueue sizes b.users (b.connections receiver) actor m

/-- A delivery. -/
theorem accounted_peerDeliver (receiver : ℕ) (m : Message) : b.Accounted (peerDeliver sizes b receiver m) := by
  have hqueue := accounted_peerConnectionQueue sizes b receiver none m
  rw [peerDeliver]
  split
  · next b' heq =>
    rw [heq] at hqueue
    exact hqueue
  · next b' r _ heq =>
    rw [heq] at hqueue
    exact hqueue

/-- `driver_monitor`. -/
theorem accounted_driverMonitor (sender : Option ℕ) (m : Message) : b.Accounted (driverMonitor sizes b sender m) :=
  .foldl (fun b receiver => accounted_peerDeliver sizes b receiver m) _ (b.log _)

/-- `driver_send_unicast`. -/
theorem accounted_driverSendUnicast (receiver : ℕ) (metadata : MessageMetadata) (body : List DriverArg) (nFds : ℕ) :
    b.Accounted (driverSendUnicast sizes b receiver metadata body nFds) :=
  (accounted_driverMonitor sizes b none _).trans (accounted_peerDeliver sizes (Bus.log _ _) receiver _)

/-- `driver_send_error`. -/
theorem accounted_driverSendError (receiver : ℕ) (serial : UInt32) (error text : Bytes) :
    b.Accounted (driverSendError sizes b receiver serial error text) := by
  rw [driverSendError]
  split
  · exact .refl b
  · exact accounted_driverSendUnicast sizes b receiver _ _ _

/-- `driver_send_reply_with_fds`. -/
theorem accounted_driverSendReplyWithFds (receiver : ℕ) (serial : UInt32) (body : List DriverArg) (nFds : ℕ) :
    b.Accounted (driverSendReplyWithFds sizes b receiver serial body nFds) := by
  rw [driverSendReplyWithFds]
  split
  · exact .refl b
  · exact accounted_driverSendUnicast sizes b receiver _ _ _

/-- `driver_send_reply`. -/
theorem accounted_driverSendReply (receiver : ℕ) (serial : UInt32) (body : List DriverArg) :
    b.Accounted (driverSendReply sizes b receiver serial body) :=
  accounted_driverSendReplyWithFds sizes b receiver serial body 0

/-- `driver_notify_name_owner_changed`. -/
theorem accounted_driverNotifyNameOwnerChanged (policy : Policy) (registry : RegistryRef) (name old new : Bytes) :
    b.Accounted (driverNotifyNameOwnerChanged sizes policy b registry name old new) :=
  .foldl (fun b receiver => accounted_peerDeliver sizes b receiver _) _ (b.log _)

/-- `driver_name_owner_changed`. -/
theorem accounted_driverNameOwnerChanged (policy : Policy) (registry : RegistryRef) (name : Bytes) (old new : Option ℕ) :
    b.Accounted (driverNameOwnerChanged sizes policy b registry name old new) := by
  have hlost : ∀ peer, b.Accounted (driverNotifyNameLost sizes b peer name) := fun peer =>
    accounted_driverSendUnicast sizes (b.log _) peer _ _ _
  have hchanged := fun b : Bus => accounted_driverNotifyNameOwnerChanged sizes (b.log [.nameOwnerChanged name old new])
    policy registry name (ownerString old) (ownerString new)
  have hacquired : ∀ (b : Bus) peer, b.Accounted (driverNotifyNameAcquired sizes b peer name) := fun b peer =>
    accounted_driverSendUnicast sizes (b.log _) peer _ _ _
  cases old with
  | none =>
    cases new with
    | none => exact hchanged _
    | some peer => exact (hchanged _).trans (hacquired _ peer)
  | some former =>
    cases new with
    | none => exact (hlost former).trans (hchanged _)
    | some peer => exact ((hlost former).trans (hchanged _)).trans (hacquired _ peer)

/-- `driver_name_owner_changed` of a change. -/
theorem accounted_driverNameChanged (policy : Policy) (change : NameChange ℕ) :
    b.Accounted (driverNameChanged sizes policy b change) := by
  rw [driverNameChanged]
  split
  · exact accounted_driverNameOwnerChanged sizes b policy _ _ _ _
  · exact .refl b

end Messages

section Peers

variable (sizes : Sizes) (b : Bus) (id : ℕ)

/-- `peer_new_with_fd`. -/
theorem accounted_peerNewWithFd (uid : Uid) (admitted fdsAllowed : Bool) :
    b.Accounted (peerNewWithFd sizes b uid admitted fdsAllowed).1 := by
  have hcharge := (UserStep.refUser (r := b.users) uid).accounted.trans
    (accounted_peerCharge sizes (userRegistryRefUser b.users uid) uid)
  rw [peerNewWithFd]
  rcases hresult : peerCharge sizes (userRegistryRefUser b.users uid) uid with ⟨users, peer, r⟩
  rw [hresult] at hcharge
  cases r with
  | quota => exact hcharge.trans (accounted_peerDischarge users peer)
  | success =>
    dsimp only
    split
    · exact hcharge.trans (accounted_peerDischarge users peer)
    · exact hcharge.trans ((accounted_userRef users uid).trans (accounted_userRef _ uid))

/-- `peer_free`. -/
theorem accounted_peerFree : b.Accounted (peerFree b id) := by
  rw [peerFree]
  split
  · exact .refl b
  · next peer _ =>
    have hdiscard := accounted_socketDiscardOutput (b.check (peerFreeAsserts b id peer)).users (b.connections id)
    exact ((hdiscard.trans (accounted_userUnref _ peer.user)).trans (accounted_userUnref _ peer.user)).trans
      (accounted_peerDischarge _ peer)

/-- `peer_unregister`. -/
theorem accounted_peerUnregister : b.Accounted (peerUnregister b id) := by
  rw [peerUnregister]
  split
  · exact .refl b
  · exact .refl b

/-- `peer_stop_monitor`. -/
theorem accounted_peerStopMonitor : b.Accounted (peerStopMonitor b id) := by
  rw [peerStopMonitor]
  split
  · exact .refl b
  · exact .refl b

/-- `peer_request_name`. -/
theorem accounted_peerRequestName (policy : Policy) (name : Bytes) (flags : UInt32) :
    b.Accounted (peerRequestName policy b id name flags).1 := by
  rw [peerRequestName]
  split_ifs
  · exact .refl b
  · exact .refl b
  · exact .refl b
  · exact accounted_nameRegistryRequestName b.idle b.users b.names id (b.userOf id) name flags

/-- `peer_release_name`. -/
theorem accounted_peerReleaseName (name : Bytes) : b.Accounted (peerReleaseName b id name).1 := by
  rw [peerReleaseName]
  split_ifs
  · exact .refl b
  · exact .refl b
  · exact accounted_nameRegistryReleaseName b.idle b.users b.names id name

/-- `peer_link_match`. -/
theorem accounted_peerLinkMatch (keys : MatchKeys) (monitor : Bool) : b.Accounted (peerLinkMatch b id keys monitor) := by
  rw [peerLinkMatch]
  split
  · exact .refl b
  · split
    · exact .refl b
    · exact .refl b

/-- `peer_add_match`. -/
theorem accounted_peerAddMatch (string : Bytes) : b.Accounted (peerAddMatch sizes b id string).1 := by
  have hrule := accounted_matchOwnerRefRule sizes b.users (b.ownedMatches id) (b.userOf id) string false
  rw [peerAddMatch]
  rcases href : matchOwnerRefRule sizes b.users (b.ownedMatches id) (b.userOf id) string false with ⟨users, tree, e | keys⟩
  · rw [href] at hrule
    exact hrule
  · rw [href] at hrule
    exact Accounted.trans hrule
      (accounted_peerLinkMatch { b with users := users, ownedMatches := Function.update b.ownedMatches id tree } id keys false)

/-- The end of `peer_remove_match`. -/
theorem accounted_peerRemoveRule (keys : MatchKeys) : b.Accounted (peerRemoveRule b id keys) := by
  have hunref := accounted_matchRuleUserUnref b.users (b.ownedMatches id) keys
  rw [peerRemoveRule]
  split
  · exact hunref
  · exact hunref

/-- `peer_remove_match`. -/
theorem accounted_peerRemoveMatch (string : Bytes) : b.Accounted (peerRemoveMatch b id string).1 := by
  rw [peerRemoveMatch]
  split
  · exact .refl b
  · exact .refl b
  · exact accounted_peerRemoveRule b id _

/-- `peer_become_monitor`. -/
theorem accounted_peerBecomeMonitor (tree : RuleTree) : b.Accounted (peerBecomeMonitor b id tree) := by
  rw [peerBecomeMonitor]
  split
  · exact .refl b
  · exact Bus.Accounted.foldl (fun b keys => accounted_peerLinkMatch b id keys true) (ruleInstances tree)
      { b.check _ with ownedMatches := Function.update b.ownedMatches id tree }

/-- `reply_slot_free`. -/
theorem accounted_busReplySlotFree (slot : ℕ) : b.Accounted (busReplySlotFree b slot) :=
  accounted_replySlotFree b.users b.replies slot

/-- The part of `peer_queue_unicast` behind the reply slot. -/
theorem accounted_peerQueueMessage (policy : Policy) (senderUser : Uid) (receiver : ℕ) (m : Message) :
    b.Accounted (peerQueueMessage sizes policy b senderUser receiver m).1 := by
  have hqueue := accounted_peerConnectionQueue sizes b receiver (some senderUser) m
  rw [peerQueueMessage]
  split_ifs
  · exact .refl b
  · exact .refl b
  · rcases hresult : peerConnectionQueue sizes b receiver (some senderUser) m with ⟨b₁, r⟩
    rw [hresult] at hqueue
    cases r <;> exact hqueue

/-- `peer_queue_unicast`. -/
theorem accounted_peerQueueUnicast (policy : Policy) (tracked : Bool) (senderUser : Uid) (senderId receiver : ℕ)
    (m : Message) : b.Accounted (peerQueueUnicast sizes policy b tracked senderUser senderId receiver m).1 := by
  rw [peerQueueUnicast]
  split
  · have hnew := accounted_replySlotNew b.users b.replies receiver senderId (b.userOf receiver) (some senderUser) senderId
      (messageReadSerial m)
    rcases hslot : replySlotNew b.users b.replies receiver senderId (b.userOf receiver) (some senderUser) senderId
      (messageReadSerial m) with ⟨users, replies, _ | slot, r⟩
    · rw [hslot] at hnew
      exact hnew
    · rw [hslot] at hnew
      have hqueue := accounted_peerQueueMessage sizes { b with users := users, replies := replies } policy senderUser
        receiver m
      dsimp only
      rcases hresult : peerQueueMessage sizes policy { b with users := users, replies := replies } senderUser receiver m
        with ⟨b₁, r'⟩
      rw [hresult] at hqueue
      have hboth : b.Accounted b₁ := hnew.trans hqueue
      split
      · next b₂ heq =>
        cases heq
        exact hboth
      · next b₂ r₂ _ heq =>
        cases heq
        exact hboth.trans (accounted_busReplySlotFree b₁ slot)
  · exact accounted_peerQueueMessage sizes b policy senderUser receiver m

/-- `peer_queue_reply`. -/
theorem accounted_peerQueueReply (destination : Bytes) (replySerial : UInt32) (m : Message) :
    b.Accounted (peerQueueReply sizes b id destination replySerial m).1 := by
  rw [peerQueueReply]
  split
  · split
    · exact .refl b
    · split
      · exact .refl b
      · next s _ =>
        have hqueue := accounted_peerConnectionQueue sizes b s.owner none m
        rcases hresult : peerConnectionQueue sizes b s.owner none m with ⟨b₁, r⟩
        rw [hresult] at hqueue
        dsimp only
        cases r <;> exact hqueue.trans (accounted_busReplySlotFree _ _)
  · exact .refl b

end Peers

section Activations

variable (sizes : Sizes) (b : Bus) (path : Bytes)

/-- A message to the controller. -/
theorem accounted_controllerQueue (actor : Option Uid) (metadata : MessageMetadata) (nData : ℕ) :
    b.Accounted (controllerQueue sizes b actor metadata nData).1 :=
  accounted_connectionQueue sizes b.users b.controllerConnection actor ⟨metadata, nData, 0⟩

/-- `activation_request`. -/
theorem accounted_busActivationRequest (activation : Activation) :
    b.Accounted (busActivationRequest sizes b path activation).1 := by
  rw [busActivationRequest]
  split
  · exact .refl b
  · exact accounted_controllerQueue sizes (b.log _) none _ _

/-- `activation_queue_message`. -/
theorem accounted_busActivationQueueMessage (sender : ℕ) (user : Uid) (m : Message) :
    b.Accounted (busActivationQueueMessage sizes b path sender user m).1 := by
  rw [busActivationQueueMessage]
  split
  · exact .refl b
  · next activation _ =>
    have hrequest := accounted_busActivationRequest sizes b path activation
    rcases hresult : busActivationRequest sizes b path activation with ⟨b₁, r⟩
    rw [hresult] at hrequest
    cases r with
    | success =>
      have hqueue := Accounted.trans hrequest
        (accounted_activationQueueMessage sizes b₁.users b₁.names activation b₁.activationIds user sender m)
      dsimp only
      split
      · exact hqueue
      · exact hqueue
    | quota => exact hrequest
    | unexpectedFds => exact hrequest

/-- `activation_queue_request`. -/
theorem accounted_busActivationQueueRequest (sender : ℕ) (user : Uid) (serial : UInt32) :
    b.Accounted (busActivationQueueRequest sizes b path sender user serial).1 := by
  rw [busActivationQueueRequest]
  split
  · exact .refl b
  · next activation _ =>
    have hrequest := accounted_busActivationRequest sizes b path activation
    rcases hresult : busActivationRequest sizes b path activation with ⟨b₁, r⟩
    rw [hresult] at hrequest
    cases r with
    | success =>
      have hqueue := Accounted.trans hrequest
        (accounted_activationQueueRequest sizes b₁.users activation b₁.activationIds user sender serial)
      dsimp only
      split
      · dsimp only
        split
        · exact hqueue
        · exact hqueue
      · exact hqueue
    | quota => exact hrequest
    | unexpectedFds => exact hrequest

/-- `activation_request_free`. -/
theorem accounted_busActivationRequestFree (request : ActivationRequest) (outcome : Outcome) :
    b.Accounted (busActivationRequestFree b path request outcome) := by
  rw [busActivationRequestFree]
  split
  · exact .refl b
  · exact accounted_userChargeDeinit b.users request.charge

/-- `activation_message_free`. -/
theorem accounted_busActivationMessageFree (message : ActivationMessage) (attempt : Option (ℕ × PeerResult)) (error : Bool) :
    b.Accounted (busActivationMessageFree b path message attempt error) := by
  rw [busActivationMessageFree]
  split
  · exact .refl b
  · exact accounted_activationMessageDischarge b.users message

/-- The error to the sender of a message that is not delivered. -/
theorem accounted_driverRefuseMessage (message : ActivationMessage) (error text : Bytes) :
    b.Accounted (driverRefuseMessage sizes b message error text) := by
  rw [driverRefuseMessage]
  split
  · exact accounted_driverSendError sizes b _ _ error text
  · exact .refl b

/-- The end of one request when its name could not be activated. -/
theorem accounted_driverFailRequest (text : Bytes) (request : ActivationRequest) :
    b.Accounted (driverFailRequest sizes path text b request) := by
  rw [driverFailRequest]
  split
  · exact (accounted_driverSendError sizes b _ _ _ text).trans (accounted_busActivationRequestFree _ path request _)
  · exact accounted_busActivationRequestFree b path request _

/-- The end of one message when its name could not be activated. -/
theorem accounted_driverFailMessage (text : Bytes) (message : ActivationMessage) :
    b.Accounted (driverFailMessage sizes path text b message) :=
  (accounted_driverRefuseMessage sizes b message _ text).trans (accounted_busActivationMessageFree _ path message _ _)

/-- `driver_name_activation_failed`. -/
theorem accounted_driverNameActivationFailed (serial : ℕ) (reason : Bytes) :
    b.Accounted (driverNameActivationFailed sizes b path serial reason) := by
  rw [driverNameActivationFailed]
  split
  · exact .refl b
  · next activation _ =>
    split
    · exact .refl b
    · refine Bus.Accounted.trans ?_ (.foldl (fun b message => accounted_driverFailMessage sizes b path _ message) _ _)
      exact .foldl (fun b request => accounted_driverFailRequest sizes b path _ request) activation.requests
        (b.setActivation path { activation with pending := 0 })

/-- The end of one request when its name got an owner. -/
theorem accounted_driverReplyRequest (request : ActivationRequest) :
    b.Accounted (driverReplyRequest sizes path b request) := by
  rw [driverReplyRequest]
  split
  · exact (accounted_driverSendReply sizes b _ _ _).trans (accounted_busActivationRequestFree _ path request _)
  · exact accounted_busActivationRequestFree b path request _

/-- The end of one message when its name got an owner. -/
theorem accounted_driverDeliverMessage (policy : Policy) (receiver : ℕ) (message : ActivationMessage) :
    b.Accounted (driverDeliverMessage sizes policy path receiver b message) := by
  have hqueue := accounted_peerQueueUnicast sizes b policy (activationMessageSender b message).isSome message.user
    (message.message.metadata.senderId.getD 0) receiver message.message
  rw [driverDeliverMessage]
  rcases hresult : peerQueueUnicast sizes policy b (activationMessageSender b message).isSome message.user
    (message.message.metadata.senderId.getD 0) receiver message.message with ⟨b₁, r⟩
  rw [hresult] at hqueue
  dsimp only
  split
  · exact (hqueue.trans (accounted_driverRefuseMessage sizes b₁ message _ _)).trans
      (accounted_busActivationMessageFree _ path message _ _)
  · exact hqueue.trans (accounted_busActivationMessageFree b₁ path message _ _)

/-- `driver_name_activated`. -/
theorem accounted_driverNameActivated (policy : Policy) (receiver : ℕ) :
    b.Accounted (driverNameActivated sizes policy b path receiver) := by
  rw [driverNameActivated]
  split
  · exact .refl b
  · next activation _ =>
    refine Bus.Accounted.trans ?_
      (.foldl (fun b message => accounted_driverDeliverMessage sizes b path policy receiver message) _ _)
    exact .foldl (fun b request => accounted_driverReplyRequest sizes b path request) activation.requests
      (b.setActivation path { activation with pending := 0 })

end Activations

section Goodbye

variable (sizes : Sizes) (b : Bus)

/-- A reply slot that a peer waits on is dropped. -/
theorem accounted_driverCancelReply (slot : ℕ) : b.Accounted (driverCancelReply b slot) := by
  rw [driverCancelReply]
  split
  · exact .refl b
  · exact accounted_busReplySlotFree (b.log _) slot

/-- One ownership of a peer that leaves. -/
theorem accounted_driverReleaseOwnership (policy : Policy) (silent : Bool) (ownership : ℕ) :
    b.Accounted (driverReleaseOwnership sizes policy silent b ownership) := by
  have hrelease : b.Accounted (peerReleaseNameOwnership b ownership).1 :=
    accounted_nameOwnershipRelease b.idle b.users b.names ownership
  rw [driverReleaseOwnership]
  rcases hresult : peerReleaseNameOwnership b ownership with ⟨b₁, change⟩
  rw [hresult] at hrelease
  dsimp only
  split
  · exact hrelease
  · exact hrelease.trans (accounted_driverNameChanged sizes b₁ policy change)

/-- One reply slot that a peer that leaves did not answer. -/
theorem accounted_driverExpireReply (silent : Bool) (slot : ℕ) :
    b.Accounted (driverExpireReply sizes silent b slot) := by
  rw [driverExpireReply]
  split
  · exact .refl b
  · split
    · exact accounted_busReplySlotFree (b.log _) slot
    · exact (accounted_driverSendError sizes (b.log _) _ _ _ _).trans (accounted_busReplySlotFree _ slot)

/-- The rules of a peer that leaves are dropped, and what it waits for and owns. -/
theorem accounted_goodbyeFirst (policy : Policy) (id : ℕ) (silent : Bool) :
    b.Accounted (goodbyeFirst sizes policy silent b id) := by
  have hflush : b.Accounted (peerFlushMatches (b.log [.goodbye id]) id) :=
    .foldl (fun b keys => accounted_peerRemoveRule b id keys) _ (b.log _)
  have hcalls : b.Accounted (goodbyeCalls b id) := hflush.trans (.foldl accounted_driverCancelReply
    ((peerFlushMatches (b.log [.goodbye id]) id).replies.replyList id) _)
  exact hcalls.trans (.foldl (fun b ownership => accounted_driverReleaseOwnership sizes b policy silent ownership)
    ((goodbyeCalls b id).names.owners id).ownershipTree.values (goodbyeCalls b id))

/-- The end of a registration or of a monitor. -/
theorem accounted_goodbyeParting (policy : Policy) (id : ℕ) (silent : Bool) :
    b.Accounted (goodbyeParting sizes policy silent b id) := by
  rw [goodbyeParting]
  split
  · dsimp only
    split
    · exact accounted_peerUnregister b id
    · exact (accounted_driverNameOwnerChanged sizes b policy _ _ _ _).trans (accounted_peerUnregister _ id)
  · split
    · exact accounted_peerStopMonitor b id
    · exact .refl b

/-- `driver_goodbye`. -/
theorem accounted_driverGoodbye (policy : Policy) (id : ℕ) (silent : Bool) :
    b.Accounted (driverGoodbye sizes policy b id silent) := by
  obtain ⟨b₁, hb₁⟩ : ∃ b₁, b₁ = goodbyeFirst sizes policy silent b id := ⟨_, rfl⟩
  obtain ⟨b₂, hb₂⟩ : ∃ b₂, b₂ = goodbyeParting sizes policy silent b₁ id := ⟨_, rfl⟩
  have hparted : b.Accounted b₂ := by
    rw [hb₂, hb₁]
    exact (accounted_goodbyeFirst sizes b policy id silent).trans (accounted_goodbyeParting sizes _ policy id silent)
  have hexpired : b₂.Accounted (driverGoodbye sizes policy b id silent) := by
    rw [driverGoodbye_halves sizes policy hb₁ hb₂]
    exact .foldl (fun b slot => accounted_driverExpireReply sizes b silent slot) (b₂.replies.replyTree id).values
      { b₂ with matchIndex := matchRegistryFlush Prod.fst b₂.matchIndex (.peerNameOwnerChanged id) }
  exact hparted.trans hexpired

end Goodbye

section Methods

variable (sizes : Sizes) (outside : Outside) (b : Bus) (id : ℕ) (serial : UInt32)

/-- `driver_method_hello`. -/
theorem accounted_driverMethodHello : b.Accounted (driverMethodHello sizes outside b id serial).1 := by
  rw [driverMethodHello]
  split
  · exact .refl b
  · have hregister : b.Accounted ((peerRegister b id).log [.hello id]) := by
      rw [peerRegister]
      split
      · exact .refl b
      · exact .refl b
    dsimp only
    exact (hregister.trans (accounted_driverSendReply sizes _ id serial _)).trans
      (accounted_driverNameOwnerChanged sizes _ outside.policy _ _ _ _)

/-- The end of `driver_method_request_name` and `driver_method_release_name`. -/
theorem accounted_driverAnnounceChange (change : NameChange ℕ) (activates : Bool) (reply : UInt32) :
    b.Accounted (driverAnnounceChange sizes outside b id serial change activates reply) := by
  have hchanged := accounted_driverNameChanged sizes b outside.policy change
  have hreply := fun b : Bus => accounted_driverSendReply sizes (busNameChangeDeinit b change) id serial [.u reply]
  rw [driverAnnounceChange.eq_def]
  dsimp only
  split
  · exact (hchanged.trans (accounted_driverNameActivated sizes _ _ outside.policy _)).trans (hreply _)
  · exact hchanged.trans (hreply _)

/-- `driver_method_request_name`. -/
theorem accounted_driverMethodRequestName (name : Bytes) (flags : UInt32) :
    b.Accounted (driverMethodRequestName sizes outside b id serial name flags).1 := by
  have hrequest := accounted_peerRequestName b id outside.policy name flags
  rw [driverMethodRequestName]
  split
  · exact .refl b
  · rcases hresult : peerRequestName outside.policy b id name flags with ⟨b₁, change, r⟩
    rw [hresult] at hrequest
    dsimp only
    split
    · exact hrequest
    · exact hrequest.trans (accounted_driverAnnounceChange sizes outside b₁ id serial change true _)

/-- `driver_method_release_name`. -/
theorem accounted_driverMethodReleaseName (name : Bytes) :
    b.Accounted (driverMethodReleaseName sizes outside b id serial name).1 := by
  have hrelease := accounted_peerReleaseName b id name
  rw [driverMethodReleaseName]
  split
  · exact .refl b
  · rcases hresult : peerReleaseName b id name with ⟨b₁, change, r⟩
    rw [hresult] at hrelease
    dsimp only
    split
    · exact hrelease
    · exact hrelease.trans (accounted_driverAnnounceChange sizes outside b₁ id serial change false _)

/-- `driver_method_start_service_by_name`. -/
theorem accounted_driverMethodStartServiceByName (service : Bytes) :
    b.Accounted (driverMethodStartServiceByName sizes b id serial service).1 := by
  rw [driverMethodStartServiceByName]
  split
  · split
    · exact accounted_driverSendReply sizes b id serial _
    · exact accounted_busActivationQueueRequest sizes b _ id _ serial
  · exact .refl b

/-- `driver_method_update_activation_environment`. -/
theorem accounted_driverMethodUpdateActivationEnvironment :
    b.Accounted (driverMethodUpdateActivationEnvironment sizes outside b id serial).1 := by
  have hqueue := accounted_controllerQueue sizes b none controllerEnvironmentMetadata outside.environmentData
  rw [driverMethodUpdateActivationEnvironment]
  split
  · exact .refl b
  · rcases hresult : controllerQueue sizes b none controllerEnvironmentMetadata outside.environmentData with ⟨b₁, r⟩
    rw [hresult] at hqueue
    cases r with
    | success => exact hqueue.trans (accounted_driverSendReply sizes b₁ id serial _)
    | quota => exact hqueue
    | unexpectedFds => exact hqueue

/-- `driver_method_reload_config`. -/
theorem accounted_driverMethodReloadConfig : b.Accounted (driverMethodReloadConfig sizes b id serial).1 := by
  have hnew := accounted_controllerReloadNew sizes b.users b.controller (some b.user) (b.userOf id)
  rw [driverMethodReloadConfig]
  rcases hreload : controllerReloadNew sizes b.users b.controller (some b.user) (b.userOf id)
    with ⟨users, controller, _ | reload, r⟩
  · rw [hreload] at hnew
    exact hnew
  · rw [hreload] at hnew
    dsimp only
    obtain ⟨b₀, hb₀⟩ : ∃ b₀, b₀ = { b with
      users := users
      controller := { controller with
        reloads := controller.reloads.modify reload fun x => { x with senderId := some id, senderSerial := serial } } } :=
      ⟨_, rfl⟩
    have hstart : b.Accounted b₀ := by
      rw [hb₀]
      exact hnew
    have hqueue := hstart.trans (accounted_controllerQueue sizes b₀ (b.userOf id) (controllerReloadMetadata controller.serial)
      (sizes.driverMessage (controllerReloadMetadata controller.serial)))
    rw [← hb₀]
    rcases hresult : controllerQueue sizes b₀ (b.userOf id) (controllerReloadMetadata controller.serial)
        (sizes.driverMessage (controllerReloadMetadata controller.serial)) with ⟨b₁, r'⟩
    rw [hresult] at hqueue
    cases r' with
    | success => exact hqueue
    | quota => exact Accounted.trans hqueue (accounted_controllerReloadFree b₁.users b₁.controller reload)
    | unexpectedFds =>
      exact Accounted.trans hqueue (accounted_controllerReloadFree b₁.users b₁.controller reload)

/-- `driver_method_add_match`. -/
theorem accounted_driverMethodAddMatch (string : Bytes) :
    b.Accounted (driverMethodAddMatch sizes b id serial string).1 := by
  have hadd := accounted_peerAddMatch sizes b id string
  rw [driverMethodAddMatch]
  split
  · next heq =>
    rw [heq] at hadd
    exact hadd
  · next heq =>
    rw [heq] at hadd
    exact hadd
  · next heq =>
    rw [heq] at hadd
    exact hadd.trans (accounted_driverSendReply sizes (Bus.log _ _) id serial _)

/-- `driver_method_remove_match`. -/
theorem accounted_driverMethodRemoveMatch (string : Bytes) :
    b.Accounted (driverMethodRemoveMatch sizes b id serial string).1 := by
  have hremove := accounted_peerRemoveMatch b id string
  rw [driverMethodRemoveMatch]
  split
  · next heq =>
    rw [heq] at hremove
    exact hremove
  · next heq =>
    rw [heq] at hremove
    exact hremove
  · next heq =>
    rw [heq] at hremove
    exact hremove.trans (accounted_driverSendReply sizes (Bus.log _ _) id serial _)

/-- `driver_method_become_monitor`. -/
theorem accounted_driverMethodBecomeMonitor (strings : List Bytes) (flags : UInt32) :
    b.Accounted (driverMethodBecomeMonitor sizes outside b id serial strings flags).1 := by
  rw [driverMethodBecomeMonitor]
  generalize (if strings = [] then [[]] else strings) = strings
  have hrules := accounted_monitorRules sizes b.users .empty (b.userOf id) strings
  by_cases hrefused : (!peerIsPrivileged b id || !outside.eavesdrop) = true
  · rw [if_pos hrefused]
    exact .refl b
  · rw [if_neg hrefused]
    generalize monitorRules sizes b.users .empty (b.userOf id) strings = result at hrules
    obtain ⟨users, tree, r⟩ := result
    cases r with
    | some e => exact hrules.trans (accounted_dropRules users tree)
    | none =>
      dsimp only
      by_cases hflags : flags ≠ 0
      · rw [if_pos hflags]
        exact hrules.trans (accounted_dropRules users tree)
      · rw [if_neg hflags]
        obtain ⟨b₀, hb₀⟩ : ∃ b₀, b₀ = { b with users := users } := ⟨_, rfl⟩
        have hstart : b.Accounted b₀ := by
          rw [hb₀]
          exact hrules
        rw [← hb₀]
        have hreply := hstart.trans (accounted_driverSendReply sizes b₀ id serial [])
        have hgoodbye := hreply.trans (accounted_driverGoodbye sizes _ outside.policy id false)
        exact (hgoodbye.trans (accounted_peerBecomeMonitor _ id tree)).log _

/-- A method that only reads the bus. -/
theorem accounted_driverMethodQuery : b.Accounted (driverMethodQuery sizes outside b id serial).1 := by
  rw [driverMethodQuery]
  split
  · exact .refl b
  · exact accounted_driverSendReplyWithFds sizes b id serial _ _

/-- The function behind a method. -/
theorem accounted_driverCall (handler : DriverHandler) (body : Body) :
    b.Accounted (driverCall sizes outside b id handler serial body).1 := by
  rw [driverCall.eq_def]
  split
  · exact accounted_driverMethodHello sizes outside b id serial
  · exact accounted_driverMethodAddMatch sizes b id serial _
  · exact accounted_driverMethodRemoveMatch sizes b id serial _
  · exact accounted_driverMethodRequestName sizes outside b id serial _ _
  · exact accounted_driverMethodReleaseName sizes outside b id serial _
  · exact accounted_driverMethodStartServiceByName sizes b id serial _
  · exact accounted_driverMethodUpdateActivationEnvironment sizes outside b id serial
  · exact accounted_driverMethodReloadConfig sizes b id serial
  · exact accounted_driverMethodBecomeMonitor sizes outside b id serial _ _
  · rw [bus_driverMethodSet]
    exact .refl b
  · exact accounted_driverMethodQuery sizes outside b id serial
  · exact .refl b

end Methods

section Dispatch

variable (sizes : Sizes) (outside : Outside) (b : Bus) (id : ℕ) (m : Message) (body : Body)

/-- `driver_dispatch_method`. -/
theorem accounted_driverDispatchMethod (methods : List DriverMethod) :
    b.Accounted (driverDispatchMethod sizes outside b id methods m body).1 := by
  rw [driverDispatchMethod]
  split
  · next method _ =>
    rw [driverHandleMethod]
    split_ifs
    · exact .refl b
    · exact .refl b
    · exact accounted_driverCall sizes outside b id _ method.handler body
  · exact .refl b

/-- The search through all interfaces. -/
theorem accounted_driverDispatchAny (l : List (Bytes × List DriverMethod)) :
    b.Accounted (driverDispatchAny sizes outside b id m body l).1 := by
  induction l with
  | nil => exact .refl b
  | cons i rest ih =>
    have hmethod := accounted_driverDispatchMethod sizes outside b id m body i.2
    rw [driverDispatchAny]
    split
    · exact ih
    · exact hmethod

/-- `driver_dispatch_interface`. -/
theorem accounted_driverDispatchInterface : b.Accounted (driverDispatchInterface sizes outside b id m body).1 := by
  rw [driverDispatchInterface]
  split
  · exact .refl b
  · split
    · split
      · exact accounted_driverDispatchMethod sizes outside b id m body _
      · exact .refl b
    · exact accounted_driverDispatchAny sizes outside b id m body _

/-- The messages that are forwarded. -/
theorem accounted_driverForward (user : Uid) : b.Accounted (driverForward sizes outside b id user m).1 := by
  have hunicast : ∀ destination, b.Accounted (driverForwardUnicast sizes outside b id user destination m).1 := by
    intro destination
    rw [driverForwardUnicast]
    split
    · exact accounted_peerQueueUnicast sizes b outside.policy true user id _ m
    · split
      · exact .refl b
      · split
        · exact .refl b
        · exact accounted_busActivationQueueMessage sizes b _ id user m
  have hbroadcast : b.Accounted (driverForwardBroadcast sizes outside b id m) :=
    .foldl (fun b receiver => accounted_peerDeliver sizes b receiver m) _ b
  rw [driverForward]
  split
  · split
    · exact hbroadcast
    · exact .refl b
  · next destination _ =>
    split
    · exact hunicast destination
    · split
      · have hreply := accounted_peerQueueReply sizes b id destination m.metadata.replySerial m
        split
        · next heq =>
          rw [heq] at hreply
          exact hreply
        · next heq =>
          rw [heq] at hreply
          exact hreply
      · exact .refl b

/-- `driver_dispatch_internal`. -/
theorem accounted_driverDispatchInternal (user : Uid) :
    b.Accounted (driverDispatchInternal sizes outside b id user m body).1 := by
  have hmonitor := accounted_driverMonitor sizes b (some id) m
  rw [driverDispatchInternal]
  generalize driverMonitor sizes b (some id) m = b₁ at hmonitor
  split
  · split
    · exact hmonitor
    · exact hmonitor.trans (accounted_driverDispatchMethod sizes outside b₁ id m body peerMethods)
  · split
    · have hinterface := hmonitor.trans (accounted_driverDispatchInterface sizes outside b₁ id m body)
      rcases hresult : driverDispatchInterface sizes outside b₁ id m body with ⟨b₂, _ | e⟩
      · rw [hresult] at hinterface
        exact hinterface
      · rw [hresult] at hinterface
        dsimp only
        split
        · exact hinterface
        · exact hinterface
    · split
      · exact hmonitor
      · exact hmonitor.trans (accounted_driverForward sizes outside b₁ id m user)

/-- `driver_dispatch`. -/
theorem accounted_driverDispatch (user : Uid) : b.Accounted (driverDispatch sizes outside b id user m body).1 := by
  have hinternal := accounted_driverDispatchInternal sizes outside b id m body user
  rw [driverDispatch]
  split
  · exact .refl b
  · rcases hresult : driverDispatchInternal sizes outside b id user m body with ⟨b₁, _ | e⟩
    · rw [hresult] at hinternal
      exact hinternal
    · rw [hresult] at hinternal
      dsimp only
      split
      · exact hinternal.trans (accounted_driverSendError sizes b₁ id _ _ _)
      · exact hinternal

end Dispatch

namespace Broker

variable (sizes : Sizes) (b : Bus)

/-- The end of `peer_dispatch`. -/
theorem accounted_peerReap (id : ℕ) (pending : Bool) : b.Accounted (peerReap b id pending) := by
  rw [peerReap]
  split
  · exact .refl b
  · exact accounted_peerFree b id

/-- `peer_dispatch` on a violation of the protocol. -/
theorem accounted_peerDispatchViolation (id : ℕ) (policy : Policy) (pending : Bool) :
    b.Accounted (peerDispatchViolation sizes b id policy pending) := by
  have hgoodbye := accounted_driverGoodbye sizes (b.setConnection id (connectionClose (b.connections id))) policy id false
  rw [peerDispatchViolation]
  generalize driverGoodbye sizes policy (b.setConnection id (connectionClose (b.connections id))) id false = b₁ at hgoodbye
  exact (hgoodbye.trans (accounted_peerReap b₁ id pending)).congr rfl

/-- `peer_dispatch` at the end of the input. -/
theorem accounted_peerDispatchEof (id : ℕ) (policy : Policy) (pending : Bool) :
    b.Accounted (peerDispatchEof sizes b id policy pending) := by
  have hgoodbye := accounted_driverGoodbye sizes (b.setConnection id { b.connections id with hupIn := true }) policy id false
  rw [peerDispatchEof]
  generalize driverGoodbye sizes policy (b.setConnection id { b.connections id with hupIn := true }) id false = b₁
    at hgoodbye
  have hreap := accounted_peerReap (b₁.setConnection id (connectionShutdown (b₁.connections id))) id pending
  have hend : b₁.Accounted (peerReap (b₁.setConnection id (connectionShutdown (b₁.connections id))) id pending) :=
    hreap.congr rfl
  exact (hgoodbye.trans hend).congr rfl

/-- `peer_dispatch` of one message. -/
theorem accounted_peerDispatchMessage (id : ℕ) (user : Uid) (m : Message) (body : Body) (outside : Outside) :
    b.Accounted (peerDispatchMessage sizes b id user m body outside).1 := by
  have hdispatch := accounted_driverDispatch sizes outside b id (messageStitchSender m id) body user
  rw [peerDispatchMessage]
  split
  · next heq =>
    rw [heq] at hdispatch
    exact hdispatch
  · next heq =>
    rw [heq] at hdispatch
    exact hdispatch
  · next b₁ e _ heq =>
    rw [heq] at hdispatch
    dsimp only at hdispatch ⊢
    exact hdispatch.trans (accounted_peerDispatchViolation sizes b₁ id outside.policy outside.pending)

/-- `controller_add_name`. -/
theorem accounted_controllerAddName (path name : Bytes) (uid : Uid) : b.Accounted (controllerAddName b path name uid) := by
  have hstart : Accounted b.users (userRegistryRefUser b.users uid) := (UserStep.refUser uid).accounted
  have hinit := hstart.trans (accounted_activationInit (userRegistryRefUser b.users uid)
    (nameRegistryRefName b.names name) path name uid)
  rw [controllerAddName]
  dsimp only
  split
  · exact hstart.trans (accounted_userUnref _ uid)
  · rcases hresult : activationInit (userRegistryRefUser b.users uid) (nameRegistryRefName b.names name) path name uid
      with ⟨users, names, _ | activation⟩
    · exact hstart.trans (accounted_userUnref _ uid)
    · rw [hresult] at hinit
      exact hinit.trans (accounted_userUnref users uid)

/-- `controller_name_free`. -/
theorem accounted_controllerNameFree (path : Bytes) : b.Accounted (controllerNameFree b path) := by
  rw [controllerNameFree]
  split
  · exact .refl b
  · exact accounted_activationDeinit b.users b.idle b.names _

/-- `controller_method_name_release`. -/
theorem accounted_controllerMethodNameRelease (path reason : Bytes) :
    b.Accounted (controllerMethodNameRelease sizes b path reason) := by
  rw [controllerMethodNameRelease]
  split
  · exact .refl b
  · exact (accounted_driverNameActivationFailed sizes b path _ reason).trans (accounted_controllerNameFree _ path)

/-- The reply of the controller to a request to reload. -/
theorem accounted_controllerDispatchReload (serial : UInt32) (valid : Bool) :
    b.Accounted (controllerDispatchReload sizes b serial valid) := by
  rw [controllerDispatchReload.eq_def]
  split
  · exact .refl b
  · next i r _ =>
    have hfree : ∀ b₁, b.Accounted b₁ → b.Accounted { b₁ with
        users := (controllerReloadFree b₁.users b₁.controller i).1
        controller := (controllerReloadFree b₁.users b₁.controller i).2 } := fun b₁ h =>
      h.trans (accounted_controllerReloadFree b₁.users b₁.controller i)
    refine hfree _ ?_
    split
    · exact .refl b
    · split
      · exact accounted_driverSendReply sizes b _ _ _
      · exact accounted_driverSendError sizes b _ _ _ _

/-- The end of `broker_run`. -/
theorem accounted_stop : b.Accounted (stop sizes b).bus :=
  .foldl (fun b id => (accounted_driverGoodbye sizes b .permissive id true).trans (accounted_peerFree _ id)) b.peers.keys b

/-- What happens to a running broker. -/
theorem accounted_perform (op : BrokerOp) : b.Accounted (perform sizes b op).bus := by
  cases op with
  | connect uid admitted fdsAllowed => exact accounted_peerNewWithFd sizes b uid admitted fdsAllowed
  | message id message body outside =>
    rw [perform]
    split
    · exact .refl b
    · next peer _ =>
      split
      · exact .refl b
      · have hdispatch := accounted_peerDispatchMessage sizes b id peer.user message body outside
        split
        · next heq =>
          rw [heq] at hdispatch
          exact hdispatch
        · next b₁ heq =>
          rw [heq] at hdispatch
          exact hdispatch.trans (accounted_stop sizes b₁)
  | eof id policy pending =>
    rw [perform]
    split
    · exact accounted_peerDispatchEof sizes b id policy pending
    · exact .refl b
  | violation id policy pending =>
    rw [perform]
    split
    · dsimp only
      exact accounted_peerDispatchViolation sizes b id policy pending
    · exact .refl b
  | sent id => exact accounted_socketSent b.users (b.connections id)
  | hangupOutput id => exact accounted_socketHangupOutput b.users (b.connections id)
  | addName path name uid => exact accounted_controllerAddName b path name uid
  | releaseName path reason => exact accounted_controllerMethodNameRelease sizes b path reason
  | resetName path serial reason => exact accounted_driverNameActivationFailed sizes b path serial reason
  | reloaded serial valid => exact accounted_controllerDispatchReload sizes b serial valid
  | controllerSent => exact accounted_socketSent b.users b.controllerConnection
  | exit => exact accounted_stop sizes b

/-- In every run of a broker the users change by the functions of `util/user.c` only. -/
theorem accounted_run (s : Broker) (ops : List BrokerOp) : s.bus.Accounted (Machine.run (step sizes) s ops).bus := by
  induction ops generalizing s with
  | nil => exact .refl s.bus
  | cons op rest ih =>
    have hstep : s.bus.Accounted (step sizes s op).bus := by
      rw [step]
      split
      · exact accounted_perform sizes s.bus op
      · exact .refl s.bus
    exact hstep.trans (ih _)

/-- In every state of a broker everything that exists is referenced, if it was so at its start. -/
theorem live_run {users : UserRegistry} (hlive : users.accounts.Live) (user : Uid) (controller : Connection)
    (ops : List BrokerOp) : (Machine.run (step sizes) (.init users user controller) ops).bus.users.accounts.Live :=
  (accounted_run sizes (.init users user controller) ops).live hlive

end Broker

end DbusBroker
