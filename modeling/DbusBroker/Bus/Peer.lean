import DbusBroker.Bus.Bus

/-!
# Peers

The operations of a peer on the bus from `bus/peer.c`: its life, the names it requests, the
match rules it adds, and the messages that are queued on it. A rule is linked in the
registry of whoever can send what it asks for, as far as that is known when it is added.
-/

namespace DbusBroker

section Life

/-- The charges of `peer_free`. -/
def peerDischarge (users : UserRegistry) (peer : Peer) : UserRegistry :=
  let (users, _) := userChargeDeinit users peer.charges.2.2
  let (users, _) := userChargeDeinit users peer.charges.2.1
  let (users, _) := userChargeDeinit users peer.charges.1
  userUnref users peer.user

/-- The charges of `peer_new_with_fd`; none is tried after one failed. -/
def peerCharge (sizes : Sizes) (users : UserRegistry) (user : Uid) : UserRegistry × Peer × UserResult :=
  let (users, bytes, r) := userCharge users (some user) .init none userSlotBytes (UInt32.ofNat sizes.peer)
  match r with
  | .quota => (users, ⟨user, false, false, bytes, .init, .init⟩, .quota)
  | .success =>
    let (users, fds, r) := userCharge users (some user) .init none userSlotFds 1
    match r with
    | .quota => (users, ⟨user, false, false, bytes, fds, .init⟩, .quota)
    | .success =>
      let (users, objects, r) := userCharge users (some user) .init none userSlotObjects 1
      (users, ⟨user, false, false, bytes, fds, objects⟩, r)

/-- `peer_new_with_fd`, where `admitted` is the verdict of the policy on the connection and `fdsAllowed` what the
client negotiates before its first message. The socket and its input queue refer to the user as well. -/
def peerNewWithFd (sizes : Sizes) (b : Bus) (uid : Uid) (admitted fdsAllowed : Bool) : Bus × PeerResult :=
  match peerCharge sizes (userRegistryRefUser b.users uid) uid with
  | (users, peer, .quota) => ({ b with users := peerDischarge users peer }, .quota)
  | (users, peer, .success) =>
    if !admitted then ({ b with users := peerDischarge users peer }, .connectionRefused)
    else
      let b := { b with
        users := userRef (userRef users uid) uid
        ids := b.ids + 1
        nPeers := b.nPeers + 1
        peers := b.peers.insert b.ids peer
        connections := Function.update b.connections b.ids ⟨some uid, fdsAllowed, false, false, false, []⟩ }
      (b, .success)

/-- The assertions of `peer_free` and of the deinitialisers it calls. -/
def peerFreeAsserts (b : Bus) (id : ℕ) (peer : Peer) : Bool :=
  !peer.registered && (b.replies.replyList id).isEmpty && (b.replies.replyTree id).entries.isEmpty &&
    (b.ownedMatches id).entries.isEmpty && b.isIdle (.peerNameOwnerChanged id) && b.isIdle (.peerSender id) &&
    (b.names.owners id).ownershipTree.entries.isEmpty

/-- `peer_free`. -/
def peerFree (b : Bus) (id : ℕ) : Bus :=
  match b.peers.find? id with
  | none => b
  | some peer =>
    let (users, _) := socketDiscardOutput (b.check (peerFreeAsserts b id peer)).users (b.connections id)
    { b.check (peerFreeAsserts b id peer) with
      users := peerDischarge (userUnref (userUnref users peer.user) peer.user) peer
      peers := b.peers.erase id
      connections := Function.update b.connections id .null
      nPeers := b.nPeers - 1 }

/-- `peer_register`. -/
def peerRegister (b : Bus) (id : ℕ) : Bus :=
  match b.peers.find? id with
  | none => b
  | some peer =>
    { (b.check (!peer.registered && !peer.monitor)).setPeer id { peer with registered := true } with
      nRegistered := b.nRegistered + 1 }

/-- `peer_unregister`. -/
def peerUnregister (b : Bus) (id : ℕ) : Bus :=
  match b.peers.find? id with
  | none => b
  | some peer =>
    { (b.check (peer.registered && !peer.monitor)).setPeer id { peer with registered := false } with
      nRegistered := b.nRegistered - 1 }

/-- `peer_is_privileged`. -/
def peerIsPrivileged (b : Bus) (id : ℕ) : Bool := (b.peers.find? id).any fun peer => peer.user = 0 || peer.user = b.user

end Life

section Names

/-- What `peer_request_name` makes of the result of the name registry. -/
def NameResult.toPeer : NameResult → PeerResult
  | .success => .success
  | .notFound => .nameNotFound
  | .notOwner => .nameNotOwner
  | .quota => .quota
  | .alreadyOwner => .nameAlreadyOwner
  | .inQueue => .nameInQueue
  | .exists => .nameExists

/-- `peer_request_name`. -/
def peerRequestName (policy : Policy) (b : Bus) (id : ℕ) (name : Bytes) (flags : UInt32) :
    Bus × NameChange ℕ × PeerResult :=
  if name = driverName then (b, .init, .nameReserved)
  else if name.head? = some (byte ':') then (b, .init, .nameUnique)
  else if !policy.checkOwn id name then (b, .init, .nameRefused)
  else
    let (users, names, change, r) := nameRegistryRequestName b.idle b.users b.names id (b.userOf id) name flags
    ({ b with users := users, names := names }, change, r.toPeer)

/-- `peer_release_name`. -/
def peerReleaseName (b : Bus) (id : ℕ) (name : Bytes) : Bus × NameChange ℕ × PeerResult :=
  if name = driverName then (b, .init, .nameReserved)
  else if name.head? = some (byte ':') then (b, .init, .nameUnique)
  else
    let (users, names, change, r) := nameRegistryReleaseName b.idle b.users b.names id name
    ({ b with users := users, names := names }, change, r.toPeer)

/-- `peer_release_name_ownership`. -/
def peerReleaseNameOwnership (b : Bus) (ownership : ℕ) : Bus × NameChange ℕ :=
  let (users, names, change) := nameOwnershipRelease b.idle b.users b.names ownership
  ({ b with users := users, names := names }, change)

/-- `name_change_deinit`. -/
def busNameChangeDeinit (b : Bus) (change : NameChange ℕ) : Bus :=
  { b with names := nameChangeDeinit b.idle b.names change }

end Names

section Matches

/-- The name a rule for `NameOwnerChanged` signals of the driver asks for. -/
def nameOwnerChangedArg (keys : MatchKeys) : Option Bytes :=
  if keys.filter.member = some (lit "NameOwnerChanged") then
    (argAt keys.filter.args 0).filter fun name => name ≠ driverName
  else none

/-- The registry for an id that a rule names: the one of the peer, another one if the peer is still to
come, and none if the id was given out and is not registered. -/
def peerMatchRegistryById (b : Bus) (id : ℕ) (registry other : RegistryRef) : Option RegistryRef :=
  if (peerRegistryFindPeer b id).isSome then some registry
  else if b.ids ≤ id then some other
  else none

/-- The registry that `peer_link_match` chooses for a rule. -/
def peerMatchRegistry (b : Bus) (keys : MatchKeys) : Option RegistryRef :=
  match keys.sender with
  | none => some .wildcard
  | some sender =>
    if sender = driverName then
      match nameOwnerChangedArg keys with
      | none => some .driver
      | some name =>
        match addressFromString name with
        | .id id => peerMatchRegistryById b id (.peerNameOwnerChanged id) .driver
        | _ => some (.nameNameOwnerChanged name)
    else
      match addressFromString sender with
      | .id id => peerMatchRegistryById b id (.peerSender id) .wildcard
      | _ => some (.nameSender sender)

/-- `match_rule_link` of a rule of a peer. -/
def peerRuleLink (b : Bus) (id : ℕ) (keys : MatchKeys) (registry : RegistryRef) (monitor : Bool) : Bus :=
  { b with matchIndex := matchRuleLink Prod.snd Prod.fst b.matchIndex (id, keys) (!monitor) registry monitor }

/-- `peer_link_match`. A rule that is linked in a registry of a name refers to the name. -/
def peerLinkMatch (b : Bus) (id : ℕ) (keys : MatchKeys) (monitor : Bool) : Bus :=
  match peerMatchRegistry b keys with
  | none => b
  | some registry =>
    match registry.name with
    | none => peerRuleLink b id keys registry monitor
    | some name =>
      let b := peerRuleLink { b with names := nameRegistryRefName b.names name } id keys registry monitor
      let b := { b with names := nameRef b.names name }
      { b with names := nameUnref b.idle b.names name }

/-- `peer_add_match`: the keys of the rule that was added. -/
def peerAddMatch (sizes : Sizes) (b : Bus) (id : ℕ) (string : Bytes) : Bus × Except PeerResult MatchKeys :=
  match matchOwnerRefRule sizes b.users (b.ownedMatches id) (b.userOf id) string false with
  | (users, tree, .error e) =>
    ({ b with users := users, ownedMatches := Function.update b.ownedMatches id tree },
      .error (if e = .quota then .quota else .matchInvalid))
  | (users, tree, .ok keys) =>
    (peerLinkMatch { b with users := users, ownedMatches := Function.update b.ownedMatches id tree } id keys false,
      .ok keys)

/-- The strings for which `peer_match_rule_to_name` takes the registry of a rule to be the one of a name. -/
def peerMatchRuleNamesName (keys : MatchKeys) : Bool :=
  match keys.sender with
  | none => false
  | some sender =>
    if sender = driverName then (nameOwnerChangedArg keys).any fun name => name.head? ≠ some (byte ':')
    else sender.head? ≠ some (byte ':')

/-- `peer_match_rule_to_name`. -/
def peerMatchRuleToName (b : Bus) (id : ℕ) (keys : MatchKeys) : Option Bytes :=
  if peerMatchRuleNamesName keys then (b.matchIndex.link (id, keys)).bind (·.registry.name) else none

/-- `match_rule_user_unref` of a rule of a peer, which is unlinked with its last reference. -/
def peerRuleUserUnref (b : Bus) (id : ℕ) (keys : MatchKeys) : Bus :=
  let (users, tree, last) := matchRuleUserUnref b.users (b.ownedMatches id) keys
  { b with
    users := users
    ownedMatches := Function.update b.ownedMatches id tree
    matchIndex := if last then matchRuleUnlink Prod.snd Prod.fst b.matchIndex (id, keys) else b.matchIndex }

/-- The end of `peer_remove_match` and a round of `peer_flush_matches`: the name is found before the rule
is dropped, and dropped after it. -/
def peerRemoveRule (b : Bus) (id : ℕ) (keys : MatchKeys) : Bus :=
  let name := peerMatchRuleToName b id keys
  let b := peerRuleUserUnref b id keys
  match name with
  | some name => { b with names := nameUnref b.idle b.names name }
  | none => b

/-- `peer_remove_match`: the keys of the rule that was removed. -/
def peerRemoveMatch (b : Bus) (id : ℕ) (string : Bytes) : Bus × Except PeerResult MatchKeys :=
  match matchOwnerFindRule (b.ownedMatches id) string with
  | .error _ => (b, .error .matchInvalid)
  | .ok none => (b, .error .matchNotFound)
  | .ok (some keys) => (peerRemoveRule b id keys, .ok keys)

/-- The rules of a tree, each as often as it was asked for. -/
def ruleInstances (tree : RuleTree) : List MatchKeys :=
  tree.entries.flatMap fun e => List.replicate e.2.nUserRefs e.1

/-- `peer_flush_matches`. -/
def peerFlushMatches (b : Bus) (id : ℕ) : Bus :=
  (ruleInstances (b.ownedMatches id)).foldl (fun b keys => peerRemoveRule b id keys) b

/-- `peer_become_monitor`. -/
def peerBecomeMonitor (b : Bus) (id : ℕ) (ownedMatches : RuleTree) : Bus :=
  match b.peers.find? id with
  | none => b
  | some peer =>
    let b := b.check (!peer.registered && !peer.monitor && (b.ownedMatches id).entries.isEmpty)
    let b := { b with ownedMatches := Function.update b.ownedMatches id ownedMatches }
    let b := (ruleInstances ownedMatches).foldl (fun b keys => peerLinkMatch b id keys true) b
    { b.setPeer id { peer with monitor := true } with nMonitors := b.nMonitors + 1 }

/-- `peer_stop_monitor`. -/
def peerStopMonitor (b : Bus) (id : ℕ) : Bus :=
  match b.peers.find? id with
  | none => b
  | some peer =>
    let b := b.check (!peer.registered && peer.monitor && (b.ownedMatches id).entries.isEmpty)
    { b.setPeer id { peer with monitor := false } with nMonitors := b.nMonitors - 1 }

end Matches

section Queues

/-- `reply_slot_free`. -/
def busReplySlotFree (b : Bus) (slot : ℕ) : Bus :=
  let (users, replies) := replySlotFree b.users b.replies slot
  { b with users := users, replies := replies }

/-- The part of `peer_queue_unicast` behind the reply slot. -/
def peerQueueMessage (sizes : Sizes) (policy : Policy) (b : Bus) (senderUser : Uid) (receiver : ℕ) (m : Message) :
    Bus × PeerResult :=
  if !policy.checkReceive m.metadata receiver then (b, .receiveDenied)
  else if !policy.checkSend m.metadata receiver then (b, .sendDenied)
  else
    match peerConnectionQueue sizes b receiver (some senderUser) m with
    | (b, .success) => (b, .success)
    | (b, .quota) => (b, .quota)
    | (b, .unexpectedFds) => (b, .unexpectedFds)

/-- `peer_queue_unicast`, where `tracked` says that the sender is there to be replied to. -/
def peerQueueUnicast (sizes : Sizes) (policy : Policy) (b : Bus) (tracked : Bool) (senderUser : Uid) (senderId receiver : ℕ)
    (m : Message) : Bus × PeerResult :=
  let serial := messageReadSerial m
  if tracked && serial ≠ 0 then
    match replySlotNew b.users b.replies receiver senderId (b.userOf receiver) (some senderUser) senderId serial with
    | (users, replies, none, r) =>
      ({ b with users := users, replies := replies }, if r = .exists then .expectedReplyExists else .quota)
    | (users, replies, some slot, _) =>
      match peerQueueMessage sizes policy { b with users := users, replies := replies } senderUser receiver m with
      | (b, .success) => (b.log [.called receiver senderId serial], .success)
      | (b, r) => (busReplySlotFree b slot, r)
  else peerQueueMessage sizes policy b senderUser receiver m

/-- `peer_queue_reply`. The slot is used up whatever becomes of the reply. -/
def peerQueueReply (sizes : Sizes) (b : Bus) (sender : ℕ) (destination : Bytes) (replySerial : UInt32) (m : Message) :
    Bus × PeerResult :=
  match addressFromString destination with
  | .id id =>
    match replySlotGetById b.replies sender id replySerial with
    | none => (b, .unexpectedReply)
    | some slot =>
      match b.replies.slots.read slot with
      | none => (b, .unexpectedReply)
      | some s =>
        let b := match peerConnectionQueue sizes b s.owner none m with
          | (b, .unexpectedFds) => b.setConnection s.owner (connectionShutdown (b.connections s.owner))
          | (b, _) => b
        (busReplySlotFree (b.log [.answered sender s.owner replySerial]) slot, .success)
  | _ => (b, .unexpectedReply)

end Queues

end DbusBroker
