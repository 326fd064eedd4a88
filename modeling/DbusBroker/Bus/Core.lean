import DbusBroker.Bus.NameActivation
import DbusBroker.Bus.ReplyBooks
import DbusBroker.Bus.Sends

/-!
# The core of the bus

What is left of the bus without accounts, queued output and counters: its names, rules,
reply slots, peers and activations. Every operation of the broker is a sequence of small
moves of this core, and each move says at most a few things in the trace.

Between the moves of one operation some things are out of order for a while: a peer that
leaves has no rules any more but is still registered, a name has an owner but its activation
was not told yet. An `Aux` remembers where an operation is, and who holds the references on
names that are in nobody's books.
-/

namespace DbusBroker

open Std

/-- The core of a bus. -/
structure Core where
  names : NameRegistry ℕ
  matchIndex : MatchWorld RegistryRef (ℕ × MatchKeys) ℕ
  ownedMatches : ℕ → RuleTree
  replies : ReplyWorld ℕ
  peers : SearchTree (compare : ℕ → ℕ → Ordering) Peer
  hup : ℕ → Bool
  ids : ℕ
  nMonitors : ℕ
  activations : StringTree Activation
  assertFailed : Bool

/-- The core of a bus. -/
def Bus.core (b : Bus) : Core where
  names := b.names
  matchIndex := b.matchIndex
  ownedMatches := b.ownedMatches
  replies := b.replies
  peers := b.peers
  hup := fun id => (b.connections id).hupIn
  ids := b.ids
  nMonitors := b.nMonitors
  activations := b.activations
  assertFailed := b.assertFailed

/-- Where an operation is: the references that it holds, the peer that leaves, whether it said goodbye and whether
its rules are being dropped, the monitor that gets its rules and those to come, the activation that is being
settled, and whether the broker ends. -/
structure Aux where
  held : Bytes → ℕ
  leaving : Option ℕ
  parting : Bool
  flushing : Bool
  arming : Option (ℕ × List MatchKeys)
  busy : Option Bytes
  silent : Bool

/-- No operation. -/
def Aux.rest (held : Bytes → ℕ) (silent : Bool) : Aux := ⟨held, none, false, false, none, none, silent⟩

namespace Core

/-- `peer_is_registered`. -/
def isRegistered (c : Core) (id : ℕ) : Bool := (c.peers.find? id).any (·.registered)

/-- `peer_is_monitor`. -/
def isMonitor (c : Core) (id : ℕ) : Bool := (c.peers.find? id).any (·.monitor)

/-- The registry for an id that a rule names. -/
def matchRegistryById (c : Core) (id : ℕ) (registry other : RegistryRef) : Option RegistryRef :=
  if c.isRegistered id then some registry else if c.ids ≤ id then some other else none

/-- The registry that `peer_link_match` chooses for a rule. -/
def matchRegistry (c : Core) (keys : MatchKeys) : Option RegistryRef :=
  match keys.sender with
  | none => some .wildcard
  | some sender =>
    if sender = driverName then
      match nameOwnerChangedArg keys with
      | none => some .driver
      | some name =>
        match addressFromString name with
        | .id id => c.matchRegistryById id (.peerNameOwnerChanged id) .driver
        | _ => some (.nameNameOwnerChanged name)
    else
      match addressFromString sender with
      | .id id => c.matchRegistryById id (.peerSender id) .wildcard
      | _ => some (.nameSender sender)

/-- How often a peer asked for a rule. -/
def refs (c : Core) (id : ℕ) (keys : MatchKeys) : ℕ := ((c.ownedMatches id).find? keys).elim 0 (·.nUserRefs)

/-- A rule of a peer is linked where it belongs. -/
def linkRule (c : Core) (id : ℕ) (keys : MatchKeys) (monitor : Bool) : MatchWorld RegistryRef (ℕ × MatchKeys) ℕ :=
  match c.matchRegistry keys with
  | none => c.matchIndex
  | some registry => matchRuleLink Prod.snd Prod.fst c.matchIndex (id, keys) (!monitor) registry monitor

/-- A rule gets one more reference and is linked. -/
def addRule (c : Core) (id : ℕ) (keys : MatchKeys) (rule : MatchRule) (monitor : Bool) : Core :=
  { c with
    ownedMatches := Function.update c.ownedMatches id ((c.ownedMatches id).insert keys rule)
    matchIndex := c.linkRule id keys monitor }

/-- A rule loses a reference, and is unlinked with the last one. -/
def dropRule (c : Core) (id : ℕ) (keys : MatchKeys) (rule : MatchRule) : Core :=
  if rule.nUserRefs ≤ 1 then
    { c with
      ownedMatches := Function.update c.ownedMatches id ((c.ownedMatches id).erase keys)
      matchIndex := matchRuleUnlink Prod.snd Prod.fst c.matchIndex (id, keys) }
  else
    { c with
      ownedMatches := Function.update c.ownedMatches id
        ((c.ownedMatches id).insert keys { rule with nUserRefs := rule.nUserRefs - 1 }) }

/-- Write back a peer. -/
def setPeer (c : Core) (id : ℕ) (peer : Peer) : Core := { c with peers := c.peers.insert id peer }

/-- Write back an activation. -/
def setActivation (c : Core) (path : Bytes) (activation : Activation) : Core :=
  { c with activations := c.activations.insert path activation }

/-- Nothing of others refers to a peer that is not registered. -/
structure Clear (c : Core) (id : ℕ) : Prop where
  registered : c.isRegistered id = false
  monitor : c.isMonitor id = false
  names : ∀ n, c.names.ownershipOf id n = none
  rules : c.ownedMatches id = .empty
  calls : c.replies.replyList id = []
  replies : c.replies.replyTree id = .empty
  links : ∀ rule l, c.matchIndex.link rule = some l →
    l.registry ≠ .peerSender id ∧ l.registry ≠ .peerNameOwnerChanged id

end Core

/-- The name that a rule gives back when it is dropped. -/
def ruleName (keys : MatchKeys) : Option Bytes :=
  if peerMatchRuleNamesName keys then
    match keys.sender with
    | none => none
    | some sender => if sender = driverName then nameOwnerChangedArg keys else some sender
  else none

/-- One more reference is held on a name, if there is one. -/
def holdMore (held : Bytes → ℕ) (name : Option Bytes) : Bytes → ℕ :=
  match name with
  | some n => Function.update held n (held n + 1)
  | none => held

/-- The references that the rules of all peers hold on a name. -/
def rulePins (ownedMatches : ℕ → RuleTree) (ids : ℕ) (n : Bytes) : ℕ :=
  ∑ id ∈ Finset.range ids, (ownedMatches id).total fun keys rule => if ruleName keys = some n then rule.nUserRefs else 0

/-- The references that an activation and the messages that wait for it hold on a name. -/
def Activation.pins (activation : Activation) (n : Bytes) : ℕ :=
  (if activation.name = n then 1 else 0) + (activation.messages.map fun m => m.sendersNames.count n).sum

/-- The references on a name but for those of its owners. -/
def Core.pins (c : Core) (held : Bytes → ℕ) (n : Bytes) : ℕ :=
  rulePins c.ownedMatches c.ids n + c.activations.total (fun _ activation => activation.pins n) + held n

end DbusBroker
