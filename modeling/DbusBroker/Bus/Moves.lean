import DbusBroker.Bus.Core
import Mathlib.Logic.Relation

/-!
# The moves of the bus

The small steps that every operation of the broker is made of. A step changes the core in
one respect and says what it did. What it needs of the core before it is part of the step, so
that whoever takes a step answers for it, and whoever follows the steps can rely on it.

A step is taken, and then something may be sent. While the rules of a peer are dropped or
added nothing is sent.
-/

namespace DbusBroker

open Std

/-- How the wait for a reply ends: with an answer, with an error when the callee leaves and the caller is another one,
or without either because the caller leaves, or because the broker ends. -/
def endsReply (x : Aux) (callee caller : ℕ) (serial : UInt32) : Event → Prop
  | .answered callee' caller' serial' => callee' = callee ∧ caller' = caller ∧ serial' = serial ∧ x.leaving = none
  | .noReply callee' caller' serial' =>
    callee' = callee ∧ caller' = caller ∧ serial' = serial ∧ x.leaving = some callee ∧ x.parting = true ∧
      x.silent = false ∧ caller ≠ callee
  | .cancelled callee' caller' serial' =>
    callee' = callee ∧ caller' = caller ∧ serial' = serial ∧ x.parting = true ∧
      (x.leaving = some caller ∨ x.leaving = some callee ∧ x.silent = true)
  | _ => False

/-- The sender of a message that waits is there and expects a reply. -/
def Core.expectsReply (c : Core) (m : Message) : Bool := (m.metadata.senderId.any c.isRegistered) && messageReadSerial m ≠ 0

/-- How a message that waited ends: an error without an attempt, or an attempt to deliver it to the owner of the
name, with an error if the attempt was refused. -/
def Core.Resolves (c : Core) (name : Bytes) (m : Message) (attempt : Option (ℕ × PeerResult)) (error : Bool) : Prop :=
  (attempt = none ∧ (nameQueue c.names name).primary = none ∧ error = c.expectsReply m) ∨
    ∃ receiver r, attempt = some (receiver, r) ∧ (nameQueue c.names name).primary = some receiver ∧
      error = ((activatedError r).isSome && c.expectsReply m)

/-- What a step may need leave for: a rule that a peer adds or that a monitor gets, and an activation that ends
without an owner. -/
inductive Leave where
  | rule (id : ℕ) (keys : MatchKeys) (monitor : Bool)
  | giveUp (path : Bytes)

section Change

variable (ok : Core → Leave → Prop)

/-- One step of the core, with what is said about it. Some steps are only taken where `ok` allows it. -/
inductive Change : Aux → Core → Aux → Core → List Event → Prop
  /-- Nothing changes. -/
  | idle (x : Aux) (c : Core) : Change x c x c []
  /-- A peer connects. -/
  | connect (x : Aux) (c : Core) (peer : Peer) (hregistered : peer.registered = false) (hmonitor : peer.monitor = false)
      (hleaving : x.leaving = none) :
      Change x c x
        { c with peers := c.peers.insert c.ids peer, hup := Function.update c.hup c.ids false, ids := c.ids + 1 } []
  /-- The input of a peer ends, and the peer is about to leave. -/
  | hangup (x : Aux) (c : Core) (id : ℕ) (hleaving : x.leaving = none) :
      Change x c { x with leaving := some id, parting := false } { c with hup := Function.update c.hup id true } []
  /-- A peer is registered. -/
  | register (x : Aux) (c : Core) (id : ℕ) (peer : Peer) (hpeer : c.peers.find? id = some peer)
      (hregistered : peer.registered = false) (hmonitor : peer.monitor = false) (hhup : c.hup id = false)
      (hleaving : x.leaving = none) :
      Change x c x (c.setPeer id { peer with registered := true }) [.hello id]
  /-- The unique name of a peer comes or goes. -/
  | announceUnique (x : Aux) (c : Core) (id : ℕ) (old new : Option ℕ) (hflushing : x.flushing = false) :
      Change x c x c (announce (addressIdToString id) old new)
  /-- A peer leaves. -/
  | goodbye (x : Aux) (c : Core) (id : ℕ) (hleaving : x.leaving = none ∨ x.leaving = some id)
      (hflushing : x.flushing = false) (harming : x.arming = none) :
      Change x c { x with leaving := some id, parting := true, flushing := true } c [.goodbye id]
  /-- The rules of a peer that leaves are dropped. -/
  | flushed (x : Aux) (c : Core) (id : ℕ) (hleaving : x.leaving = some id) (hrules : c.ownedMatches id = .empty) :
      Change x c { x with flushing := false } c []
  /-- A peer becomes a monitor, and its rules are to come. -/
  | startMonitor (x : Aux) (c : Core) (id : ℕ) (peer : Peer) (rules instances : List MatchKeys)
      (hpeer : c.peers.find? id = some peer) (hregistered : peer.registered = false) (hmonitor : peer.monitor = false)
      (hhup : c.hup id = false) (hleaving : x.leaving = none) (harming : x.arming = none)
      (hrules : ∀ keys, keys ∈ rules ↔ keys ∈ instances) :
      Change x c { x with arming := some (id, instances) }
        { c.setPeer id { peer with monitor := true } with nMonitors := c.nMonitors + 1 } [.becameMonitor id rules]
  /-- All rules of a monitor are there. -/
  | armed (x : Aux) (c : Core) (id : ℕ) (harming : x.arming = some (id, [])) :
      Change x c { x with arming := none } c []
  /-- A peer adds a rule. -/
  | subscribe (x : Aux) (c : Core) (id : ℕ) (keys : MatchKeys) (rule : MatchRule) (held : Bytes → ℕ)
      (hregistered : c.isRegistered id = true) (hrefs : rule.nUserRefs = c.refs id keys + 1)
      (hheld : x.held = holdMore held (ruleName keys)) (hleaving : x.leaving = none) (harming : x.arming = none)
      (hok : ok c (.rule id keys false)) :
      Change x c { x with held := held } (c.addRule id keys rule false) [.matchAdded id keys]
  /-- A monitor gets a rule. -/
  | arm (x : Aux) (c : Core) (id : ℕ) (keys : MatchKeys) (instances : List MatchKeys) (rule : MatchRule)
      (held : Bytes → ℕ) (hmonitor : c.isMonitor id = true) (hrefs : rule.nUserRefs = c.refs id keys + 1)
      (hheld : x.held = holdMore held (ruleName keys)) (hleaving : x.leaving = none)
      (harming : x.arming = some (id, keys :: instances))
      (hsame : ∀ l r, c.matchIndex.link (id, keys) = some l → c.matchRegistry keys = some r → r = l.registry)
      (hok : ok c (.rule id keys true)) :
      Change x c { x with held := held, arming := some (id, instances) } (c.addRule id keys rule true) []
  /-- A rule is dropped, on request or because its peer leaves. -/
  | drop (x : Aux) (c : Core) (id : ℕ) (keys : MatchKeys) (rule : MatchRule) (said : List Event)
      (hrule : (c.ownedMatches id).find? keys = some rule)
      (hsaid : (said = [.matchRemoved id keys] ∧ x.leaving = none ∧ x.arming = none ∧ c.isRegistered id = true) ∨
        said = [] ∧ x.leaving = some id ∧ x.flushing = true) :
      Change x c { x with held := holdMore x.held (ruleName keys) } (c.dropRule id keys rule) said
  /-- The rules of others are taken out of a registry of a peer that leaves. -/
  | flush (x : Aux) (c : Core) (id : ℕ) (registry : RegistryRef)
      (hregistry : registry = .peerSender id ∨ registry = .peerNameOwnerChanged id) (hleaving : x.leaving = some id)
      (hflushing : x.flushing = false) :
      Change x c x { c with matchIndex := matchRegistryFlush Prod.fst c.matchIndex registry } []
  /-- Something happens to the queue or to the references of a name. -/
  | names (x : Aux) (c : Core) (w' : NameRegistry ℕ) (n : Bytes) (q : OwnerQueue ℕ) (pins : ℕ) (busy : Option Bytes)
      (said : List Event) (heffect : NameEffect c.names w' n (c.pins (Function.update x.held n pins) n) q)
      (hpatient : q.Patient) (hkept : ActivationKept c.names w')
      (howners : ∀ a ∈ q.owners, a ∈ (nameQueue c.names n).owners ∨ c.isRegistered a = true)
      (hbusy : busy = x.busy ∨ x.busy = none)
      (hactivated : q.primary ≠ none → (nameQueue c.names n).primary ≠ none ∨ nameActivation c.names n = none ∨
        busy = nameActivation c.names n)
      (hsaid : said = announceChange (nameChangeOf n (nameQueue c.names n).primary q.primary) ∨
        said = [] ∧ x.silent = true) :
      Change x c { x with held := Function.update x.held n pins, busy := busy } { c with names := w' } said
  /-- A peer that leaves is not registered any more. -/
  | unregister (x : Aux) (c : Core) (id : ℕ) (peer : Peer) (hpeer : c.peers.find? id = some peer)
      (hregistered : peer.registered = true) (hleaving : x.leaving = some id) (hparting : x.parting = true)
      (hflushing : x.flushing = false) (hrules : c.ownedMatches id = .empty) (hnames : ∀ n, id ∉ (nameQueue c.names n).owners)
      (hcalls : c.replies.replyList id = [])
      (hlinks : ∀ rule l, c.matchIndex.link rule = some l → l.registry ≠ .peerSender id) :
      Change x c x (c.setPeer id { peer with registered := false }) []
  /-- A peer that leaves is no monitor any more. -/
  | stopMonitor (x : Aux) (c : Core) (id : ℕ) (peer : Peer) (hpeer : c.peers.find? id = some peer)
      (hmonitor : peer.monitor = true) (hleaving : x.leaving = some id) (hflushing : x.flushing = false)
      (hrules : c.ownedMatches id = .empty) :
      Change x c x { c.setPeer id { peer with monitor := false } with nMonitors := c.nMonitors - 1 } []
  /-- A peer has left. -/
  | left (x : Aux) (c : Core) (id : ℕ) (parting : Bool) (hleaving : x.leaving = some id) (hparting : x.parting = true)
      (hflushing : x.flushing = false) (hclear : c.Clear id) :
      Change x c { x with leaving := none, parting := parting } c []
  /-- A peer is freed. -/
  | free (x : Aux) (c : Core) (id : ℕ) (peer : Peer) (hpeer : c.peers.find? id = some peer) (hclear : c.Clear id)
      (hleaving : x.leaving = none) :
      Change x c x { c with peers := c.peers.erase id, hup := Function.update c.hup id true } []
  /-- A name becomes activatable. -/
  | addActivation (x : Aux) (c : Core) (path n : Bytes) (user : Uid) (held : Bytes → ℕ)
      (hnone : c.activations.find? path = none) (hname : nameActivation c.names n = none)
      (hheld : x.held = holdMore held (some n)) (hbusy : x.busy = none) :
      Change x c { x with held := held }
        { c.setActivation path ⟨n, user, [], [], 0⟩ with names := c.names.setActivation n (some path) } []
  /-- A name is not activatable any more. -/
  | removeActivation (x : Aux) (c : Core) (path : Bytes) (a : Activation) (hfind : c.activations.find? path = some a)
      (hrequests : a.requests = []) (hmessages : a.messages = []) (hbusy : x.busy = none) :
      Change x c { x with held := holdMore x.held (some a.name) }
        { c with activations := c.activations.erase path, names := c.names.setActivation a.name none } []
  /-- The controller is asked to activate a name without an owner. -/
  | pend (x : Aux) (c : Core) (path : Bytes) (a : Activation) (pending : ℕ) (hfind : c.activations.find? path = some a)
      (hpending : pending ≠ 0) (hprimary : (nameQueue c.names a.name).primary = none) (hbusy : x.busy = none) :
      Change x c x (c.setActivation path { a with pending := pending }) []
  /-- A request waits for an activation. -/
  | queueRequest (x : Aux) (c : Core) (path : Bytes) (a : Activation) (request : ActivationRequest)
      (hfind : c.activations.find? path = some a) (hpending : a.pending ≠ 0) (hserial : request.serial ≠ 0)
      (hbusy : x.busy = none) :
      Change x c x (c.setActivation path { a with requests := a.requests ++ [request] })
        [.requestQueued path request.senderId request.serial]
  /-- A message waits for an activation, and refers to the names its sender wants. -/
  | queueMessage (x : Aux) (c : Core) (path : Bytes) (a : Activation) (message : ActivationMessage) (held : Bytes → ℕ)
      (hfind : c.activations.find? path = some a) (hpending : a.pending ≠ 0)
      (hheld : ∀ n, x.held n = held n + message.sendersNames.count n) (hbusy : x.busy = none) :
      Change x c { x with held := held } (c.setActivation path { a with messages := a.messages ++ [message] })
        [.messageQueued path message.message]
  /-- An activation ends, and what waited for it is to be resolved. -/
  | settle (x : Aux) (c : Core) (path : Bytes) (a : Activation) (hfind : c.activations.find? path = some a)
      (hbusy : x.busy = none ∨ x.busy = some path) :
      Change x c { x with busy := some path } (c.setActivation path { a with pending := 0 }) []
  /-- The first request that waits is resolved. -/
  | resolveRequest (x : Aux) (c : Core) (path : Bytes) (a : Activation) (request : ActivationRequest)
      (rest : List ActivationRequest) (outcome : Outcome) (hfind : c.activations.find? path = some a)
      (hrequests : a.requests = request :: rest) (hpending : a.pending = 0) (hbusy : x.busy = some path)
      (houtcome : outcome = .silent ↔ c.isRegistered request.senderId = false)
      (hreplied : outcome = .replied → (nameQueue c.names a.name).primary ≠ none)
      (hfailed : outcome = .failed → (nameQueue c.names a.name).primary = none)
      (hgiveUp : outcome = .failed → ok c (.giveUp path)) (hleaving : x.leaving = none) :
      Change x c x (c.setActivation path { a with requests := rest })
        [.requestResolved path a.name request.senderId request.serial outcome]
  /-- The first message that waits is resolved. -/
  | resolveMessage (x : Aux) (c : Core) (path : Bytes) (a : Activation) (message : ActivationMessage)
      (rest : List ActivationMessage) (attempt : Option (ℕ × PeerResult)) (error : Bool)
      (hfind : c.activations.find? path = some a) (hmessages : a.messages = message :: rest) (hpending : a.pending = 0)
      (hbusy : x.busy = some path) (hresolves : c.Resolves a.name message.message attempt error)
      (hgiveUp : attempt = none → ok c (.giveUp path)) (hleaving : x.leaving = none) :
      Change x c { x with held := fun n => x.held n + message.sendersNames.count n }
        (c.setActivation path { a with messages := rest }) [.messageResolved path a.name message.message attempt error]
  /-- An activation is settled. -/
  | settled (x : Aux) (c : Core) (path : Bytes) (hbusy : x.busy = some path)
      (hdone : ∀ a, c.activations.find? path = some a → a.pending = 0 ∧ a.requests = [] ∧ a.messages = []) :
      Change x c { x with busy := none } c []
  /-- A call is queued, and a reply is expected. -/
  | call (x : Aux) (c : Core) (callee caller : ℕ) (serial : UInt32) (charge : UserCharge)
      (hnone : (c.replies.replyTree callee).find? (caller, serial) = none)
      (hcallee : c.isRegistered callee = true) (hcaller : c.isRegistered caller = true) (hserial : serial ≠ 0)
      (hleaving : x.leaving = none) :
      Change x c x { c with replies := c.replies.file callee caller serial charge } [.called callee caller serial]
  /-- A reply is not expected any more. -/
  | endReply (x : Aux) (c : Core) (callee caller slot : ℕ) (serial : UInt32) (event : Event)
      (hfind : (c.replies.replyTree callee).find? (caller, serial) = some slot)
      (hevent : endsReply x callee caller serial event) (hflushing : x.flushing = false) :
      Change x c x { c with replies := c.replies.drop callee caller serial slot } [event]
  /-- A reply slot is created that is filed nowhere. -/
  | slots (x : Aux) (c : Core) (slots : Heap (ReplySlot ℕ)) (hbooks : ReplyBooks { c.replies with slots := slots }) :
      Change x c x { c with replies := { c.replies with slots := slots } } []
  /-- The broker ends. -/
  | silence (x : Aux) (c : Core) : Change x c { x with silent := true } c []

/-- A step is taken and then something is sent, unless rules are being dropped or added. -/
def Move (s s' : Aux × Bus) : Prop :=
  ∃ said events, Change ok s.1 s.2.core s'.1 s'.2.core said ∧ Says s'.2 events said ∧
    s'.2.trace = s.2.trace ++ events ∧ (s'.1.flushing = true ∨ s'.1.arming ≠ none → events = said)

/-- Some moves. -/
def Moves : Aux × Bus → Aux × Bus → Prop := Relation.ReflTransGen (Move ok)

end Change

section Moves

variable {ok : Core → Leave → Prop}

/-- A change that says what it does at once, or nothing. -/
theorem Change.move {x x' : Aux} {b b' : Bus} {said : List Event} (h : Change ok x b.core x' b'.core said)
    (hsaid : ∀ e ∈ said, e.isEmission = false) (htrace : b'.trace = b.trace ++ said) : Move ok (x, b) (x', b') := by
  refine ⟨said, said, h, ⟨?_, ?_⟩, htrace, fun _ => rfl⟩
  · rw [List.filter_eq_self]
    intro e he
    rw [hsaid e he, Bool.not_false]
  · intro e he
    have hemission := hsaid e he
    cases e <;> trivial

/-- A change that says nothing. -/
theorem Change.move_nil {x x' : Aux} {b b' : Bus} (h : Change ok x b.core x' b'.core []) (htrace : b'.trace = b.trace) :
    Move ok (x, b) (x', b') :=
  h.move (fun _ he => absurd he List.not_mem_nil) (htrace.trans (List.append_nil _).symm)

/-- A change that says one thing. -/
theorem Change.move_one {x x' : Aux} {b b' : Bus} {e : Event} (h : Change ok x b.core x' b'.core [e])
    (he : e.isEmission = false) (htrace : b'.trace = b.trace ++ [e]) : Move ok (x, b) (x', b') := by
  refine h.move (fun e' he' => ?_) htrace
  rw [List.mem_singleton.mp he']
  exact he

/-- Sending does not touch the core. -/
theorem Bus.Sent.core_eq {b b' : Bus} {said : List Event} (h : Bus.Sent b said b') : b'.core = b.core := by
  obtain ⟨users, connections, events, -, hhup, rfl⟩ := h
  simp only [Bus.core, Core.mk.injEq, true_and, and_true]
  funext id
  exact hhup id

/-- A change after which something is sent. -/
theorem Change.move_sent {x x' : Aux} {b b₁ b' : Bus} {said : List Event} (h : Change ok x b.core x' b₁.core said)
    (htrace : b₁.trace = b.trace) (hsent : Bus.Sent b₁ said b') (hflushing : x'.flushing = false)
    (harming : x'.arming = none) : Move ok (x, b) (x', b') := by
  have hcore := hsent.core_eq
  obtain ⟨users, connections, events, hspeak, hhup, rfl⟩ := hsent
  refine ⟨said, events, ?_, ⟨hspeak.said, hspeak.emissions⟩, ?_, ?_⟩
  · rw [hcore]
    exact h
  · show b₁.trace ++ events = b.trace ++ events
    rw [htrace]
  · intro hmute
    obtain hmute | hmute := hmute
    · rw [hflushing] at hmute
      cases hmute
    · exact absurd harming hmute

/-- Something is sent. -/
theorem moves_sent {x : Aux} {b b' : Bus} (hsent : Bus.Sent b [] b') (hflushing : x.flushing = false)
    (harming : x.arming = none) : Moves ok (x, b) (x, b') :=
  .single ((Change.idle x b.core).move_sent rfl hsent hflushing harming)

/-- The core and the trace are all that matters. -/
theorem Moves.congr {s : Aux × Bus} {x : Aux} {b b' : Bus} (h : Moves ok s (x, b)) (hcore : b'.core = b.core)
    (htrace : b'.trace = b.trace) : Moves ok s (x, b') := by
  have hidle : Change ok x b.core x b'.core [] := by
    rw [hcore]
    exact .idle x b.core
  exact h.tail (hidle.move_nil htrace)

end Moves

end DbusBroker
