import DbusBroker.Broker.ActivationLog
import DbusBroker.Dbus.UniqueId

/-!
# Questions about names

The methods of the driver that tell who owns a name, with what they answer. They read the registries of the names and
of the peers. What the driver told before tells the same: the last `NameOwnerChanged` signal of a well-known name
names its owner, and a unique name has one from the hello of its peer to the goodbye. The four methods never
contradict each other.
-/

namespace DbusBroker

open Std Machine Record

/-! ## Methods -/

/-- `driver_method_get_name_owner`. -/
def driverMethodGetNameOwner (b : Bus) (name : Bytes) : Except DriverError Bytes :=
  if name = driverName then .ok driverName
  else match (busFindPeerByName b name).1 with
    | some owner => .ok (addressIdToString owner)
    | none => .error .nameOwnerNotFound

/-- `driver_method_name_has_owner`. -/
def driverMethodNameHasOwner (b : Bus) (name : Bytes) : Bool :=
  name = driverName || (busFindPeerByName b name).1.isSome

/-- `driver_method_list_queued_owners`. -/
def driverMethodListQueuedOwners (b : Bus) (name : Bytes) : Except DriverError (List Bytes) :=
  if name = driverName then .ok [driverName]
  else match busFindPeerByName b name with
    | (none, _) => .error .nameNotFound
    | (some owner, none) => .ok [addressIdToString owner]
    | (some _, some found) => .ok ((found.ownershipList.filterMap b.names.ownerOf).map addressIdToString)

/-- The unique names of the peers that are registered. -/
def Bus.uniqueNames (b : Bus) : List Bytes := (b.peers.entries.filter fun e => e.2.registered).map fun e => addressIdToString e.1

/-- The names that have an owner. -/
def Bus.ownedNames (b : Bus) : List Bytes :=
  (b.names.nameTree.entries.filter fun e => (namePrimary b.names e.1).isSome).map Prod.fst

/-- `driver_method_list_names`. -/
def driverMethodListNames (b : Bus) : List Bytes := driverName :: b.uniqueNames ++ b.ownedNames

/-- `driver_method_list_activatable_names`. -/
def driverMethodListActivatableNames (b : Bus) : List Bytes :=
  driverName :: (b.names.nameTree.entries.filter fun e => e.2.activation.isSome).map Prod.fst

/-! ## Answers -/

/-- The answers about a well-known name with an owner, or with none. -/
structure NameAnswered (b : Bus) (n : Bytes) (owner : Option ℕ) : Prop where
  getOwner : driverMethodGetNameOwner b n = owner.elim (.error .nameOwnerNotFound) fun id => .ok (addressIdToString id)
  hasOwner : driverMethodNameHasOwner b n = owner.isSome
  listed : n ∈ driverMethodListNames b ↔ owner.isSome = true
  unqueued : owner = none → driverMethodListQueuedOwners b n = .error .nameNotFound
  queued : ∀ id, owner = some id → ∃ rest, driverMethodListQueuedOwners b n = .ok ((id :: rest).map addressIdToString) ∧
    (id :: rest).Nodup ∧ ∀ a ∈ id :: rest, b.isRegistered a = true

/-- The answers about the unique name of a peer that is registered, or is not. -/
structure PeerAnswered (b : Bus) (id : ℕ) (registered : Bool) : Prop where
  getOwner : driverMethodGetNameOwner b (addressIdToString id) =
    if registered then .ok (addressIdToString id) else .error .nameOwnerNotFound
  hasOwner : driverMethodNameHasOwner b (addressIdToString id) = registered
  listed : addressIdToString id ∈ b.uniqueNames ↔ registered = true
  queued : driverMethodListQueuedOwners b (addressIdToString id) =
    if registered then .ok [addressIdToString id] else .error .nameNotFound

section Registry

variable {w : NameRegistry ℕ} {held : Bytes → ℕ} {n : Bytes}

/-- The queue of a name as the driver lists it. -/
theorem NameBooks.filterMap_ownerOf (w : NameRegistry ℕ) (n : Bytes) :
    (w.ownershipList n).filterMap w.ownerOf = (nameQueue w n).owners := by
  rw [OwnerQueue.owners, nameQueue, List.map_filterMap]
  congr 1
  funext id
  rw [NameRegistry.entry, entryIn, NameRegistry.ownerOf, Option.map_map]
  rfl

/-- Nobody is in a queue twice. -/
theorem NameBooks.nodup_owners (h : NameBooks w held) (n : Bytes) : (nameQueue w n).owners.Nodup := by
  have hat := h.names n
  rw [← NameBooks.filterMap_ownerOf, List.Nodup, List.pairwise_filterMap]
  refine hat.nodup.imp_of_mem fun hid hid' hne a ha a' ha' => ?_
  obtain ⟨o, ho, hname, -⟩ := hat.entry_of_mem hid
  obtain ⟨o', ho', hname', -⟩ := hat.entry_of_mem hid'
  rw [NameRegistry.ownerOf, ho] at ha
  rw [NameRegistry.ownerOf, ho'] at ha'
  intro heq
  have hfirst := (hat.owned o.owner _).mpr ⟨o, ho, rfl, hname⟩
  have hsame : o'.owner = o.owner := (Option.some.inj ha').trans (heq.symm.trans (Option.some.inj ha).symm)
  have hsecond := (hat.owned o.owner _).mpr ⟨o', ho', hsame, hname'⟩
  exact hne (Option.some.inj (hfirst.symm.trans hsecond))

/-- The owner of a name is the first in its queue. -/
theorem owners_eq_cons {q : OwnerQueue ℕ} {id : ℕ} (h : q.primary = some id) : ∃ rest, q.owners = id :: rest := by
  cases q with
  | nil => cases h
  | cons e rest => exact ⟨rest.map Prod.fst, by rw [OwnerQueue.owners, List.map_cons, Option.some.inj h]⟩

/-- A name has a primary ownership exactly if it has an owner. -/
theorem NameBooks.isSome_namePrimary (h : NameBooks w held) (n : Bytes) :
    (namePrimary w n).isSome = (nameOwnerOf w n).isSome := by
  rw [nameOwnerOf, namePrimary]
  cases hlist : w.ownershipList n with
  | nil => rfl
  | cons id rest =>
    obtain ⟨o, ho, -⟩ := (h.names n).entry_of_mem (hlist ▸ List.mem_cons_self : id ∈ w.ownershipList n)
    rw [List.head?_cons, Option.bind_some, NameRegistry.ownerOf, ho]
    rfl

/-- The names with an owner are listed. -/
theorem NameBooks.mem_ownedNames {b : Bus} (h : NameBooks b.names held) (n : Bytes) :
    n ∈ b.ownedNames ↔ (nameOwnerOf b.names n).isSome = true := by
  rw [Bus.ownedNames, List.mem_map, ← h.isSome_namePrimary]
  constructor
  · rintro ⟨e, he, rfl⟩
    exact (List.mem_filter.mp he).2
  · intro hsome
    cases hfind : b.names.nameTree.find? n with
    | none =>
      rw [namePrimary, NameRegistry.ownershipList, hfind] at hsome
      cases hsome
    | some x => exact ⟨(n, x), List.mem_filter.mpr ⟨(b.names.nameTree.find?_eq_some_iff n x).mp hfind, hsome⟩, rfl⟩

end Registry

/-- A name that does not start with a colon is no unique name. -/
theorem addressFromString_of_head? {n : Bytes} (hn : n ≠ []) (h : n.head? ≠ some (byte ':')) :
    addressFromString n = .name n := by
  cases n with
  | nil => exact absurd rfl hn
  | cons c rest =>
    have hc : c ≠ byte ':' := fun hc => h (congrArg some hc)
    rw [addressFromString]
    dsimp only
    rw [if_neg hc]

theorem addressIdToString_ne_driverName (id : ℕ) : addressIdToString id ≠ driverName := by
  intro heq
  have hhead := congrArg List.head? heq
  rw [head?_addressIdToString] at hhead
  exact absurd (Option.some.inj hhead) (by decide)

/-- Every id has its own unique name. -/
theorem addressIdToString_injective {id id' : ℕ} (h : addressIdToString id = addressIdToString id') : id = id' := by
  rw [addressIdToString, addressIdToString] at h
  rw [← decimal_lit_toString id, List.append_cancel_left h, decimal_lit_toString]

/-- The names with an activation are listed. -/
theorem ActivationsOk.mem_driverMethodListActivatableNames {b : Bus} {busy : Option Bytes}
    (h : ActivationsOk busy b.names b.activations) (n : Bytes) : n ∈ driverMethodListActivatableNames b ↔
      n = driverName ∨ ∃ path a, b.activations.find? path = some a ∧ a.name = n := by
  rw [driverMethodListActivatableNames, List.mem_cons, List.mem_map]
  refine or_congr_right ⟨?_, ?_⟩
  · rintro ⟨e, he, rfl⟩
    obtain ⟨he, hsome⟩ := List.mem_filter.mp he
    obtain ⟨path, hpath⟩ := Option.isSome_iff_exists.mp hsome
    have hactivation : nameActivation b.names e.1 = some path := by
      rw [nameActivation, (b.names.nameTree.find?_eq_some_iff e.1 e.2).mpr he]
      exact hpath
    obtain ⟨a, ha, hname⟩ := h.forth e.1 path hactivation
    exact ⟨path, a, ha, hname⟩
  · rintro ⟨path, a, ha, rfl⟩
    have hactivation := h.back path a ha
    rw [nameActivation, Option.bind_eq_some_iff] at hactivation
    obtain ⟨x, hx, hpath⟩ := hactivation
    exact ⟨(a.name, x), List.mem_filter.mpr ⟨(b.names.nameTree.find?_eq_some_iff a.name x).mp hx, by rw [hpath]; rfl⟩, rfl⟩

/-- The peers that are registered are listed. -/
theorem mem_uniqueNames {b : Bus} {n : Bytes} :
    n ∈ b.uniqueNames ↔ ∃ id, b.isRegistered id = true ∧ n = addressIdToString id := by
  rw [Bus.uniqueNames, List.mem_map]
  constructor
  · rintro ⟨e, he, rfl⟩
    obtain ⟨he, hregistered⟩ := List.mem_filter.mp he
    refine ⟨e.1, ?_, rfl⟩
    rw [Bus.isRegistered, (b.peers.find?_eq_some_iff e.1 e.2).mpr he]
    exact hregistered
  · rintro ⟨id, hregistered, rfl⟩
    rw [Bus.isRegistered, Option.any_eq_true] at hregistered
    obtain ⟨p, hp, hregistered⟩ := hregistered
    exact ⟨(id, p), List.mem_filter.mpr ⟨(b.peers.find?_eq_some_iff id p).mp hp, hregistered⟩, rfl⟩

/-- The answers about a name are about its owner. -/
theorem NameBooks.nameAnswered {b : Bus} {held : Bytes → ℕ} (h : NameBooks b.names held)
    (howners : ∀ n, ∀ a ∈ (nameQueue b.names n).owners, b.isRegistered a = true) {n : Bytes} (hn : n ≠ [])
    (hcolon : n.head? ≠ some (byte ':')) (hdriver : n ≠ driverName) : NameAnswered b n (nameOwnerOf b.names n) := by
  have hfind : busFindPeerByName b n = (nameOwnerOf b.names n, b.names.nameTree.find? n) := by
    rw [busFindPeerByName, addressFromString_of_head? hn hcolon]
  have hunique : n ∉ b.uniqueNames := by
    intro hmem
    obtain ⟨id, -, rfl⟩ := mem_uniqueNames.mp hmem
    exact hcolon (head?_addressIdToString id)
  refine ⟨?_, ?_, ?_, fun howner => ?_, fun id howner => ?_⟩
  · rw [driverMethodGetNameOwner, if_neg hdriver, hfind]
    cases nameOwnerOf b.names n <;> rfl
  · rw [driverMethodNameHasOwner, hfind, decide_eq_false hdriver, Bool.false_or]
  · rw [driverMethodListNames, List.cons_append, List.mem_cons, List.mem_append, h.mem_ownedNames]
    constructor
    · rintro (heq | hmem | hsome)
      · exact absurd heq hdriver
      · exact absurd hmem hunique
      · exact hsome
    · exact fun hsome => .inr (.inr hsome)
  · rw [driverMethodListQueuedOwners, if_neg hdriver, hfind, howner]
  · have hprimary : (nameQueue b.names n).primary = some id := by rw [← h.nameOwnerOf_eq, howner]
    obtain ⟨rest, hrest⟩ := owners_eq_cons hprimary
    have hnodup := h.nodup_owners n
    rw [hrest] at hnodup
    refine ⟨rest, ?_, hnodup, fun a ha => howners n a (by rwa [hrest])⟩
    cases hname : b.names.nameTree.find? n with
    | none =>
      rw [nameOwnerOf, namePrimary, NameRegistry.ownershipList, hname] at howner
      cases howner
    | some found =>
      have hlist : b.names.ownershipList n = found.ownershipList := by rw [NameRegistry.ownershipList, hname]
      rw [driverMethodListQueuedOwners, if_neg hdriver, hfind, howner, hname]
      dsimp only
      rw [← hlist, NameBooks.filterMap_ownerOf, hrest]

/-- The answers about a unique name are about its peer. -/
theorem peerAnswered (b : Bus) {id : ℕ} (hrange : id < 2 ^ 64 - 1) : PeerAnswered b id (b.isRegistered id) := by
  have haddress (a : ℕ) (ha : a < 2 ^ 64 - 1) : addressFromString (addressIdToString a) = .id a :=
    addressFromString_addressIdToString (by omega) (by omega)
  have hdriver := addressIdToString_ne_driverName id
  have hfind : busFindPeerByName b (addressIdToString id) = (peerRegistryFindPeer b id, none) := by
    rw [busFindPeerByName, haddress id hrange]
  refine ⟨?_, ?_, ?_, ?_⟩
  · rw [driverMethodGetNameOwner, if_neg hdriver, hfind, peerRegistryFindPeer]
    cases b.isRegistered id <;> rfl
  · rw [driverMethodNameHasOwner, hfind, decide_eq_false hdriver, Bool.false_or, peerRegistryFindPeer]
    cases b.isRegistered id <;> rfl
  · rw [mem_uniqueNames]
    constructor
    · rintro ⟨a, ha, heq⟩
      rwa [addressIdToString_injective heq]
    · exact fun hregistered => ⟨id, hregistered, rfl⟩
  · rw [driverMethodListQueuedOwners, if_neg hdriver, hfind, peerRegistryFindPeer]
    cases b.isRegistered id <;> rfl

/-- The answers of the driver are those of the record, after every run. About the unique name of a peer it answers that
there is an owner from the hello of the peer to its goodbye. While the broker runs, it answers about a well-known name
that its owner is the one in the last signal about it, and the queue that it lists begins with this owner. -/
theorem Broker.run_queries (sizes : Sizes) (users : UserRegistry) (user : Uid) (controller : Connection)
    (ops : List BrokerOp) :
    let s := run (Broker.step sizes) (.init users user controller) ops
    (∀ id, id < 2 ^ 64 - 1 → PeerAnswered s.bus id (registeredIn s.bus.record id)) ∧
      (∀ n, n ∈ driverMethodListActivatableNames s.bus ↔
        n = driverName ∨ ∃ path a, s.bus.activations.find? path = some a ∧ a.name = n) ∧
      (s.running = true → ∀ n, n ≠ [] → n.head? ≠ some (byte ':') → n ≠ driverName →
        NameAnswered s.bus n (ownerIn n s.bus.record)) := by
  intro s
  have hinit : Good (.rest (fun _ => 0) (!(Broker.init users user controller).running))
      (Broker.init users user controller).bus.core := good_init users user controller
  obtain ⟨held, hmoves⟩ := moves_anyRun sizes hinit ops
  have hgood : Good (.rest held (!s.running)) s.bus.core := hinit.moves hmoves
  have hbooks : NameBooks s.bus.names (s.bus.core.pins held) := hgood.names
  have hroll : Roll (.rest held (!s.running)) s.bus.core s.bus.record :=
    hmoves.ledger (L := Roll) (fun _ _ _ _ _ _ hgood hchange hroll => hroll.change hgood hchange) hinit
      ⟨fun _ _ => rfl, fun _ ha => by cases ha⟩
  refine ⟨fun id hrange => ?_, fun n => ?_, fun hrunning n hn hcolon hdriver => ?_⟩
  · rw [← hroll.isRegistered rfl id]
    exact peerAnswered s.bus hrange
  · exact hgood.activations.mem_driverMethodListActivatableNames n
  · have hlogged : NameLogged n s.bus.record (nameQueue s.bus.names n).primary :=
      NameLogged.moves hcolon hmoves hinit ⟨rfl, rfl⟩ (by rw [Aux.rest, show _ = true from hrunning]; rfl)
    rw [hlogged.ownerIn_eq, ← hbooks.nameOwnerOf_eq]
    exact hbooks.nameAnswered hgood.owners hn hcolon hdriver

end DbusBroker
