import DbusBroker.Bus.MovesReplies
import DbusBroker.Bus.MovesRules

/-!
# The moves of a peer that leaves

`driver_goodbye` as moves of the bus: the rules of the peer are dropped, then the replies it
waits for, the rules of others on it, its names and its registration, and at last the replies
it owes. After that nothing refers to the peer any more, and it can be freed.
-/

namespace DbusBroker

open Std

variable {ok : Core → Leave → Prop} {x : Aux} {b : Bus} {id : ℕ}

/-- Where a peer leaves that has no rules any more. -/
def Aux.going (x : Aux) (id : ℕ) : Aux := { x with leaving := some id, parting := true, flushing := false }

section Stages

variable (sizes : Sizes) (policy : Policy)

/-- The registry of a peer that leaves is flushed. -/
theorem moves_matchRegistryFlush (h : Good x b.core) {registry : RegistryRef}
    (hregistry : registry = .peerSender id ∨ registry = .peerNameOwnerChanged id) (hleaving : x.leaving = some id)
    (hflushing : x.flushing = false) :
    Moves ok (x, b) (x, { b with matchIndex := matchRegistryFlush Prod.fst b.matchIndex registry }) ∧
      ∀ rule l, (matchRegistryFlush Prod.fst b.matchIndex registry).link rule = some l →
        b.matchIndex.link rule = some l ∧ l.registry ≠ registry := by
  have hindexed : MatchIndexed Prod.snd b.matchIndex := h.links.indexed
  constructor
  · have hchange : Change ok x b.core x
        { b.core with matchIndex := matchRegistryFlush Prod.fst b.matchIndex registry } [] :=
      .flush x b.core id registry hregistry hleaving hflushing
    exact .single (hchange.move_nil rfl)
  · intro rule l hl
    rw [matchRegistryFlush_link hindexed, Option.filter_eq_some_iff, decide_eq_true_eq] at hl
    exact hl

/-- The first half of `driver_goodbye`. -/
def goodbyeFirst (silent : Bool) (b : Bus) (id : ℕ) : Bus :=
  let b := peerFlushMatches (b.log [.goodbye id]) id
  let b := (b.replies.replyList id).foldl driverCancelReply b
  let b := { b with matchIndex := matchRegistryFlush Prod.fst b.matchIndex (.peerSender id) }
  (b.names.owners id).ownershipTree.values.foldl (driverReleaseOwnership sizes policy silent) b

/-- What the first half leaves behind. -/
structure GoodbyeFirst (c c' : Core) (id : ℕ) : Prop where
  frame : ∃ names matchIndex ownedMatches replies, c' = { c with
    names := names, matchIndex := matchIndex, ownedMatches := ownedMatches, replies := replies }
  rules : c'.ownedMatches id = .empty
  calls : c'.replies.replyList id = []
  links : ∀ rule l, c'.matchIndex.link rule = some l → l.registry ≠ .peerSender id
  names : ∀ n, id ∉ (nameQueue c'.names n).owners

/-- What `driver_goodbye` does before the names of the peer are released. -/
def goodbyeCalls (b : Bus) (id : ℕ) : Bus :=
  let b := peerFlushMatches (b.log [.goodbye id]) id
  let b := (b.replies.replyList id).foldl driverCancelReply b
  { b with matchIndex := matchRegistryFlush Prod.fst b.matchIndex (.peerSender id) }

/-- The rules of a peer that leaves are dropped, and what it waits for. -/
theorem moves_goodbyeCalls (h : Good x b.core) (hleaving : x.leaving = none ∨ x.leaving = some id)
    (hflushing : x.flushing = false) (harming : x.arming = none) :
    Moves ok (x, b) (x.going id, goodbyeCalls b id) ∧
      (∃ names matchIndex ownedMatches replies, (goodbyeCalls b id).core = { b.core with
        names := names, matchIndex := matchIndex, ownedMatches := ownedMatches, replies := replies }) ∧
      (goodbyeCalls b id).core.ownedMatches id = .empty ∧ (goodbyeCalls b id).core.replies.replyList id = [] ∧
      ∀ rule l, (goodbyeCalls b id).core.matchIndex.link rule = some l → l.registry ≠ .peerSender id := by
  have hgoodbye : Moves ok (x, b) ({ x with leaving := some id, parting := true, flushing := true }, b.log [.goodbye id]) := by
    have hchange : Change ok x b.core { x with leaving := some id, parting := true, flushing := true }
        (b.log [.goodbye id]).core [.goodbye id] :=
      .goodbye x b.core id hleaving hflushing harming
    exact .single (hchange.move_one rfl rfl)
  obtain ⟨hflush, ⟨w₁, owned₁, index₁, hcore₁⟩, hempty⟩ : Moves ok _ _ ∧ _ :=
    moves_peerFlushMatches (h.moves hgoodbye) rfl rfl
  obtain ⟨b₁, hb₁⟩ : ∃ b₁, b₁ = peerFlushMatches (b.log [.goodbye id]) id := ⟨_, rfl⟩
  rw [← hb₁] at hflush hcore₁ hempty
  have hflushed : Moves ok (x, b) (x.going id, b₁) := by
    have hchange : Change ok { x with leaving := some id, parting := true, flushing := true } b₁.core (x.going id) b₁.core [] :=
      .flushed _ b₁.core id rfl hempty
    exact (hgoodbye.trans hflush).tail
      (hchange.move_nil rfl)
  obtain ⟨hcancel, replies₂, hcore₂, hcalls⟩ : Moves ok _ _ ∧ _ :=
    moves_cancelReplies (h.moves hflushed) rfl rfl rfl harming rfl rfl
  obtain ⟨b₂, hb₂⟩ : ∃ b₂, b₂ = (b₁.replies.replyList id).foldl driverCancelReply b₁ := ⟨_, rfl⟩
  rw [← hb₂] at hcancel hcore₂
  have hsofar₂ := hflushed.trans hcancel
  obtain ⟨hsender, hlinks⟩ : Moves ok _ _ ∧ _ := moves_matchRegistryFlush (h.moves hsofar₂) (.inl rfl) rfl rfl
  obtain ⟨b₃, hb₃⟩ : ∃ b₃, b₃ = goodbyeCalls b id := ⟨_, rfl⟩
  have hstages : b₃ = { b₂ with matchIndex := matchRegistryFlush Prod.fst b₂.matchIndex (.peerSender id) } := by
    rw [hb₃, hb₂, hb₁]
    rfl
  have hcore : b₃.core = { b.core with
      names := w₁, matchIndex := matchRegistryFlush Prod.fst b₂.matchIndex (.peerSender id)
      ownedMatches := owned₁, replies := replies₂ } := by
    rw [hstages]
    show { b₂.core with matchIndex := matchRegistryFlush Prod.fst b₂.matchIndex (.peerSender id) } = _
    rw [hcore₂, hcore₁]
    rfl
  rw [← hb₃]
  refine ⟨?_, ⟨_, _, _, _, hcore⟩, ?_, ?_, ?_⟩
  · rw [hstages]
    exact hsofar₂.trans hsender
  · rw [hcore]
    rw [show b₁.ownedMatches = owned₁ from congrArg Core.ownedMatches hcore₁] at hempty
    exact hempty
  · rw [hcore]
    exact hcalls
  · rw [hcore]
    exact fun rule l hl => (hlinks rule l hl).2

/-- The rules of a peer that leaves are dropped, and what it waits for and owns. -/
theorem moves_goodbyeFirst (h : Good x b.core) {silent : Bool} (hleaving : x.leaving = none ∨ x.leaving = some id)
    (hflushing : x.flushing = false) (harming : x.arming = none) (hsilent : x.silent = silent) :
    Moves ok (x, b) (x.going id, goodbyeFirst sizes policy silent b id) ∧
      GoodbyeFirst b.core (goodbyeFirst sizes policy silent b id).core id := by
  obtain ⟨hmoves, ⟨w₃, index₃, owned₃, replies₃, hcore₃⟩, hrules, hcalls, hlinks⟩ : Moves ok _ _ ∧ _ :=
    moves_goodbyeCalls h hleaving hflushing harming
  obtain ⟨b₃, hb₃⟩ : ∃ b₃, b₃ = goodbyeCalls b id := ⟨_, rfl⟩
  rw [← hb₃] at hmoves hcore₃ hrules hcalls hlinks
  have hstages : goodbyeFirst sizes policy silent b id =
      (b₃.names.owners id).ownershipTree.values.foldl (driverReleaseOwnership sizes policy silent) b₃ := by
    rw [hb₃]
    rfl
  obtain ⟨hrelease, w₄, hcore₄, hnames⟩ : Moves ok _ _ ∧ _ :=
    moves_releaseNames sizes policy (h.moves hmoves) (fun hyes => hsilent.trans hyes) rfl harming hstages.symm
  refine ⟨hmoves.trans hrelease, ⟨⟨w₄, index₃, owned₃, replies₃, ?_⟩, ?_, ?_, ?_, ?_⟩⟩
  · rw [hcore₄, hcore₃]
  · rw [hcore₄]
    exact hrules
  · rw [hcore₄]
    exact hcalls
  · rw [hcore₄]
    exact hlinks
  · rw [hcore₄]
    exact hnames

/-- The middle of `driver_goodbye`. -/
def goodbyeParting (silent : Bool) (b : Bus) (id : ℕ) : Bus :=
  if b.isRegistered id then
    let b := if silent then b
      else driverNameOwnerChanged sizes policy b (.peerNameOwnerChanged id) (addressIdToString id) (some id) none
    peerUnregister b id
  else if b.isMonitor id then peerStopMonitor b id
  else b

/-- A peer that is neither registered nor a monitor. -/
def Peer.parted (peer : Peer) : Peer := { peer with registered := false, monitor := false }

/-- What the middle leaves behind. -/
def Parted (c c' : Core) (id : ℕ) : Prop :=
  ∃ peers nMonitors, c' = { c with peers := peers, nMonitors := nMonitors } ∧
    ∀ a, peers.find? a = if a = id then (c.peers.find? id).map Peer.parted else c.peers.find? a

/-- An assertion that holds. -/
theorem Bus.check_true (b : Bus) : b.check true = b := by
  show { b with assertFailed := b.assertFailed || false } = b
  rw [Bool.or_false]

/-- A peer is written back as one that parted. -/
theorem find?_insert_parted {c : Core} {peer : Peer} (hpeer : c.peers.find? id = some peer) (a : ℕ) :
    (c.peers.insert id peer.parted).find? a =
      if a = id then (c.peers.find? id).map Peer.parted else c.peers.find? a := by
  rw [SearchTree.find?_insert, hpeer]
  rfl

/-- A peer that leaves is not registered any more, and no monitor. -/
theorem moves_goodbyeParting (h : Good x b.core) {silent : Bool} (hleaving : x.leaving = some id)
    (hparting : x.parting = true) (hflushing : x.flushing = false) (harming : x.arming = none) {c : Core} (hfirst : GoodbyeFirst c b.core id) :
    Moves ok (x, b) (x, goodbyeParting sizes policy silent b id) ∧
      Parted b.core (goodbyeParting sizes policy silent b id).core id := by
  rw [goodbyeParting]
  cases hregistered : b.isRegistered id with
  | true =>
    rw [if_pos rfl]
    obtain ⟨peer, hpeer, hreg⟩ := Core.exists_of_isRegistered (show b.core.isRegistered id = true from hregistered)
    have hmon := h.peers.exclusive id peer hpeer hreg
    obtain ⟨b₁, hb₁, hmoves, hcore₁⟩ : ∃ b₁, (if silent = true then b
        else driverNameOwnerChanged sizes policy b (.peerNameOwnerChanged id) (addressIdToString id) (some id) none) = b₁ ∧
        Moves ok (x, b) (x, b₁) ∧ b₁.core = b.core := by
      refine ⟨_, rfl, ?_⟩
      split
      · exact ⟨.refl, rfl⟩
      · have hsent := sent_driverNameOwnerChanged sizes b policy (.peerNameOwnerChanged id) (addressIdToString id) (some id)
          none
        have hchange : Change ok x b.core x b.core (announce (addressIdToString id) (some id) none) :=
          .announceUnique x b.core id (some id) none hflushing
        exact ⟨.single (hchange.move_sent rfl hsent hflushing harming), hsent.core_eq⟩
    dsimp only
    rw [hb₁]
    have hpeer₁ : b₁.peers.find? id = some peer := by
      rw [show b₁.peers = b.peers from congrArg Core.peers hcore₁]
      exact hpeer
    have hparted : { peer with registered := false } = peer.parted := by
      rw [Peer.parted, ← hmon]
    have hresult : (peerUnregister b₁ id).core = b.core.setPeer id { peer with registered := false } := by
      have hcheck : b₁.check (peer.registered && !peer.monitor) = b₁ := by
        rw [hreg, hmon]
        exact b₁.check_true
      rw [peerUnregister, hpeer₁]
      dsimp only
      rw [hcheck]
      show b₁.core.setPeer id { peer with registered := false } = _
      rw [hcore₁]
    have htrace : (peerUnregister b₁ id).trace = b₁.trace := by
      rw [peerUnregister, hpeer₁]
      rfl
    have hchange : Change ok x b₁.core x (peerUnregister b₁ id).core [] := by
      rw [hresult, hcore₁]
      exact .unregister x b.core id peer hpeer hreg hleaving hparting hflushing hfirst.rules hfirst.names hfirst.calls hfirst.links
    refine ⟨hmoves.tail (hchange.move_nil htrace), _, b.nMonitors, hresult, fun a => ?_⟩
    rw [hparted]
    exact find?_insert_parted hpeer a
  | false =>
    rw [if_neg Bool.false_ne_true]
    have hnotRegistered : b.core.isRegistered id = false := hregistered
    cases hmonitor : b.isMonitor id with
    | true =>
      rw [if_pos rfl]
      obtain ⟨peer, hpeer, hmon⟩ := Core.exists_of_isMonitor (show b.core.isMonitor id = true from hmonitor)
      have hreg : peer.registered = false := (Core.isRegistered_of_find? hpeer).symm.trans hnotRegistered
      have hpeer' : b.peers.find? id = some peer := hpeer
      have hrules : b.ownedMatches id = .empty := hfirst.rules
      have hparted : { peer with monitor := false } = peer.parted := by
        rw [Peer.parted, ← hreg]
      have hresult : (peerStopMonitor b id).core =
          { b.core.setPeer id { peer with monitor := false } with nMonitors := b.nMonitors - 1 } := by
        have hcheck : b.check (!peer.registered && peer.monitor && (b.ownedMatches id).entries.isEmpty) = b := by
          rw [hreg, hmon, hrules]
          exact b.check_true
        rw [peerStopMonitor, hpeer']
        dsimp only
        rw [hcheck]
        rfl
      have htrace : (peerStopMonitor b id).trace = b.trace := by
        rw [peerStopMonitor, hpeer']
        rfl
      have hchange : Change ok x b.core x (peerStopMonitor b id).core [] := by
        rw [hresult]
        exact .stopMonitor x b.core id peer hpeer hmon hleaving hflushing hrules
      refine ⟨.single (hchange.move_nil htrace), _, _, hresult, fun a => ?_⟩
      rw [hparted]
      exact find?_insert_parted hpeer a
    | false =>
      rw [if_neg Bool.false_ne_true]
      refine ⟨.refl, b.peers, b.nMonitors, rfl, fun a => ?_⟩
      show b.peers.find? a = if a = id then (b.peers.find? id).map Peer.parted else b.peers.find? a
      split
      · next ha =>
        rw [ha]
        cases hpeer : b.peers.find? id with
        | none => rfl
        | some peer =>
          have hreg : peer.registered = false := (Core.isRegistered_of_find? hpeer).symm.trans hnotRegistered
          have hmon : peer.monitor = false :=
            (Core.isMonitor_of_find? hpeer).symm.trans (show b.core.isMonitor id = false from hmonitor)
          obtain ⟨user, registered, monitor, charges⟩ := peer
          subst hreg
          subst hmon
          rfl
      · rfl

end Stages

section Goodbye

variable (sizes : Sizes) (policy : Policy)

/-- What is left of a peer that said goodbye. -/
structure Core.Left (c c' : Core) (id : ℕ) : Prop where
  clear : c'.Clear id
  peers : ∀ a, c'.peers.find? a = if a = id then (c.peers.find? id).map Peer.parted else c.peers.find? a
  ids : c'.ids = c.ids
  hup : c'.hup = c.hup

/-- The halves of `driver_goodbye`. -/
theorem driverGoodbye_halves {silent : Bool} {b₁ b₂ : Bus} (hb₁ : b₁ = goodbyeFirst sizes policy silent b id)
    (hb₂ : b₂ = goodbyeParting sizes policy silent b₁ id) :
    driverGoodbye sizes policy b id silent = (b₂.replies.replyTree id).values.foldl (driverExpireReply sizes silent)
      { b₂ with matchIndex := matchRegistryFlush Prod.fst b₂.matchIndex (.peerNameOwnerChanged id) } := by
  rw [hb₂, hb₁]
  rfl

/-- `driver_goodbye`. -/
theorem moves_driverGoodbye (h : Good x b.core) {silent : Bool} (hleaving : x.leaving = none ∨ x.leaving = some id)
    (hflushing : x.flushing = false) (harming : x.arming = none) (hsilent : x.silent = silent) :
    Moves ok (x, b) ({ x with leaving := none }, driverGoodbye sizes policy b id silent) ∧
      b.core.Left (driverGoodbye sizes policy b id silent).core id := by
  obtain ⟨b₁, hb₁⟩ : ∃ b₁, b₁ = goodbyeFirst sizes policy silent b id := ⟨_, rfl⟩
  obtain ⟨b₂, hb₂⟩ : ∃ b₂, b₂ = goodbyeParting sizes policy silent b₁ id := ⟨_, rfl⟩
  have hgoodbye := driverGoodbye_halves sizes policy hb₁ hb₂
  obtain ⟨hmoves₁, hfirst⟩ : Moves ok (x, b) _ ∧ _ :=
    moves_goodbyeFirst sizes policy h hleaving hflushing harming hsilent
  rw [← hb₁] at hmoves₁ hfirst
  obtain ⟨hmoves₂, peers, nMonitors, hcore₂, hpeers⟩ : Moves ok _ _ ∧ _ :=
    moves_goodbyeParting sizes policy (h.moves hmoves₁) rfl rfl rfl harming hfirst
  rw [← hb₂] at hmoves₂ hcore₂
  have hsofar₂ := hmoves₁.trans hmoves₂
  obtain ⟨hmoves₃, hlinks⟩ : Moves ok _ _ ∧ _ := moves_matchRegistryFlush (h.moves hsofar₂) (.inr rfl) rfl rfl
  have hsofar₃ := hsofar₂.trans hmoves₃
  have hcalls : b₂.replies.replyList id = [] := by
    rw [show b₂.replies = b₁.replies from congrArg Core.replies hcore₂]
    exact hfirst.calls
  obtain ⟨hmoves₄, replies, hcore₄, htree, hlist⟩ : Moves ok _ _ ∧ _ :=
    moves_expireReplies sizes (h.moves hsofar₃) rfl rfl hsilent rfl harming
      (b₂.replies.replyTree id).nodup_keys (fun key slot => (b₂.replies.replyTree id).find?_eq_some_iff key slot) hcalls
      hgoodbye.symm
  obtain ⟨b₄, hb₄⟩ : ∃ b₄, b₄ = driverGoodbye sizes policy b id silent := ⟨_, rfl⟩
  rw [← hb₄] at hmoves₄ hcore₄ ⊢
  have hsofar₄ := hsofar₃.trans hmoves₄
  obtain ⟨names, index, owned, replies₁, hcore₁⟩ := hfirst.frame
  have hcore : b₄.core = { b₁.core with
      replies := replies, peers := peers, nMonitors := nMonitors
      matchIndex := matchRegistryFlush Prod.fst b₂.matchIndex (.peerNameOwnerChanged id) } := by
    rw [hcore₄]
    show { b₂.core with
      matchIndex := matchRegistryFlush Prod.fst b₂.matchIndex (.peerNameOwnerChanged id), replies := replies } = _
    rw [hcore₂]
  have hself : peers.find? id = (b₁.core.peers.find? id).map Peer.parted := by rw [hpeers, if_pos rfl]
  have hbefore : b₁.core.peers = b.core.peers := by rw [hcore₁]
  have hclear : b₄.core.Clear id := by
    refine ⟨?_, ?_, ?_, ?_, ?_, ?_, ?_⟩
    · rw [hcore]
      show (peers.find? id).any (·.registered) = false
      rw [hself]
      cases b₁.core.peers.find? id with
      | none => rfl
      | some peer => rfl
    · rw [hcore]
      show (peers.find? id).any (·.monitor) = false
      rw [hself]
      cases b₁.core.peers.find? id with
      | none => rfl
      | some peer => rfl
    · intro n
      have hgood := h.moves hsofar₄
      have hnames : b₄.core.names = b₁.core.names := by rw [hcore]
      have hbooks : NameBooks b₄.core.names (b₄.core.pins x.held) := hgood.names
      have hout : id ∉ (nameQueue b₄.core.names n).owners := by
        rw [hnames]
        exact hfirst.names n
      cases hown : b₄.core.names.ownershipOf id n with
      | none => rfl
      | some i => exact absurd (((hbooks.names n).mem_owners_iff_ownershipOf id).mpr ⟨i, hown⟩) hout
    · rw [hcore]
      exact hfirst.rules
    · rw [hcore]
      exact hlist
    · rw [hcore]
      exact htree
    · rw [hcore]
      intro rule l hl
      obtain ⟨hl₂, hchanged⟩ := hlinks rule l hl
      have hl₁ : b₁.core.matchIndex.link rule = some l := by
        rw [← show b₂.matchIndex = b₁.core.matchIndex from congrArg Core.matchIndex hcore₂]
        exact hl₂
      exact ⟨hfirst.links rule l hl₁, hchanged⟩
  refine ⟨?_, hclear, ?_, ?_, ?_⟩
  · have hchange : Change ok (x.going id) b₄.core { x with leaving := none, flushing := false } b₄.core [] :=
      .left (x.going id) b₄.core id x.parting rfl rfl rfl hclear
    have hdone := hsofar₄.tail (hchange.move_nil rfl)
    rw [← hflushing] at hdone
    exact hdone
  · intro a
    rw [hcore, ← hbefore]
    exact hpeers a
  · rw [hcore, hcore₁]
  · rw [hcore, hcore₁]

end Goodbye

section Free

/-- A registry without links has no rules. -/
theorem isIdle_of_links (hindexed : MatchIndexed Prod.snd b.matchIndex) {registry : RegistryRef}
    (hlinks : ∀ rule l, b.matchIndex.link rule = some l → l.registry ≠ registry) : b.isIdle registry = true := by
  have hoccupied : (pathLevel (ℕ × MatchKeys)).Occupied :=
    Level.occupied_tree _ (Level.occupied_tree _ (Level.occupied_tree _ (Level.occupied_tree _ Level.occupied_leaf)))
  have hempty : ∀ m, ((b.matchIndex.registries registry).tree m).entries.isEmpty = true := by
    intro m
    rw [List.isEmpty_iff]
    by_contra hne
    obtain ⟨a, rule, hrule⟩ := hoccupied _ (hindexed.sound registry m) fun hzero =>
      hne (List.eq_nil_of_length_eq_zero hzero)
    obtain ⟨-, l, hl, hr, -⟩ := (hindexed.filed registry m a rule).mp hrule
    exact hlinks rule l hl hr
  have hsubscriptions := hempty false
  have hmonitors := hempty true
  rw [Bus.isIdle, Bool.and_eq_true]
  exact ⟨hsubscriptions, hmonitors⟩

/-- The assertions of `peer_free` hold for a peer that left. -/
theorem Good.peerFreeAsserts (h : Good x b.core) {peer : Peer} (hpeer : b.peers.find? id = some peer)
    (hclear : b.core.Clear id) : peerFreeAsserts b id peer = true := by
  have hregistered : peer.registered = false := (Core.isRegistered_of_find? hpeer).symm.trans hclear.registered
  have hcalls : b.replies.replyList id = [] := hclear.calls
  have htree : b.replies.replyTree id = .empty := hclear.replies
  have hrules : b.ownedMatches id = .empty := hclear.rules
  have hnames : (b.names.owners id).ownershipTree = .empty := by
    refine SearchTree.ext_find? fun n => ?_
    rw [SearchTree.find?_empty]
    exact hclear.names n
  have hchanged : b.isIdle (.peerNameOwnerChanged id) = true :=
    isIdle_of_links h.links.indexed fun rule l hl => (hclear.links rule l hl).2
  have hsender : b.isIdle (.peerSender id) = true :=
    isIdle_of_links h.links.indexed fun rule l hl => (hclear.links rule l hl).1
  rw [DbusBroker.peerFreeAsserts, hregistered, hcalls, htree, hrules, hnames, hchanged, hsender]
  rfl

/-- `peer_free`. -/
theorem moves_peerFree (h : Good x b.core) (hclear : b.core.Clear id) (hleaving : x.leaving = none) :
    Moves ok (x, b) (x, peerFree b id) := by
  rw [peerFree]
  cases hpeer : b.peers.find? id with
  | none => exact .refl
  | some peer =>
    dsimp only
    rw [h.peerFreeAsserts hpeer hclear, Bus.check_true]
    have hchange : Change ok x b.core x
        { b.core with peers := b.peers.erase id, hup := Function.update b.core.hup id true } [] :=
      .free x b.core id peer hpeer hclear hleaving
    refine .single (Change.move_nil (Eq.mp ?_ hchange) rfl)
    congr 1
    show Core.mk _ _ _ _ _ _ _ _ _ _ = Core.mk _ _ _ _ _ _ _ _ _ _
    congr 1
    funext a
    show Function.update b.core.hup id true a = (Function.update b.connections id Connection.null a).hupIn
    by_cases ha : a = id
    · rw [ha, Function.update_self, Function.update_self]
      rfl
    · rw [Function.update_of_ne ha, Function.update_of_ne ha]
      rfl

end Free

end DbusBroker
