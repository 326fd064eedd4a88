import DbusBroker.Bus.MatchScan
import DbusBroker.Bus.Moves

/-!
# The bus is in order

What holds of the core between any two moves. The books of the names count who refers to
them, rules are linked for those who hold them, replies are expected of peers that are
there, and activations and names know each other. A peer that is not registered owns
nothing and nothing of others refers to it, but for a peer that is about to leave.
-/

namespace DbusBroker

open Std

/-- The registry of a rule that is linked for a name, which does not depend on who is there. -/
def namedRegistry (keys : MatchKeys) : Option RegistryRef :=
  match keys.sender with
  | none => none
  | some sender =>
    if sender = driverName then
      match nameOwnerChangedArg keys with
      | none => none
      | some name => if (addressId name).isSome then none else some (.nameNameOwnerChanged name)
    else if (addressId sender).isSome then none
    else some (.nameSender sender)

/-- The peers of a core. -/
structure PeersOk (leaving : Option ℕ) (peers : SearchTree (compare : ℕ → ℕ → Ordering) Peer) (hup : ℕ → Bool)
    (ids nMonitors : ℕ) (assertFailed : Bool) : Prop where
  bound : ∀ id peer, peers.find? id = some peer → id < ids
  exclusive : ∀ id peer, peers.find? id = some peer → peer.registered = true → peer.monitor = false
  monitors : nMonitors = peers.total fun _ peer => if peer.monitor then 1 else 0
  asserts : assertFailed = false
  /-- A peer whose input ended has left, or is about to. -/
  gone : ∀ id peer, peers.find? id = some peer → hup id = true → leaving ≠ some id →
    peer.registered = false ∧ peer.monitor = false

/-- The rules that the peers hold. -/
structure RulesOk (owned : ℕ → RuleTree) (registered monitor : ℕ → Bool) : Prop where
  refs : ∀ id keys rule, (owned id).find? keys = some rule → 0 < rule.nUserRefs
  holder : ∀ id, owned id ≠ .empty → registered id = true ∨ monitor id = true

/-- The links of the rules. -/
structure LinksOk (leaving : Option ℕ) (index : MatchWorld RegistryRef (ℕ × MatchKeys) ℕ) (owned : ℕ → RuleTree)
    (registered monitor : ℕ → Bool) : Prop where
  indexed : MatchIndexed Prod.snd index
  held : ∀ id keys l, index.link (id, keys) = some l → ((owned id).find? keys).isSome
  kind : ∀ id keys l, index.link (id, keys) = some l → l.monitor = monitor id ∧ l.counted = !l.monitor
  sender : ∀ rule l id, index.link rule = some l → l.registry = .peerSender id → registered id = true
  changed : ∀ rule l id, index.link rule = some l → l.registry = .peerNameOwnerChanged id →
    registered id = true ∨ leaving = some id
  named : ∀ id keys r, ((owned id).find? keys).isSome → namedRegistry keys = some r →
    ∃ l, index.link (id, keys) = some l ∧ l.registry = r

/-- The replies that are expected. -/
structure RepliesOk (leaving : Option ℕ) (replies : ReplyWorld ℕ) (registered : ℕ → Bool) : Prop where
  books : ReplyBooks replies
  callee : ∀ callee caller serial, replies.Outstanding callee caller serial →
    registered callee = true ∨ leaving = some callee
  caller : ∀ callee caller serial, replies.Outstanding callee caller serial → registered caller = true

/-- The activations and their names. -/
structure ActivationsOk (busy : Option Bytes) (names : NameRegistry ℕ) (activations : StringTree Activation) : Prop where
  forth : ∀ n path, nameActivation names n = some path → ∃ a, activations.find? path = some a ∧ a.name = n
  back : ∀ path a, activations.find? path = some a → nameActivation names a.name = some path
  calm : ∀ path a, activations.find? path = some a → a.pending = 0 → busy ≠ some path →
    a.requests = [] ∧ a.messages = []
  owned : ∀ path a, activations.find? path = some a → (nameQueue names a.name).primary ≠ none → busy ≠ some path →
    a.pending = 0

/-- A core in order. -/
structure Good (x : Aux) (c : Core) : Prop where
  peers : PeersOk x.leaving c.peers c.hup c.ids c.nMonitors c.assertFailed
  names : NameBooks c.names (c.pins x.held)
  owners : ∀ n, ∀ a ∈ (nameQueue c.names n).owners, c.isRegistered a = true
  rules : RulesOk c.ownedMatches c.isRegistered c.isMonitor
  links : LinksOk x.leaving c.matchIndex c.ownedMatches c.isRegistered c.isMonitor
  replies : RepliesOk x.leaving c.replies c.isRegistered
  activations : ActivationsOk x.busy c.names c.activations

section Pins

variable {c : Core} {held : Bytes → ℕ} {id : ℕ} {keys : MatchKeys} {rule : MatchRule} {n : Bytes}

/-- The references that the rules of one peer hold on a name. -/
def treePins (tree : RuleTree) (n : Bytes) : ℕ :=
  tree.total fun keys rule => if ruleName keys = some n then rule.nUserRefs else 0

/-- The references of the rules when those of one peer change. -/
theorem rulePins_update (owned : ℕ → RuleTree) {ids id : ℕ} (hid : id < ids) (tree : RuleTree) (n : Bytes) :
    rulePins (Function.update owned id tree) ids n + treePins (owned id) n = rulePins owned ids n + treePins tree n := by
  have hmem : id ∈ Finset.range ids := Finset.mem_range.mpr hid
  have hrest : ∑ i ∈ (Finset.range ids).erase id, treePins (Function.update owned id tree i) n =
      ∑ i ∈ (Finset.range ids).erase id, treePins (owned i) n := by
    refine Finset.sum_congr rfl fun i hi => ?_
    rw [Function.update_of_ne (Finset.ne_of_mem_erase hi)]
  have hnew : rulePins (Function.update owned id tree) ids n =
      treePins tree n + ∑ i ∈ (Finset.range ids).erase id, treePins (owned i) n := by
    rw [← hrest]
    show ∑ i ∈ Finset.range ids, treePins (Function.update owned id tree i) n = _
    rw [← Finset.add_sum_erase _ _ hmem, Function.update_self]
  have hold : rulePins owned ids n =
      treePins (owned id) n + ∑ i ∈ (Finset.range ids).erase id, treePins (owned i) n :=
    (Finset.add_sum_erase _ (fun i => treePins (owned i) n) hmem).symm
  omega

/-- What a peer asked for of one rule counts that often. -/
theorem weightAt_refs (c : Core) (id : ℕ) (keys : MatchKeys) (n : Bytes) :
    (c.ownedMatches id).weightAt (fun keys rule => if ruleName keys = some n then rule.nUserRefs else 0) keys =
      if ruleName keys = some n then c.refs id keys else 0 := by
  rw [SearchTree.weightAt, Core.refs]
  cases (c.ownedMatches id).find? keys with
  | none => simp
  | some rule => rfl

/-- One more reference is held, or one more is counted. -/
theorem holdMore_apply (held : Bytes → ℕ) (name : Option Bytes) (n : Bytes) :
    holdMore held name n = held n + if name = some n then 1 else 0 := by
  cases name with
  | none => simp [holdMore]
  | some m =>
    by_cases hm : n = m
    · subst hm
      simp [holdMore]
    · have hne : ¬ some m = some n := fun h => hm (Option.some.inj h).symm
      rw [holdMore, Function.update_of_ne hm, if_neg hne, Nat.add_zero]

/-- An added rule takes over a reference. -/
theorem Core.pins_addRule (hid : id < c.ids) (hrefs : rule.nUserRefs = c.refs id keys + 1) (monitor : Bool) :
    (c.addRule id keys rule monitor).pins held = c.pins (holdMore held (ruleName keys)) := by
  funext n
  have hupdate := rulePins_update c.ownedMatches hid ((c.ownedMatches id).insert keys rule) n
  have htotal := (c.ownedMatches id).total_insert
    (fun keys rule => if ruleName keys = some n then rule.nUserRefs else 0) keys rule
  rw [weightAt_refs] at htotal
  have hhold := holdMore_apply held (ruleName keys) n
  show rulePins (Function.update c.ownedMatches id ((c.ownedMatches id).insert keys rule)) c.ids n +
      c.activations.total (fun _ a => a.pins n) + held n =
    rulePins c.ownedMatches c.ids n + c.activations.total (fun _ a => a.pins n) + holdMore held (ruleName keys) n
  simp only [treePins] at hupdate
  by_cases hn : ruleName keys = some n
  · simp only [if_pos hn] at htotal hhold
    omega
  · simp only [if_neg hn] at htotal hhold
    omega

/-- A dropped rule hands back a reference. -/
theorem Core.pins_dropRule (hid : id < c.ids) (hrule : (c.ownedMatches id).find? keys = some rule)
    (hpos : 0 < rule.nUserRefs) :
    (c.dropRule id keys rule).pins (holdMore held (ruleName keys)) = c.pins held := by
  funext n
  have hhold := holdMore_apply held (ruleName keys) n
  rw [Core.dropRule]
  split
  · next hlast =>
    have hupdate := rulePins_update c.ownedMatches hid ((c.ownedMatches id).erase keys) n
    have htotal := (c.ownedMatches id).total_erase_of_find?_some
      (fun keys rule => if ruleName keys = some n then rule.nUserRefs else 0) hrule
    show rulePins (Function.update c.ownedMatches id ((c.ownedMatches id).erase keys)) c.ids n +
        c.activations.total (fun _ a => a.pins n) + holdMore held (ruleName keys) n =
      rulePins c.ownedMatches c.ids n + c.activations.total (fun _ a => a.pins n) + held n
    simp only [treePins] at hupdate
    by_cases hn : ruleName keys = some n
    · simp only [if_pos hn] at htotal hhold
      omega
    · simp only [if_neg hn] at htotal hhold
      omega
  · next hmore =>
    have hupdate := rulePins_update c.ownedMatches hid
      ((c.ownedMatches id).insert keys { rule with nUserRefs := rule.nUserRefs - 1 }) n
    have htotal := (c.ownedMatches id).total_insert
      (fun keys rule => if ruleName keys = some n then rule.nUserRefs else 0) keys
      { rule with nUserRefs := rule.nUserRefs - 1 }
    rw [weightAt_refs, Core.refs, hrule] at htotal
    show rulePins (Function.update c.ownedMatches id
          ((c.ownedMatches id).insert keys { rule with nUserRefs := rule.nUserRefs - 1 })) c.ids n +
        c.activations.total (fun _ a => a.pins n) + holdMore held (ruleName keys) n =
      rulePins c.ownedMatches c.ids n + c.activations.total (fun _ a => a.pins n) + held n
    simp only [treePins] at hupdate
    simp only [Option.elim_some] at htotal
    by_cases hn : ruleName keys = some n
    · simp only [if_pos hn] at htotal hhold
      omega
    · simp only [if_neg hn] at htotal hhold
      omega

/-- The references after an activation changed. -/
theorem Core.pins_setActivation (c : Core) (held : Bytes → ℕ) (path : Bytes) (a : Activation) (n : Bytes) :
    (c.setActivation path a).pins held n + c.activations.weightAt (fun _ a => a.pins n) path =
      c.pins held n + a.pins n := by
  have htotal := c.activations.total_insert (fun _ a => a.pins n) path a
  show rulePins c.ownedMatches c.ids n + (c.activations.insert path a).total (fun _ a => a.pins n) + held n +
      c.activations.weightAt (fun _ a => a.pins n) path =
    rulePins c.ownedMatches c.ids n + c.activations.total (fun _ a => a.pins n) + held n + a.pins n
  omega

end Pins

section Peers

variable {x : Aux} {c : Core} {id : ℕ} {peer : Peer}

/-- Who is registered after a peer was written. -/
theorem Core.isRegistered_setPeer (c : Core) (id : ℕ) (peer : Peer) (a : ℕ) :
    (c.setPeer id peer).isRegistered a = if a = id then peer.registered else c.isRegistered a := by
  show ((c.peers.insert id peer).find? a).any _ = _
  rw [SearchTree.find?_insert]
  split
  · rfl
  · rfl

/-- Who is a monitor after a peer was written. -/
theorem Core.isMonitor_setPeer (c : Core) (id : ℕ) (peer : Peer) (a : ℕ) :
    (c.setPeer id peer).isMonitor a = if a = id then peer.monitor else c.isMonitor a := by
  show ((c.peers.insert id peer).find? a).any _ = _
  rw [SearchTree.find?_insert]
  split
  · rfl
  · rfl

/-- A peer that is found. -/
theorem Core.isRegistered_of_find? (hpeer : c.peers.find? id = some peer) : c.isRegistered id = peer.registered := by
  rw [Core.isRegistered, hpeer]
  rfl

/-- A peer that is found. -/
theorem Core.isMonitor_of_find? (hpeer : c.peers.find? id = some peer) : c.isMonitor id = peer.monitor := by
  rw [Core.isMonitor, hpeer]
  rfl

/-- Somebody who is registered is there. -/
theorem Core.exists_of_isRegistered (h : c.isRegistered id = true) :
    ∃ peer, c.peers.find? id = some peer ∧ peer.registered = true := by
  rw [Core.isRegistered, Option.any_eq_true] at h
  exact h

/-- A monitor is there. -/
theorem Core.exists_of_isMonitor (h : c.isMonitor id = true) :
    ∃ peer, c.peers.find? id = some peer ∧ peer.monitor = true := by
  rw [Core.isMonitor, Option.any_eq_true] at h
  exact h

/-- Whoever holds a rule has an id that was given out. -/
theorem Good.lt_ids (h : Good x c) (hid : c.isRegistered id = true ∨ c.isMonitor id = true) : id < c.ids := by
  obtain hid | hid := hid
  · obtain ⟨peer, hpeer, -⟩ := Core.exists_of_isRegistered hid
    exact h.peers.bound id peer hpeer
  · obtain ⟨peer, hpeer, -⟩ := Core.exists_of_isMonitor hid
    exact h.peers.bound id peer hpeer

/-- Somebody without a rule has none linked. -/
theorem Good.link_eq_none (h : Good x c) {keys : MatchKeys} (hnone : (c.ownedMatches id).find? keys = none) :
    c.matchIndex.link (id, keys) = none := by
  cases hlink : c.matchIndex.link (id, keys) with
  | none => rfl
  | some l =>
    have hheld := h.links.held id keys l hlink
    rw [hnone] at hheld
    cases hheld

/-- Somebody who is neither registered nor a monitor holds no rules. -/
theorem Good.rules_eq_empty (h : Good x c) (hregistered : c.isRegistered id = false)
    (hmonitor : c.isMonitor id = false) : c.ownedMatches id = .empty := by
  by_contra hne
  obtain hid | hid := h.rules.holder id hne
  · rw [hregistered] at hid
    cases hid
  · rw [hmonitor] at hid
    cases hid

/-- A caller that waits has a slot in its list. -/
theorem RepliesOk.replyList_ne_nil {leaving : Option ℕ} {replies : ReplyWorld ℕ} {registered : ℕ → Bool}
    (h : RepliesOk leaving replies registered) {callee caller : ℕ} {serial : UInt32}
    (hout : replies.Outstanding callee caller serial) : replies.replyList caller ≠ [] := by
  obtain ⟨slot, hslot⟩ := Option.isSome_iff_exists.mp hout
  obtain ⟨s, -, -, -, -, hmem⟩ := h.books.slot_of_find? hslot
  exact List.ne_nil_of_mem hmem

/-- The part of the order that only knows who is registered and who is a monitor. -/
structure Good.Parties (leaving : Option ℕ) (c : Core) (registered monitor : ℕ → Bool) : Prop where
  owners : ∀ n, ∀ a ∈ (nameQueue c.names n).owners, registered a = true
  rules : RulesOk c.ownedMatches registered monitor
  links : LinksOk leaving c.matchIndex c.ownedMatches registered monitor
  replies : RepliesOk leaving c.replies registered

/-- The parties of a core in order. -/
theorem Good.parties (h : Good x c) : Good.Parties x.leaving c c.isRegistered c.isMonitor :=
  ⟨h.owners, h.rules, h.links, h.replies⟩

/-- More peers may be registered. -/
theorem Good.Parties.register {leaving : Option ℕ} {registered registered' monitor : ℕ → Bool}
    (h : Good.Parties leaving c registered monitor) (hmore : ∀ a, registered a = true → registered' a = true) :
    Good.Parties leaving c registered' monitor where
  owners := fun n a ha => hmore a (h.owners n a ha)
  rules := ⟨h.rules.refs, fun a ha => (h.rules.holder a ha).imp_left (hmore a)⟩
  links :=
    { h.links with
      sender := fun rule l a hl hr => hmore a (h.links.sender rule l a hl hr)
      changed := fun rule l a hl hr => (h.links.changed rule l a hl hr).imp_left (hmore a) }
  replies :=
    { h.replies with
      callee := fun callee caller serial hout => (h.replies.callee callee caller serial hout).imp_left (hmore callee)
      caller := fun callee caller serial hout => hmore caller (h.replies.caller callee caller serial hout) }

/-- A peer that holds no rules may become a monitor, or stop to be one. -/
theorem Good.Parties.monitor {leaving : Option ℕ} {registered monitor monitor' : ℕ → Bool}
    (h : Good.Parties leaving c registered monitor) (hrules : c.ownedMatches id = .empty)
    (hother : ∀ a, a ≠ id → monitor' a = monitor a) : Good.Parties leaving c registered monitor' where
  owners := h.owners
  rules := by
    refine ⟨h.rules.refs, fun a ha => ?_⟩
    have hne : a ≠ id := fun heq => ha (heq ▸ hrules)
    rw [hother a hne]
    exact h.rules.holder a ha
  links :=
    { h.links with
      kind := by
        intro a keys l hl
        have hne : a ≠ id := by
          intro heq
          have hheld := h.links.held a keys l hl
          rw [heq, hrules, SearchTree.find?_empty] at hheld
          cases hheld
        rw [hother a hne]
        exact h.links.kind a keys l hl }
  replies := h.replies

/-- The peer that leaves may be forgotten once nothing refers to it. -/
theorem Good.Parties.unregister {registered registered' monitor : ℕ → Bool}
    (h : Good.Parties (some id) c registered monitor) (hother : ∀ a, a ≠ id → registered' a = registered a)
    (hnames : ∀ n, id ∉ (nameQueue c.names n).owners) (hrules : c.ownedMatches id = .empty)
    (hcalls : c.replies.replyList id = [])
    (hlinks : ∀ rule l, c.matchIndex.link rule = some l → l.registry ≠ .peerSender id) :
    Good.Parties (some id) c registered' monitor where
  owners := by
    intro n a ha
    have hne : a ≠ id := fun heq => hnames n (heq ▸ ha)
    rw [hother a hne]
    exact h.owners n a ha
  rules := by
    refine ⟨h.rules.refs, fun a ha => ?_⟩
    have hne : a ≠ id := fun heq => ha (heq ▸ hrules)
    rw [hother a hne]
    exact h.rules.holder a ha
  links :=
    { h.links with
      sender := by
        intro rule l a hl hr
        have hne : a ≠ id := fun heq => hlinks rule l hl (heq ▸ hr)
        rw [hother a hne]
        exact h.links.sender rule l a hl hr
      changed := by
        intro rule l a hl hr
        by_cases hne : a = id
        · exact .inr (congrArg some hne.symm)
        · rw [hother a hne]
          exact h.links.changed rule l a hl hr }
  replies :=
    { h.replies with
      callee := by
        intro callee caller serial hout
        by_cases hne : callee = id
        · exact .inr (congrArg some hne.symm)
        · rw [hother callee hne]
          exact h.replies.callee callee caller serial hout
      caller := by
        intro callee caller serial hout
        have hne : caller ≠ id := fun heq => h.replies.replyList_ne_nil hout (heq ▸ hcalls)
        rw [hother caller hne]
        exact h.replies.caller callee caller serial hout }

/-- A peer is about to leave. -/
theorem Good.Parties.leave {registered monitor : ℕ → Bool} {leaving : Option ℕ}
    (h : Good.Parties leaving c registered monitor) (hleaving : leaving = none ∨ leaving = some id) :
    Good.Parties (some id) c registered monitor where
  owners := h.owners
  rules := h.rules
  links :=
    { h.links with
      changed := by
        intro rule l a hl hr
        refine (h.links.changed rule l a hl hr).imp_right fun heq => ?_
        obtain hnone | hsome := hleaving
        · rw [hnone] at heq
          cases heq
        · rw [← hsome, heq] }
  replies :=
    { h.replies with
      callee := by
        intro callee caller serial hout
        refine (h.replies.callee callee caller serial hout).imp_right fun heq => ?_
        obtain hnone | hsome := hleaving
        · rw [hnone] at heq
          cases heq
        · rw [← hsome, heq] }

/-- A peer has left. -/
theorem Good.Parties.left {registered monitor : ℕ → Bool} (h : Good.Parties (some id) c registered monitor)
    (hreplies : c.replies.replyTree id = .empty)
    (hlinks : ∀ rule l, c.matchIndex.link rule = some l → l.registry ≠ .peerNameOwnerChanged id) :
    Good.Parties none c registered monitor where
  owners := h.owners
  rules := h.rules
  links :=
    { h.links with
      changed := by
        intro rule l a hl hr
        refine .inl ((h.links.changed rule l a hl hr).resolve_right fun heq => ?_)
        cases heq
        exact hlinks rule l hl hr }
  replies :=
    { h.replies with
      callee := by
        intro callee caller serial hout
        refine .inl ((h.replies.callee callee caller serial hout).resolve_right fun heq => ?_)
        cases heq
        rw [ReplyWorld.Outstanding, hreplies, SearchTree.find?_empty] at hout
        cases hout }

/-- Nobody has an id that was not given out. -/
theorem PeersOk.find?_ids {leaving : Option ℕ} {peers : SearchTree (compare : ℕ → ℕ → Ordering) Peer} {hup : ℕ → Bool}
    {ids nMonitors : ℕ} {assertFailed : Bool} (h : PeersOk leaving peers hup ids nMonitors assertFailed) :
    peers.find? ids = none := by
  cases hfind : peers.find? ids with
  | none => rfl
  | some peer => exact absurd (h.bound ids peer hfind) (lt_irrefl ids)

/-- A peer is written back, and the monitors are counted. -/
theorem PeersOk.setPeer {leaving leaving' : Option ℕ} {peers : SearchTree (compare : ℕ → ℕ → Ordering) Peer}
    {hup : ℕ → Bool} {ids nMonitors nMonitors' : ℕ} {assertFailed : Bool} {peer' : Peer}
    (h : PeersOk leaving peers hup ids nMonitors assertFailed) (hpeer : peers.find? id = some peer)
    (hleaving : leaving' = leaving) (hexclusive : peer'.registered = true → peer'.monitor = false)
    (hcount : nMonitors' + (if peer.monitor then 1 else 0) = nMonitors + if peer'.monitor then 1 else 0)
    (hgone : hup id = true → leaving ≠ some id → peer'.registered = false ∧ peer'.monitor = false) :
    PeersOk leaving' (peers.insert id peer') hup ids nMonitors' assertFailed where
  bound := by
    intro a p hp
    rw [SearchTree.find?_insert] at hp
    split at hp
    · next ha => exact ha ▸ h.bound id peer hpeer
    · exact h.bound a p hp
  exclusive := by
    intro a p hp
    rw [SearchTree.find?_insert] at hp
    split at hp
    · cases hp
      exact hexclusive
    · exact h.exclusive a p hp
  monitors := by
    have htotal := peers.total_insert (fun _ peer => if peer.monitor then 1 else 0) id peer'
    rw [SearchTree.weightAt, hpeer] at htotal
    simp only [Option.elim_some] at htotal
    have hold := h.monitors
    omega
  asserts := h.asserts
  gone := by
    intro a p hp hhup hne
    rw [hleaving] at hne
    rw [SearchTree.find?_insert] at hp
    split at hp
    · next ha =>
      cases hp
      subst ha
      exact hgone hhup hne
    · exact h.gone a p hp hhup hne

/-- A peer connects. -/
theorem PeersOk.connect {leaving : Option ℕ} {peers : SearchTree (compare : ℕ → ℕ → Ordering) Peer} {hup : ℕ → Bool}
    {ids nMonitors : ℕ} {assertFailed : Bool} (h : PeersOk leaving peers hup ids nMonitors assertFailed)
    (hregistered : peer.registered = false) (hmonitor : peer.monitor = false) :
    PeersOk leaving (peers.insert ids peer) (Function.update hup ids false) (ids + 1) nMonitors assertFailed where
  bound := by
    intro a p hp
    rw [SearchTree.find?_insert] at hp
    split at hp
    · next ha => exact ha ▸ Nat.lt_succ_self ids
    · exact Nat.lt_succ_of_lt (h.bound a p hp)
  exclusive := by
    intro a p hp
    rw [SearchTree.find?_insert] at hp
    split at hp
    · cases hp
      exact fun _ => hmonitor
    · exact h.exclusive a p hp
  monitors := by
    rw [peers.total_insert_of_find?_none _ h.find?_ids, hmonitor]
    exact h.monitors
  asserts := h.asserts
  gone := by
    intro a p hp hhup hne
    rw [SearchTree.find?_insert] at hp
    split at hp
    · cases hp
      exact ⟨hregistered, hmonitor⟩
    · next ha =>
      rw [Function.update_of_ne ha] at hhup
      exact h.gone a p hp hhup hne

/-- A peer that is neither registered nor a monitor is freed. -/
theorem PeersOk.free {leaving : Option ℕ} {peers : SearchTree (compare : ℕ → ℕ → Ordering) Peer} {hup : ℕ → Bool}
    {ids nMonitors : ℕ} {assertFailed : Bool} (h : PeersOk leaving peers hup ids nMonitors assertFailed)
    (hpeer : peers.find? id = some peer) (hmonitor : peer.monitor = false) :
    PeersOk leaving (peers.erase id) (Function.update hup id true) ids nMonitors assertFailed where
  bound := by
    intro a p hp
    rw [SearchTree.find?_erase] at hp
    split at hp
    · cases hp
    · exact h.bound a p hp
  exclusive := by
    intro a p hp
    rw [SearchTree.find?_erase] at hp
    split at hp
    · cases hp
    · exact h.exclusive a p hp
  monitors := by
    have htotal := peers.total_erase_of_find?_some (fun _ peer => if peer.monitor then 1 else 0) hpeer
    simp only [hmonitor, Bool.false_eq_true, if_false, Nat.add_zero] at htotal
    exact h.monitors.trans htotal.symm
  asserts := h.asserts
  gone := by
    intro a p hp hhup hne
    rw [SearchTree.find?_erase] at hp
    split at hp
    · cases hp
    · next ha =>
      rw [Function.update_of_ne ha] at hhup
      exact h.gone a p hp hhup hne

/-- The input of a peer that is about to leave ends. -/
theorem PeersOk.hangup {leaving : Option ℕ} {peers : SearchTree (compare : ℕ → ℕ → Ordering) Peer} {hup : ℕ → Bool}
    {ids nMonitors : ℕ} {assertFailed : Bool} (h : PeersOk leaving peers hup ids nMonitors assertFailed)
    (hleaving : leaving = none) :
    PeersOk (some id) peers (Function.update hup id true) ids nMonitors assertFailed :=
  { h with
    gone := by
      intro a p hp hhup hne
      have ha : a ≠ id := fun heq => hne (congrArg some heq.symm)
      rw [Function.update_of_ne ha] at hhup
      exact h.gone a p hp hhup (by rw [hleaving]; exact (Option.some_ne_none a).symm) }

/-- A peer is about to leave. -/
theorem PeersOk.leave {leaving : Option ℕ} {peers : SearchTree (compare : ℕ → ℕ → Ordering) Peer} {hup : ℕ → Bool}
    {ids nMonitors : ℕ} {assertFailed : Bool} (h : PeersOk leaving peers hup ids nMonitors assertFailed)
    (hleaving : leaving = none ∨ leaving = some id) : PeersOk (some id) peers hup ids nMonitors assertFailed :=
  { h with
    gone := by
      intro a p hp hhup hne
      refine h.gone a p hp hhup ?_
      obtain hnone | hsome := hleaving
      · rw [hnone]
        exact (Option.some_ne_none a).symm
      · rw [hsome]
        exact hne }

/-- A peer has left. -/
theorem PeersOk.left {peers : SearchTree (compare : ℕ → ℕ → Ordering) Peer} {hup : ℕ → Bool} {ids nMonitors : ℕ}
    {assertFailed : Bool} (h : PeersOk (some id) peers hup ids nMonitors assertFailed)
    (hregistered : ∀ peer, peers.find? id = some peer → peer.registered = false ∧ peer.monitor = false) :
    PeersOk none peers hup ids nMonitors assertFailed :=
  { h with
    gone := by
      intro a p hp hhup _
      by_cases ha : a = id
      · subst ha
        exact hregistered p hp
      · exact h.gone a p hp hhup fun heq => ha (Option.some.inj heq).symm }

/-- The order is put together from its parts. -/
theorem Good.of_parties {x' : Aux} {c' : Core}
    (hpeers : PeersOk x'.leaving c'.peers c'.hup c'.ids c'.nMonitors c'.assertFailed)
    (hparties : Good.Parties x'.leaving c' c'.isRegistered c'.isMonitor)
    (hnames : NameBooks c'.names (c'.pins x'.held)) (hactivations : ActivationsOk x'.busy c'.names c'.activations) :
    Good x' c' :=
  ⟨hpeers, hnames, hparties.owners, hparties.rules, hparties.links, hparties.replies, hactivations⟩

/-- A peer connects. -/
theorem Good.connect (h : Good x c) (hregistered : peer.registered = false) (hmonitor : peer.monitor = false) :
    Good x { c with
      peers := c.peers.insert c.ids peer, hup := Function.update c.hup c.ids false, ids := c.ids + 1 } := by
  have hnone := h.peers.find?_ids
  have hrules : c.ownedMatches c.ids = .empty := by
    refine h.rules_eq_empty ?_ ?_
    · rw [Core.isRegistered, hnone]
      rfl
    · rw [Core.isMonitor, hnone]
      rfl
  refine Good.of_parties (h.peers.connect hregistered hmonitor) ?_ ?_ h.activations
  · have hreg : ∀ a, c.isRegistered a = true → (c.setPeer c.ids peer).isRegistered a = true := by
      intro a ha
      rw [Core.isRegistered_setPeer, if_neg, ha]
      intro heq
      rw [heq, Core.isRegistered, hnone] at ha
      cases ha
    have hparties : Good.Parties _ c _ (c.setPeer c.ids peer).isMonitor := (h.parties.register hreg).monitor hrules
      (fun a ha => by rw [Core.isMonitor_setPeer, if_neg ha])
    exact ⟨hparties.owners, hparties.rules, hparties.links, hparties.replies⟩
  · have hpins : rulePins c.ownedMatches (c.ids + 1) = rulePins c.ownedMatches c.ids := by
      funext n
      rw [rulePins, Finset.sum_range_succ, hrules, SearchTree.total_empty, Nat.add_zero]
      rfl
    have hall : Core.pins { c with
        peers := c.peers.insert c.ids peer, hup := Function.update c.hup c.ids false, ids := c.ids + 1 } x.held =
        c.pins x.held := by
      funext n
      show rulePins c.ownedMatches (c.ids + 1) n + _ + _ = rulePins c.ownedMatches c.ids n + _ + _
      rw [hpins]
    rw [hall]
    exact h.names

/-- A peer is registered. -/
theorem Good.register (h : Good x c) (hpeer : c.peers.find? id = some peer) (hmonitor : peer.monitor = false)
    (hhup : c.hup id = false) : Good x (c.setPeer id { peer with registered := true }) := by
  refine Good.of_parties ?_ ?_ h.names h.activations
  · refine h.peers.setPeer hpeer rfl (fun _ => hmonitor) rfl fun hup => ?_
    rw [hhup] at hup
    cases hup
  · have hreg : ∀ a, c.isRegistered a = true →
        (c.setPeer id { peer with registered := true }).isRegistered a = true := by
      intro a ha
      rw [Core.isRegistered_setPeer]
      split
      · rfl
      · exact ha
    have hmon : (c.setPeer id { peer with registered := true }).isMonitor = c.isMonitor := by
      funext a
      rw [Core.isMonitor_setPeer]
      split
      · next ha => rw [ha, Core.isMonitor_of_find? hpeer]
      · rfl
    rw [hmon]
    have hparties := h.parties.register hreg
    exact ⟨hparties.owners, hparties.rules, hparties.links, hparties.replies⟩

/-- A peer becomes a monitor. -/
theorem Good.startMonitor (h : Good x c) (hpeer : c.peers.find? id = some peer) (hregistered : peer.registered = false)
    (hmonitor : peer.monitor = false) (hhup : c.hup id = false) (arming : Option (ℕ × List MatchKeys)) :
    Good { x with arming := arming }
      { c.setPeer id { peer with monitor := true } with nMonitors := c.nMonitors + 1 } := by
  have hrules : c.ownedMatches id = .empty := h.rules_eq_empty
    ((Core.isRegistered_of_find? hpeer).trans hregistered) ((Core.isMonitor_of_find? hpeer).trans hmonitor)
  refine Good.of_parties ?_ ?_ h.names h.activations
  · refine h.peers.setPeer hpeer rfl (fun hreg => ?_) ?_ fun hup => ?_
    · rw [show peer.registered = true from hreg] at hregistered
      cases hregistered
    · rw [hmonitor]
      rfl
    · rw [hhup] at hup
      cases hup
  · have hreg : (c.setPeer id { peer with monitor := true }).isRegistered = c.isRegistered := by
      funext a
      rw [Core.isRegistered_setPeer]
      split
      · next ha => rw [ha, Core.isRegistered_of_find? hpeer]
      · rfl
    have hparties : Good.Parties _ c _ (c.setPeer id { peer with monitor := true }).isMonitor := h.parties.monitor hrules
      (fun a ha => by rw [Core.isMonitor_setPeer, if_neg ha])
    rw [← hreg] at hparties
    exact ⟨hparties.owners, hparties.rules, hparties.links, hparties.replies⟩

/-- A peer that leaves is not registered any more. -/
theorem Good.unregister (h : Good x c) (hpeer : c.peers.find? id = some peer) (hregistered : peer.registered = true)
    (hleaving : x.leaving = some id) (hrules : c.ownedMatches id = .empty)
    (hnames : ∀ n, id ∉ (nameQueue c.names n).owners) (hcalls : c.replies.replyList id = [])
    (hlinks : ∀ rule l, c.matchIndex.link rule = some l → l.registry ≠ .peerSender id) :
    Good x (c.setPeer id { peer with registered := false }) := by
  have hmonitor := h.peers.exclusive id peer hpeer hregistered
  refine Good.of_parties ?_ ?_ h.names h.activations
  · refine h.peers.setPeer hpeer rfl (fun hreg => ?_) rfl fun _ hne => absurd hleaving hne
    cases hreg
  · have hmon : (c.setPeer id { peer with registered := false }).isMonitor = c.isMonitor := by
      funext a
      rw [Core.isMonitor_setPeer]
      split
      · next ha => rw [ha, Core.isMonitor_of_find? hpeer]
      · rfl
    have hparties := h.parties
    rw [hleaving] at hparties
    have hleft : Good.Parties _ c (c.setPeer id { peer with registered := false }).isRegistered _ := hparties.unregister
      (fun a ha => by rw [Core.isRegistered_setPeer, if_neg ha]) hnames hrules hcalls hlinks
    rw [hmon, hleaving]
    exact ⟨hleft.owners, hleft.rules, hleft.links, hleft.replies⟩

/-- A peer that leaves is no monitor any more. -/
theorem Good.stopMonitor (h : Good x c) (hpeer : c.peers.find? id = some peer) (hmonitor : peer.monitor = true)
    (hleaving : x.leaving = some id) (hrules : c.ownedMatches id = .empty) :
    Good x { c.setPeer id { peer with monitor := false } with nMonitors := c.nMonitors - 1 } := by
  refine Good.of_parties ?_ ?_ h.names h.activations
  · refine h.peers.setPeer hpeer rfl (fun _ => rfl) ?_ fun _ hne => absurd hleaving hne
    have hpos : 0 < c.nMonitors := by
      have htotal := c.peers.total_erase_of_find?_some (fun _ peer => if peer.monitor then 1 else 0) hpeer
      simp only [hmonitor, if_true] at htotal
      have hmonitors := h.peers.monitors
      omega
    simp only [hmonitor, if_true, Bool.false_eq_true, if_false]
    omega
  · have hreg : (c.setPeer id { peer with monitor := false }).isRegistered = c.isRegistered := by
      funext a
      rw [Core.isRegistered_setPeer]
      split
      · next ha => rw [ha, Core.isRegistered_of_find? hpeer]
      · rfl
    have hparties : Good.Parties _ c _ (c.setPeer id { peer with monitor := false }).isMonitor := h.parties.monitor hrules
      (fun a ha => by rw [Core.isMonitor_setPeer, if_neg ha])
    rw [← hreg] at hparties
    exact ⟨hparties.owners, hparties.rules, hparties.links, hparties.replies⟩

/-- A peer is freed. -/
theorem Good.free (h : Good x c) (hpeer : c.peers.find? id = some peer) (hclear : c.Clear id) :
    Good x { c with peers := c.peers.erase id, hup := Function.update c.hup id true } := by
  have hregistered : peer.registered = false := (Core.isRegistered_of_find? hpeer).symm.trans hclear.registered
  have hmonitor : peer.monitor = false := (Core.isMonitor_of_find? hpeer).symm.trans hclear.monitor
  refine Good.of_parties (h.peers.free hpeer hmonitor) ?_ h.names h.activations
  have hreg : Core.isRegistered { c with peers := c.peers.erase id, hup := Function.update c.hup id true } =
      c.isRegistered := by
    funext a
    show ((c.peers.erase id).find? a).any _ = _
    rw [SearchTree.find?_erase]
    split
    · next ha => rw [ha, hclear.registered]; rfl
    · rfl
  have hmon : Core.isMonitor { c with peers := c.peers.erase id, hup := Function.update c.hup id true } =
      c.isMonitor := by
    funext a
    show ((c.peers.erase id).find? a).any _ = _
    rw [SearchTree.find?_erase]
    split
    · next ha => rw [ha, hclear.monitor]; rfl
    · rfl
  rw [hreg, hmon]
  exact ⟨h.owners, h.rules, h.links, h.replies⟩

/-- The input of a peer ends. -/
theorem Good.hangup (h : Good x c) (hleaving : x.leaving = none) :
    Good { x with leaving := some id } { c with hup := Function.update c.hup id true } := by
  have hparties : Good.Parties (some id) c _ _ := h.parties.leave (.inl hleaving)
  exact Good.of_parties (h.peers.hangup hleaving)
    ⟨hparties.owners, hparties.rules, hparties.links, hparties.replies⟩ h.names h.activations

/-- A peer leaves. -/
theorem Good.goodbye (h : Good x c) (hleaving : x.leaving = none ∨ x.leaving = some id) (flushing : Bool) :
    Good { x with leaving := some id, flushing := flushing } c :=
  Good.of_parties (h.peers.leave hleaving) (h.parties.leave hleaving) h.names h.activations

/-- A peer has left. -/
theorem Good.left (h : Good x c) (hleaving : x.leaving = some id) (hclear : c.Clear id) :
    Good { x with leaving := none } c := by
  have hpeers := h.peers
  have hparties := h.parties
  rw [hleaving] at hpeers hparties
  refine Good.of_parties (hpeers.left fun peer hpeer => ?_)
    (hparties.left hclear.replies fun rule l hl => (hclear.links rule l hl).2) h.names h.activations
  exact ⟨(Core.isRegistered_of_find? hpeer).symm.trans hclear.registered,
    (Core.isMonitor_of_find? hpeer).symm.trans hclear.monitor⟩

end Peers

end DbusBroker
