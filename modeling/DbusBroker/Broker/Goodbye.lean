import DbusBroker.Broker.BrokerMoves

/-!
# Peers that left

A peer that said goodbye stays in the tree of peers until its output is drained. Nothing that
others do in the meantime refers to it again, so whatever `peer_free` asserts holds when it
is freed.
-/

namespace DbusBroker

open Std

variable {ok : Core → Leave → Prop} {x x' : Aux} {c c' : Core} {b : Bus} {id : ℕ} {said : List Event}

section Clear

/-- Between operations nothing refers to somebody who is neither registered nor a monitor. -/
theorem Good.clear (h : Good x c) (hleaving : x.leaving = none) (hregistered : c.isRegistered id = false)
    (hmonitor : c.isMonitor id = false) : c.Clear id where
  registered := hregistered
  monitor := hmonitor
  names := by
    intro n
    by_contra hown
    have howner := h.owners n id (((h.names.names n).mem_owners_iff_ownershipOf id).mpr (Option.ne_none_iff_exists'.mp hown))
    rw [hregistered] at howner
    cases howner
  rules := h.rules_eq_empty hregistered hmonitor
  calls := by
    refine List.eq_nil_iff_forall_not_mem.mpr fun slot hslot => ?_
    obtain ⟨s, -, -, -, hfind⟩ := h.replies.books.find?_of_mem hslot
    have hcaller := h.replies.caller s.registry id s.serial (Option.isSome_of_eq_some hfind)
    rw [hregistered] at hcaller
    cases hcaller
  replies := by
    refine SearchTree.ext_find? fun key => ?_
    rw [SearchTree.find?_empty]
    by_contra hout
    obtain hcallee | hcallee := h.replies.callee id key.1 key.2 (Option.isSome_iff_ne_none.mpr hout)
    · rw [hregistered] at hcallee
      cases hcallee
    · rw [hleaving] at hcallee
      cases hcallee
  links := by
    intro rule l hl
    refine ⟨fun hsender => ?_, fun hchanged => ?_⟩
    · have hthere := h.links.sender rule l id hl hsender
      rw [hregistered] at hthere
      cases hthere
    · obtain hthere | hthere := h.links.changed rule l id hl hchanged
      · rw [hregistered] at hthere
        cases hthere
      · rw [hleaving] at hthere
        cases hthere

/-- Between operations nothing refers to a peer whose input ended. -/
theorem Good.clear_of_hup (h : Good x c) (hleaving : x.leaving = none) (hhup : c.hup id = true) : c.Clear id := by
  cases hpeer : c.peers.find? id with
  | none =>
    refine h.clear hleaving ?_ ?_
    · rw [Core.isRegistered, hpeer]
      rfl
    · rw [Core.isMonitor, hpeer]
      rfl
  | some peer =>
    obtain ⟨hregistered, hmonitor⟩ := h.peers.gone id peer hpeer hhup (by rw [hleaving]; exact (Option.some_ne_none id).symm)
    exact h.clear hleaving ((Core.isRegistered_of_find? hpeer).trans hregistered)
      ((Core.isMonitor_of_find? hpeer).trans hmonitor)

/-- Ids that were given out stay so. -/
theorem Change.ids_le (h : Change ok x c x' c' said) : c.ids ≤ c'.ids := by
  cases h with
  | connect peer _ _ _ => exact Nat.le_succ c.ids
  | drop a keys rule _ hrule _ =>
    rw [Core.dropRule]
    split <;> exact Nat.le_refl c.ids
  | _ => exact Nat.le_refl c.ids

/-- Ids that were given out stay so. -/
theorem Moves.ids_le {s s' : Aux × Bus} (h : Moves ok s s') : s.2.core.ids ≤ s'.2.core.ids := by
  induction h with
  | refl => exact Nat.le_refl _
  | tail _ hmove ih =>
    obtain ⟨said, events, hchange, -⟩ := hmove
    exact ih.trans hchange.ids_le

/-- An input that ended does not come back, because ids are not given out again. -/
theorem Change.hup (h : Change ok x c x' c' said) (hid : id < c.ids) (hhup : c.hup id = true) : c'.hup id = true := by
  have hmore : ∀ a, Function.update c.hup a true id = true := by
    intro a
    by_cases ha : id = a
    · rw [ha, Function.update_self]
    · rw [Function.update_of_ne ha]
      exact hhup
  cases h with
  | connect peer _ _ _ =>
    show Function.update c.hup c.ids false id = true
    rw [Function.update_of_ne (Nat.ne_of_lt hid)]
    exact hhup
  | hangup a _ => exact hmore a
  | free a peer _ _ _ => exact hmore a
  | drop a keys rule _ hrule _ =>
    rw [Core.dropRule]
    split <;> exact hhup
  | _ => exact hhup

/-- An input that ended does not come back. -/
theorem Moves.hup {s s' : Aux × Bus} (h : Moves ok s s') (hid : id < s.2.core.ids) (hhup : s.2.core.hup id = true) :
    id < s'.2.core.ids ∧ s'.2.core.hup id = true := by
  induction h with
  | refl => exact ⟨hid, hhup⟩
  | tail _ hmove ih =>
    obtain ⟨said, events, hchange, -⟩ := hmove
    exact ⟨ih.1.trans_le hchange.ids_le, hchange.hup ih.1 ih.2⟩

end Clear

section Departure

variable (sizes : Sizes)

/-- A peer that was freed, or that waits for it, has no input. -/
theorem hup_peerReap (hhup : (b.connections id).hupIn = true) (pending : Bool) :
    ((peerReap b id pending).connections id).hupIn = true := by
  rw [peerReap]
  split
  · exact hhup
  · rw [peerFree]
    cases b.peers.find? id with
    | none => exact hhup
    | some peer => exact congrArg Connection.hupIn (Function.update_self id Connection.null b.connections)

/-- An event that makes a peer say goodbye for good: the end of its input, a violation of the protocol, or a message
that is answered with its disconnection. -/
def Broker.Departs (s : Broker) (id : ℕ) : BrokerOp → Prop
  | .eof i _ _ => i = id ∧ (s.bus.peers.find? i).isSome
  | .violation i _ _ => i = id ∧ (s.bus.peers.find? i).isSome ∧ (s.bus.connections i).hupIn = false
  | .message i m body outside => i = id ∧ (s.bus.connections i).hupIn = false ∧ ∃ peer e, s.bus.peers.find? i = some peer ∧
      (driverDispatch sizes outside s.bus i peer.user (messageStitchSender m i) body).2 = some e ∧ e ≠ .fatal
  | _ => False

/-- The goodbye of a peer whose input ended. -/
theorem hup_goodbye {held : Bytes → ℕ} (h : Good (.rest held false) b.core) (policy : Policy) {c : Connection}
    (hc : c.hupIn = true) {silent : Bool} {b' : Bus}
    (hb' : b' = driverGoodbye sizes policy (b.setConnection id c) id silent) :
    Good (.rest held false) b'.core ∧ b'.ids = b.ids ∧ (b'.connections id).hupIn = true := by
  obtain ⟨b₁, hb₁⟩ : ∃ b₁, b₁ = b.setConnection id c := ⟨_, rfl⟩
  have hcore : b₁.core = { b.core with hup := Function.update b.core.hup id true } := by
    rw [hb₁, Bus.core_setConnection, hc]
  have hchange : Change anyRule (.rest held silent) b.core { Aux.rest held silent with leaving := some id } b₁.core [] := by
    rw [hcore]
    exact .hangup _ b.core id rfl
  have hgood := (h.setAux false none silent).change hchange
  rw [← hb₁] at hb'
  obtain ⟨hgoodbye, hleft⟩ : Moves anyRule ({ Aux.rest held silent with leaving := some id }, b₁)
      (.rest held silent, driverGoodbye sizes policy b₁ id silent) ∧
        b₁.core.Left (driverGoodbye sizes policy b₁ id silent).core id :=
    moves_driverGoodbye sizes policy hgood (.inr rfl) rfl rfl rfl
  rw [← hb'] at hgoodbye hleft
  have hids := hleft.ids
  have hhup := congrFun hleft.hup id
  rw [hcore] at hids hhup
  exact ⟨(hgood.moves hgoodbye).setAux false none false, hids, hhup.trans (Function.update_self id true b.core.hup)⟩

/-- An id was given out, and the input of its peer ended. -/
def Gone (b : Bus) (id : ℕ) : Prop := id < b.ids ∧ (b.connections id).hupIn = true

/-- A peer that was freed, or that waits for it, is gone. -/
theorem Gone.peerReap (h : Gone b id) (pending : Bool) : Gone (peerReap b id pending) id := by
  refine ⟨?_, hup_peerReap h.2 pending⟩
  rw [DbusBroker.peerReap]
  split
  · exact h.1
  · rw [peerFree]
    cases b.peers.find? id with
    | none => exact h.1
    | some peer => exact h.1

/-- `peer_dispatch` on a violation of the protocol. -/
theorem gone_peerDispatchViolation {held : Bytes → ℕ} (h : Good (.rest held false) b.core) (hid : id < b.ids)
    (policy : Policy) (pending : Bool) : Gone (peerDispatchViolation sizes b id policy pending) id := by
  obtain ⟨b₁, hb₁⟩ : ∃ b₁, b₁ = driverGoodbye sizes policy (b.setConnection id (connectionClose (b.connections id))) id false :=
    ⟨_, rfl⟩
  obtain ⟨-, hids, hhup⟩ := hup_goodbye sizes h policy (hupIn_connectionShutdown _) hb₁
  rw [peerDispatchViolation, ← hb₁]
  exact Gone.peerReap ⟨hids ▸ hid, hhup⟩ pending

/-- `peer_dispatch` at the end of the input. -/
theorem gone_peerDispatchEof {held : Bytes → ℕ} (h : Good (.rest held false) b.core) (hid : id < b.ids)
    (policy : Policy) (pending : Bool) : Gone (peerDispatchEof sizes b id policy pending) id := by
  obtain ⟨b₁, hb₁⟩ : ∃ b₁, b₁ = driverGoodbye sizes policy
    (b.setConnection id { b.connections id with hupIn := true }) id false := ⟨_, rfl⟩
  obtain ⟨-, hids, hhup⟩ := hup_goodbye sizes h policy (c := { b.connections id with hupIn := true }) rfl hb₁
  rw [peerDispatchEof, ← hb₁]
  refine Gone.peerReap ⟨hids ▸ hid, ?_⟩ pending
  refine (congrArg Connection.hupIn (Function.update_self id _ _)).trans ?_
  rw [hupIn_connectionShutdown]
  exact hhup

/-- A peer that departs is gone. -/
theorem gone_of_departs {held : Bytes → ℕ} (h : Good (.rest held false) b.core) {op : BrokerOp}
    (hdeparts : Broker.Departs sizes ⟨b, true⟩ id op) : Gone (Broker.perform sizes b op).bus id := by
  cases op with
  | eof i policy pending =>
    obtain ⟨rfl, hpeer⟩ := hdeparts
    obtain ⟨peer, hpeer'⟩ := Option.isSome_iff_exists.mp hpeer
    rw [Broker.perform, if_pos hpeer]
    exact gone_peerDispatchEof sizes h (h.peers.bound i peer hpeer') policy pending
  | violation i policy pending =>
    obtain ⟨rfl, hpeer, hopen⟩ := hdeparts
    obtain ⟨peer, hpeer'⟩ := Option.isSome_iff_exists.mp hpeer
    rw [Broker.perform, if_pos (by rw [Bool.and_eq_true, Bool.not_eq_true']; exact ⟨hpeer, hopen⟩)]
    dsimp only
    exact gone_peerDispatchViolation sizes h (h.peers.bound i peer hpeer') policy pending
  | message i m body outside =>
    obtain ⟨rfl, hopen, peer, e, hpeer, he, hfatal⟩ := hdeparts
    have hpeer : b.peers.find? i = some peer := hpeer
    have hopen : (b.connections i).hupIn = false := hopen
    have hthere : (b.peers.find? i).isSome := Option.isSome_of_eq_some hpeer
    have hdispatch : Performs anyRule held b
        (driverDispatch sizes outside b i peer.user (messageStitchSender m i) body).1 := by
      cases hmonitor : b.core.isMonitor i with
      | false =>
        exact (Calling.mk h hthere hopen hmonitor).performs_driverDispatch sizes outside peer.user
          (brokerMeets_anyRule ⟨b, true⟩ (.message i (messageStitchSender m i) body outside)) rfl
      | true =>
        rw [driverDispatch, if_pos (show b.isMonitor i = true from hmonitor)]
        exact performs_refl b
    rw [Broker.perform, hpeer]
    dsimp only
    rw [if_neg (Bool.eq_false_iff.mp hopen)]
    cases hresult : driverDispatch sizes outside b i peer.user (messageStitchSender m i) body with
    | mk b₁ e' =>
      rw [hresult] at hdispatch
      have he' : e' = some e := (congrArg Prod.snd hresult).symm.trans he
      rw [he'] at hresult
      obtain ⟨held', hmoves, -⟩ := hdispatch
      have hgone : Gone (peerDispatchViolation sizes b₁ i outside.policy outside.pending) i :=
        gone_peerDispatchViolation sizes (h.moves hmoves) ((h.peers.bound i peer hpeer).trans_le hmoves.ids_le)
          outside.policy outside.pending
      rw [peerDispatchMessage_of_error sizes hresult hfatal]
      generalize peerDispatchViolation sizes b₁ i outside.policy outside.pending = b₂ at hgone
      exact hgone
  | _ => exact hdeparts.elim

/-- Nothing refers to a peer, so `peer_free` finds what it asserts. -/
def LeavesNothing (b : Bus) (id : ℕ) : Prop :=
  b.core.Clear id ∧ ∀ peer, b.peers.find? id = some peer → peerFreeAsserts b id peer = true

/-- Nothing ever refers to a peer that is gone. -/
theorem leavesNothing_of_gone {s : Broker} {held : Bytes → ℕ} (h : Good (.rest held (!s.running)) s.bus.core)
    (hgone : Gone s.bus id) (later : List BrokerOp) :
    LeavesNothing (Machine.run (Broker.step sizes) s later).bus id := by
  obtain ⟨held', hmoves⟩ := moves_anyRun sizes h later
  have hgood := h.moves hmoves
  have hclear := hgood.clear_of_hup rfl (hmoves.hup hgone.1 hgone.2).2
  exact ⟨hclear, fun peer hpeer => hgood.peerFreeAsserts hpeer hclear⟩

/-- A peer that says goodbye leaves nothing behind, whatever others do until it is freed, and no assertion fails when
peers are freed. -/
theorem peer_leaves_nothing (users : UserRegistry) (user : Uid) (controller : Connection) (ops : List BrokerOp) (id : ℕ) :
    let s := Machine.run (Broker.step sizes) (.init users user controller) ops
    (∀ policy silent, LeavesNothing (driverGoodbye sizes policy s.bus id silent) id) ∧
      (∀ policy silent c later, c.hupIn = true → id < s.bus.ids →
        LeavesNothing (Machine.run (Broker.step sizes)
          ⟨driverGoodbye sizes policy (s.bus.setConnection id c) id silent, true⟩ later).bus id) ∧
      (∀ op later, s.running = true → s.Departs sizes id op →
        LeavesNothing (Machine.run (Broker.step sizes) s (op :: later)).bus id) ∧
      s.bus.assertFailed = false := by
  intro s
  obtain ⟨held, hgood⟩ := good_anyRun sizes users user controller ops
  have hgood : Good (.rest held (!s.running)) s.bus.core := hgood
  obtain ⟨b, running⟩ := s
  have hrest : Good (.rest held false) b.core := hgood.setAux false none false
  refine ⟨fun policy silent => ?_, fun policy silent c later hc hid => ?_, fun op later hrunning hdeparts => ?_,
    hgood.peers.asserts⟩
  · obtain ⟨b', hb'⟩ : ∃ b', b' = driverGoodbye sizes policy b id silent := ⟨_, rfl⟩
    obtain ⟨hmoves, hleft⟩ : Moves anyRule (.rest held silent, b) (.rest held silent, driverGoodbye sizes policy b id silent) ∧
        b.core.Left (driverGoodbye sizes policy b id silent).core id :=
      moves_driverGoodbye sizes policy (hgood.setAux false none silent) (.inl rfl) rfl rfl rfl
    rw [← hb'] at hmoves hleft
    show LeavesNothing (driverGoodbye sizes policy b id silent) id
    rw [← hb']
    exact ⟨hleft.clear, fun peer hpeer =>
      ((hgood.setAux false none silent).moves hmoves).peerFreeAsserts hpeer hleft.clear⟩
  · obtain ⟨b', hb'⟩ : ∃ b', b' = driverGoodbye sizes policy (b.setConnection id c) id silent := ⟨_, rfl⟩
    obtain ⟨hgood', hids, hhup⟩ := hup_goodbye sizes hrest policy hc hb'
    show LeavesNothing (Machine.run (Broker.step sizes)
      ⟨driverGoodbye sizes policy (b.setConnection id c) id silent, true⟩ later).bus id
    rw [← hb']
    exact leavesNothing_of_gone sizes (s := ⟨b', true⟩) hgood' ⟨hids ▸ hid, hhup⟩ later
  · obtain rfl : running = true := hrunning
    have hgone : Gone (Broker.step sizes ⟨b, true⟩ op).bus id := gone_of_departs sizes hrest hdeparts
    obtain ⟨held', hmoves⟩ := moves_anyRun sizes hgood [op]
    exact leavesNothing_of_gone sizes (hgood.moves hmoves) hgone later

/-- Two peers that call each other, one of them with a name and a rule of its own, the other with a rule about it. -/
def Broker.busyPeers : List BrokerOp :=
  Broker.twoPeers 0 ++
    [.message 1 (Broker.callMessage driverName (lit "RequestName") 2) (.su (lit "org.example") 0) Broker.allOutside,
      .message 1 (Broker.callMessage driverName (lit "AddMatch") 3) (.s (lit "type='signal'")) Broker.allOutside,
      .message 0 (Broker.callMessage driverName (lit "AddMatch") 4) (.s (lit "sender=':1.1'")) Broker.allOutside,
      .message 1 (Broker.peerMessage dbusMessageTypeMethodCall 0 6 0 0 0) .unit Broker.allOutside]

/-- The other peer takes the name over, replies to the call of the peer that left, and drops its rule. -/
def Broker.afterGoodbye : List BrokerOp :=
  [.message 0 (Broker.callMessage driverName (lit "RequestName") 7) (.su (lit "org.example") 0) Broker.allOutside,
    .message 0 (Broker.peerMessage dbusMessageTypeMethodReturn 0 8 6 1 0) .unit Broker.allOutside,
    .message 0 (Broker.callMessage driverName (lit "RemoveMatch") 9) (.s (lit "sender=':1.1'")) Broker.allOutside]

/-- A peer that owns a name and a rule, and owes and is owed a reply, leaves all of it. -/
theorem peer_leaves_nothing_busy :
    let s := Machine.run (Broker.step Broker.noSizes) .roomy Broker.busyPeers
    (s.bus.isRegistered 1 = true ∧ nameOwnerOf s.bus.names (lit "org.example") = some 1 ∧
      (s.bus.ownedMatches 1).entries ≠ [] ∧ s.bus.replies.replyList 1 ≠ [] ∧ (s.bus.replies.replyTree 1).entries ≠ [] ∧
      s.bus.isIdle (.peerSender 1) = false) ∧
    LeavesNothing (Machine.run (Broker.step Broker.noSizes) s (.eof 1 .permissive true :: Broker.afterGoodbye)).bus 1 :=
  ⟨by decide +kernel,
    (peer_leaves_nothing Broker.noSizes _ 0 _ Broker.busyPeers 1).2.2.1 (.eof 1 .permissive true) Broker.afterGoodbye
      (by decide +kernel) ⟨rfl, by decide +kernel⟩⟩

end Departure

end DbusBroker
