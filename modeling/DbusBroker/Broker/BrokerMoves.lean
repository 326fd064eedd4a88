import DbusBroker.Broker.Broker
import DbusBroker.Bus.MovesDispatch

/-!
# The moves of the broker

Every event of the broker as moves of the bus, and with that every run: between two events
no operation is under way, and the core of the bus is in order.
-/

namespace DbusBroker

open Std

variable {ok : Core → Leave → Prop} {x : Aux} {held : Bytes → ℕ} {b b' : Bus} {id : ℕ}
  {n path : Bytes}

section Peers

variable (sizes : Sizes)

/-- The core after a connection was written back. -/
theorem Bus.core_setConnection (b : Bus) (id : ℕ) (c : Connection) :
    (b.setConnection id c).core = { b.core with hup := Function.update b.core.hup id c.hupIn } := by
  have hhup : (fun a => (Function.update b.connections id c a).hupIn) = Function.update b.core.hup id c.hupIn := by
    funext a
    by_cases ha : a = id
    · rw [ha, Function.update_self, Function.update_self]
    · rw [Function.update_of_ne ha, Function.update_of_ne ha]
      rfl
  rw [← hhup]
  rfl

/-- The end of `peer_dispatch`. -/
theorem moves_peerReap (h : Good x b.core) (hclear : b.core.Clear id) (hleaving : x.leaving = none) (pending : Bool) :
    Moves ok (x, b) (x, peerReap b id pending) := by
  rw [peerReap]
  split
  · exact .refl
  · exact moves_peerFree h hclear hleaving

/-- The input of a peer ends, and it leaves. -/
theorem moves_hangup (h : Good (.rest held false) b.core) (policy : Policy) {c : Connection} (hc : c.hupIn = true) :
    Moves ok (.rest held false, b) (.rest held false, driverGoodbye sizes policy (b.setConnection id c) id false) ∧
      (driverGoodbye sizes policy (b.setConnection id c) id false).core.Clear id := by
  have hchange : Change ok (.rest held false) b.core { Aux.rest held false with leaving := some id }
      (b.setConnection id c).core [] := by
    rw [Bus.core_setConnection, hc]
    exact .hangup _ b.core id rfl
  have hhangup : Moves ok (.rest held false, b) ({ Aux.rest held false with leaving := some id }, b.setConnection id c) :=
    .single (hchange.move_nil rfl)
  obtain ⟨hgoodbye, hleft⟩ :
      Moves ok _ (.rest held false, driverGoodbye sizes policy (b.setConnection id c) id false) ∧ _ :=
    moves_driverGoodbye sizes policy (h.moves hhangup) (.inr rfl) rfl rfl rfl
  exact ⟨hhangup.trans hgoodbye, hleft.clear⟩

/-- `peer_dispatch` at the end of the input. -/
theorem performs_peerDispatchEof (h : Good (.rest held false) b.core) (policy : Policy) (pending : Bool) :
    Performs ok held b (peerDispatchEof sizes b id policy pending) := by
  obtain ⟨hgoodbye, hclear⟩ : Moves ok (.rest held false, b) _ ∧ _ :=
    @moves_hangup ok held b id sizes h policy { b.connections id with hupIn := true } rfl
  rw [peerDispatchEof]
  obtain ⟨b₁, hb₁⟩ : ∃ b₁, b₁ = driverGoodbye sizes policy
    (b.setConnection id { b.connections id with hupIn := true }) id false := ⟨_, rfl⟩
  rw [← hb₁] at hgoodbye hclear ⊢
  have hshutdown : Bus.Sent b₁ [] (b₁.setConnection id (connectionShutdown (b₁.connections id))) :=
    .setConnection b₁ (hupIn_connectionShutdown _)
  have hmoves := hgoodbye.trans (moves_sent hshutdown rfl rfl)
  exact Moves.performs (hmoves.trans (moves_peerReap (h.moves hmoves) (hshutdown.core_eq ▸ hclear) rfl pending))

/-- `peer_dispatch` on a violation of the protocol. -/
theorem performs_peerDispatchViolation (h : Good (.rest held false) b.core) (policy : Policy) (pending : Bool) :
    Performs ok held b (peerDispatchViolation sizes b id policy pending) := by
  obtain ⟨hgoodbye, hclear⟩ : Moves ok (.rest held false, b) _ ∧ _ :=
    @moves_hangup ok held b id sizes h policy (connectionClose (b.connections id)) (hupIn_connectionShutdown _)
  rw [peerDispatchViolation]
  obtain ⟨b₁, hb₁⟩ : ∃ b₁, b₁ = driverGoodbye sizes policy
    (b.setConnection id (connectionClose (b.connections id))) id false := ⟨_, rfl⟩
  rw [← hb₁] at hgoodbye hclear ⊢
  exact Moves.performs (hgoodbye.trans (moves_peerReap (h.moves hgoodbye) hclear rfl pending))

/-- What comes after something that was done. -/
theorem Performs.trans {b'' : Bus} (h : Performs ok held b b') (hgood : Good (.rest held false) b.core)
    (h' : ∀ held', Good (.rest held' false) b'.core → Performs ok held' b' b'') : Performs ok held b b'' := by
  obtain ⟨held₁, hmoves, hleaks⟩ := h
  obtain ⟨held₂, hmoves', hleaks'⟩ := h' held₁ (hgood.moves hmoves)
  exact ⟨held₂, hmoves.trans hmoves', fun hno => (hleaks' hno).trans (hleaks hno)⟩

/-- A message that is answered with the disconnection of its sender. -/
theorem peerDispatchMessage_of_error {user : Uid} {m : Message} {body : Body} {outside : Outside} {e : DriverError}
    (hresult : driverDispatch sizes outside b id user (messageStitchSender m id) body = (b', some e)) (hfatal : e ≠ .fatal) :
    peerDispatchMessage sizes b id user m body outside =
      (peerDispatchViolation sizes b' id outside.policy outside.pending, false) := by
  rw [peerDispatchMessage, hresult]
  cases e with
  | fatal => exact absurd rfl hfatal
  | _ => rfl

/-- `peer_dispatch` of one message. -/
theorem performs_peerDispatchMessage (h : Good (.rest held false) b.core) (hpeer : (b.peers.find? id).isSome)
    (hhup : b.core.hup id = false) (user : Uid) {m : Message} {body : Body} (outside : Outside)
    (hmeets : Meets ok b id (messageStitchSender m id) body) :
    Performs ok held b (peerDispatchMessage sizes b id user m body outside).1 := by
  have hdispatch : Performs ok held b (driverDispatch sizes outside b id user (messageStitchSender m id) body).1 := by
    cases hmonitor : b.core.isMonitor id with
    | false => exact (Calling.mk h hpeer hhup hmonitor).performs_driverDispatch sizes outside user hmeets rfl
    | true =>
      rw [driverDispatch, if_pos (show b.isMonitor id = true from hmonitor)]
      exact performs_refl b
  cases hresult : driverDispatch sizes outside b id user (messageStitchSender m id) body with
  | mk b₁ e =>
    rw [hresult] at hdispatch
    have hviolation : ∀ held', Good (.rest held' false) b₁.core →
        Performs ok held' b₁ (peerDispatchViolation sizes b₁ id outside.policy outside.pending) :=
      fun held' hgood => performs_peerDispatchViolation sizes hgood outside.policy outside.pending
    cases e with
    | none =>
      rw [peerDispatchMessage, hresult]
      exact hdispatch
    | some e =>
      by_cases hfatal : e = .fatal
      · rw [peerDispatchMessage, hresult, hfatal]
        exact hdispatch
      · rw [peerDispatchMessage_of_error sizes hresult hfatal]
        dsimp only at hdispatch ⊢
        exact hdispatch.trans h hviolation

/-- `peer_registry_flush`. -/
theorem moves_peerRegistryFlush (h : Good (.rest held true) b.core) :
    Moves ok (.rest held true, b) (.rest held true, peerRegistryFlush sizes b) := by
  rw [peerRegistryFlush]
  generalize b.peers.keys = ids
  induction ids generalizing b with
  | nil => exact .refl
  | cons id rest ih =>
    obtain ⟨b₁, hb₁⟩ : ∃ b₁, b₁ = driverGoodbye sizes .permissive b id true := ⟨_, rfl⟩
    obtain ⟨hgoodbye, hleft⟩ : Moves ok (.rest held true, b) (.rest held true, driverGoodbye sizes .permissive b id true) ∧
        b.core.Left (driverGoodbye sizes .permissive b id true).core id :=
      moves_driverGoodbye sizes .permissive h (.inl rfl) rfl rfl rfl
    rw [← hb₁] at hgoodbye hleft
    have hmoves : Moves ok (.rest held true, b) (.rest held true, peerFree b₁ id) :=
      hgoodbye.trans (moves_peerFree (h.moves hgoodbye) hleft.clear rfl)
    rw [List.foldl_cons, ← hb₁]
    exact hmoves.trans (ih (h.moves hmoves))

end Peers

section Names

variable (sizes : Sizes)

/-- The activation of a name that is referred to, unless there is one. -/
theorem moves_activationInit (h : Good (.rest (holdMore held (some n)) false) b.core) (hn : (b.names.nameTree.find? n).isSome)
    (hnone : b.activations.find? path = none) (uid : Uid) {b₁ : Bus}
    (hb₁ : b₁ = match activationInit b.users b.names path n uid with
      | (users, names, some activation) => { b with users := users, names := names }.setActivation path activation
      | (_, _, none) => b) :
    Moves ok (.rest (holdMore held (some n)) false, b) (.rest (holdMore held (some n)) false, b₁) := by
  rw [activationInit] at hb₁
  cases hactivation : (b.names.nameTree.find? n).bind (·.activation) with
  | some other =>
    rw [hactivation] at hb₁
    rw [hb₁]
    exact .refl
  | none =>
    rw [hactivation] at hb₁
    have href : Moves ok (.rest (holdMore held (some n)) false, b)
        (.rest (holdMore (holdMore held (some n)) (some n)) false, { b with names := nameRef b.names n }) :=
      moves_nameRef h hn
    have hsame : nameActivation (nameRef b.names n) n = none :=
      (h.nameActivation_congr (h.moves href) rfl n).trans hactivation
    have hchange : Change ok (.rest (holdMore (holdMore held (some n)) (some n)) false) { b.core with names := nameRef b.names n } (.rest (holdMore held (some n)) false) b₁.core [] := by
      rw [hb₁]
      exact .addActivation (.rest (holdMore (holdMore held (some n)) (some n)) false) { b.core with names := nameRef b.names n }
        path n uid (holdMore held (some n)) hnone hsame rfl rfl
    exact href.tail (hchange.move_nil (by rw [hb₁]; rfl))

/-- `controller_add_name`. -/
theorem performs_controllerAddName (h : Good (.rest held false) b.core) (path name : Bytes) (uid : Uid) :
    Performs ok held b (controllerAddName b path name uid) := by
  have href : Moves ok (.rest held false, b) (.rest (holdMore held (some name)) false,
      { b with names := nameRegistryRefName b.names name, users := userRegistryRefUser b.users uid }) :=
    (moves_nameRegistryRefName h name).congr rfl rfl
  obtain ⟨b₁, hb₁⟩ : ∃ b₁, b₁ = { b with
    names := nameRegistryRefName b.names name, users := userRegistryRefUser b.users uid } := ⟨_, rfl⟩
  obtain ⟨b₂, hb₂⟩ : ∃ b₂, b₂ = if (b₁.activations.find? path).isSome then b₁
    else
      match activationInit b₁.users b₁.names path name uid with
      | (users, names, some activation) => { b₁ with users := users, names := names }.setActivation path activation
      | (_, _, none) => b₁ := ⟨_, rfl⟩
  have hresult : controllerAddName b path name uid =
      { b₂ with users := userUnref b₂.users uid, names := nameUnref b₂.idle b₂.names name } := by
    rw [hb₂, hb₁]
    rfl
  rw [← hb₁] at href
  have hadd : Moves ok (.rest held false, b) (.rest (holdMore held (some name)) false, b₂) := by
    rw [hb₂]
    split
    · exact href
    · next hnone =>
      refine href.trans (moves_activationInit (h.moves href) ?_ (Option.not_isSome_iff_eq_none.mp hnone) uid rfl)
      rw [hb₁]
      exact isSome_nameRegistryRefName b.names name
  rw [hresult]
  have hunref := hadd.trans (moves_nameUnref (h.moves hadd) rfl b₂.idle)
  exact Moves.performs (Moves.congr hunref rfl rfl)

/-- `controller_name_free` of a name that nothing waits for. -/
theorem performs_controllerNameFree (h : Good (.rest held false) b.core) (path : Bytes)
    (hcalm : ∀ a, b.activations.find? path = some a → a.requests = [] ∧ a.messages = []) :
    Performs ok held b (controllerNameFree b path) := by
  rw [controllerNameFree]
  cases hfind : b.activations.find? path with
  | none => exact performs_refl b
  | some a =>
    obtain ⟨hrequests, hmessages⟩ := hcalm a hfind
    dsimp only
    rw [activationDeinit, hrequests, hmessages]
    obtain ⟨b₁, hb₁⟩ : ∃ b₁, b₁ = { b with
      names := b.names.setActivation a.name none, activations := b.activations.erase path } := ⟨_, rfl⟩
    have hchange : Change ok (.rest held false) b.core (.rest (holdMore held (some a.name)) false) b₁.core [] := by
      rw [hb₁]
      exact .removeActivation (.rest held false) b.core path a hfind hrequests hmessages rfl
    have hremove : Moves ok (.rest held false, b) (.rest (holdMore held (some a.name)) false, b₁) :=
      .single (hchange.move_nil (by rw [hb₁]))
    have hunref := hremove.trans (moves_nameUnref (h.moves hremove) rfl b.idle)
    rw [hb₁] at hunref
    exact Moves.performs (Moves.congr hunref rfl rfl)

/-- `controller_method_name_release`. -/
theorem performs_controllerMethodNameRelease (h : Good (.rest held false) b.core) (path reason : Bytes)
    (hgiveUp : ∀ c, ok c (.giveUp path)) :
    Performs ok held b (controllerMethodNameRelease sizes b path reason) := by
  rw [controllerMethodNameRelease]
  cases hfind : b.activations.find? path with
  | none => exact performs_refl b
  | some a =>
    obtain ⟨hfail, hdone⟩ : Moves ok (.rest held false, b) (.rest held false, _) ∧ _ :=
      moves_driverNameActivationFailed sizes h path a.pending reason rfl rfl rfl rfl fun _ _ _ _ => hgiveUp
    refine (Moves.performs hfail).trans h fun held' hgood => performs_controllerNameFree hgood path fun a' ha' => ?_
    rw [hdone a hfind rfl] at ha'
    cases ha'
    exact ⟨rfl, rfl⟩

/-- `controller_dispatch_reply` and `controller_dispatch_error`. -/
theorem performs_controllerDispatchReload (b : Bus) (serial : UInt32) (valid : Bool) :
    Performs ok held b (controllerDispatchReload sizes b serial valid) := by
  rw [controllerDispatchReload]
  split
  · exact performs_refl b
  · next i r hreload =>
    cases r.senderId.bind (peerRegistryFindPeer b) with
    | none => exact (Bus.Sent.refl b).performs.congr rfl rfl
    | some sender =>
      dsimp only
      split
      · exact (sent_driverSendReply sizes b sender r.senderSerial []).performs.congr rfl rfl
      · exact (sent_driverSendError sizes b sender r.senderSerial _ _).performs.congr rfl rfl

end Names

section Connect

variable (sizes : Sizes)

/-- A new peer is not registered and no monitor. -/
theorem peerCharge_flags (users : UserRegistry) (user : Uid) :
    (peerCharge sizes users user).2.1.registered = false ∧ (peerCharge sizes users user).2.1.monitor = false := by
  rw [peerCharge]
  obtain ⟨users, bytes, r⟩ := userCharge users (some user) .init none userSlotBytes (UInt32.ofNat sizes.peer)
  cases r with
  | quota => exact ⟨rfl, rfl⟩
  | success =>
    dsimp only
    obtain ⟨users, fds, r⟩ := userCharge users (some user) .init none userSlotFds 1
    cases r <;> exact ⟨rfl, rfl⟩

/-- `peer_new_with_fd`. -/
theorem performs_peerNewWithFd (b : Bus) (uid : Uid) (admitted fdsAllowed : Bool) :
    Performs ok held b (peerNewWithFd sizes b uid admitted fdsAllowed).1 := by
  rw [peerNewWithFd]
  cases hcharge : peerCharge sizes (userRegistryRefUser b.users uid) uid with
  | mk users rest =>
    obtain ⟨peer, r⟩ := rest
    have hflags := peerCharge_flags sizes (userRegistryRefUser b.users uid) uid
    rw [hcharge] at hflags
    cases r with
    | quota => exact performs_congr rfl rfl
    | success =>
      dsimp only
      split
      · exact performs_congr rfl rfl
      · obtain ⟨c, hc⟩ : ∃ c : Connection, c = ⟨some uid, fdsAllowed, false, false, false, []⟩ := ⟨_, rfl⟩
        have hcore := Bus.core_setConnection { b with ids := b.ids + 1, peers := b.peers.insert b.ids peer } b.ids c
        have hchange : Change ok (.rest held false) b.core (.rest held false)
            (({ b with ids := b.ids + 1, peers := b.peers.insert b.ids peer } : Bus).setConnection b.ids c).core [] := by
          rw [hcore, hc]
          exact .connect (.rest held false) b.core peer hflags.1 hflags.2 rfl
        have hconnect : Moves ok (.rest held false, b) (.rest held false, _) := .single (hchange.move_nil rfl)
        rw [hc] at hconnect
        exact (Moves.performs hconnect).congr rfl rfl

end Connect

section Run

variable (sizes : Sizes)

/-- An event has leave for what it does. -/
def BrokerMeets (ok : Core → Leave → Prop) (s : Broker) : BrokerOp → Prop
  | .message id m body _ => Meets ok s.bus id m body
  | .releaseName path _ => ∀ c, ok c (.giveUp path)
  | .resetName path serial _ => ∀ a, s.bus.activations.find? path = some a → a.pending ≠ 0 → serial = a.pending →
    ∀ c, ok c (.giveUp path)
  | _ => True

/-- Sending does not end the input. -/
theorem hupIn_socketSent (users : UserRegistry) (c : Connection) : (socketSent users c).2.hupIn = c.hupIn := by
  rw [socketSent]
  split <;> rfl

/-- The end of the output does not end the input. -/
theorem hupIn_socketHangupOutput (users : UserRegistry) (c : Connection) :
    (socketHangupOutput users c).2.hupIn = c.hupIn := by
  rw [socketHangupOutput]
  split <;> rfl

/-- The end of the broker. -/
theorem moves_stop (h : Good (.rest held false) b.core) :
    Moves ok (.rest held false, b) (.rest held true, (Broker.stop sizes b).bus) := by
  have hsilence : Moves ok (.rest held false, b) (.rest held true, b) :=
    .single ((Change.silence (.rest held false) b.core).move_nil rfl)
  exact hsilence.trans (moves_peerRegistryFlush sizes (h.moves hsilence))

/-- An event at a broker that runs. -/
theorem moves_perform (h : Good (.rest held false) b.core) {op : BrokerOp} (hmeets : BrokerMeets ok ⟨b, true⟩ op) :
    ∃ held', Moves ok (.rest held false, b)
        (.rest held' (!(Broker.perform sizes b op).running), (Broker.perform sizes b op).bus) ∧
      (NoLeaks ok → held' = held) := by
  cases op with
  | connect uid admitted fdsAllowed => exact performs_peerNewWithFd sizes b uid admitted fdsAllowed
  | message id m body outside =>
    rw [Broker.perform]
    cases hpeer : b.peers.find? id with
    | none => exact performs_refl b
    | some peer =>
      dsimp only
      split
      · exact performs_refl b
      · next hhup =>
        have hmessage : Performs ok held b (peerDispatchMessage sizes b id peer.user m body outside).1 :=
          performs_peerDispatchMessage sizes h (Option.isSome_of_eq_some hpeer) (Bool.eq_false_iff.mpr hhup) peer.user
            outside ⟨hmeets.addMatch, hmeets.becomeMonitor⟩
        cases hresult : peerDispatchMessage sizes b id peer.user m body outside with
        | mk b₁ fatal =>
          rw [hresult] at hmessage
          cases fatal with
          | false => exact hmessage
          | true =>
            obtain ⟨held', hmoves, hleaks⟩ := hmessage
            exact ⟨held', hmoves.trans (moves_stop sizes (h.moves hmoves)), hleaks⟩
  | eof id policy pending =>
    rw [Broker.perform]
    split
    · exact performs_peerDispatchEof sizes h policy pending
    · exact performs_refl b
  | violation id policy pending =>
    rw [Broker.perform]
    split
    · dsimp only
      exact performs_peerDispatchViolation sizes h policy pending
    · exact performs_refl b
  | sent id =>
    exact Bus.Sent.performs ((Bus.Sent.setUsers b _).then_nil (.setConnection _ (hupIn_socketSent b.users (b.connections id))))
  | hangupOutput id =>
    exact Bus.Sent.performs
      ((Bus.Sent.setUsers b _).then_nil (.setConnection _ (hupIn_socketHangupOutput b.users (b.connections id))))
  | addName path name uid => exact performs_controllerAddName h path name uid
  | releaseName path reason => exact performs_controllerMethodNameRelease sizes h path reason hmeets
  | resetName path serial reason =>
    exact Moves.performs (moves_driverNameActivationFailed sizes h path serial reason rfl rfl rfl rfl hmeets).1
  | reloaded serial valid => exact performs_controllerDispatchReload sizes b serial valid
  | controllerSent => exact performs_congr rfl rfl
  | exit => exact ⟨held, moves_stop sizes h, fun _ => rfl⟩

/-- A core in which nothing is there yet is in order. -/
theorem good_of_empty {c : Core} (hpins : c.pins (fun _ => 0) = fun _ => 0) (hpeers : ∀ id, c.peers.find? id = none)
    (hmonitors : c.nMonitors = c.peers.total fun _ peer => if peer.monitor then 1 else 0) (hassert : c.assertFailed = false)
    (hnames : c.names = .init) (hrules : ∀ id, c.ownedMatches id = .empty) (hindexed : MatchIndexed Prod.snd c.matchIndex)
    (hlinks : ∀ rule, c.matchIndex.link rule = none) (hbooks : ReplyBooks c.replies)
    (hreplies : ∀ callee caller serial, ¬ c.replies.Outstanding callee caller serial)
    (hactivations : ∀ path, c.activations.find? path = none) :
    Good (.rest (fun _ => 0) false) c where
  peers :=
    { bound := fun id peer hpeer => absurd (hpeer.symm.trans (hpeers id)) (Option.some_ne_none peer)
      exclusive := fun id peer hpeer => absurd (hpeer.symm.trans (hpeers id)) (Option.some_ne_none peer)
      monitors := hmonitors
      asserts := hassert
      gone := fun id peer hpeer => absurd (hpeer.symm.trans (hpeers id)) (Option.some_ne_none peer) }
  names := by
    rw [show (Aux.rest (fun _ => 0) false).held = fun _ => 0 from rfl, hpins, hnames]
    exact nameBooks_init
  owners := fun n a ha => by
    rw [hnames] at ha
    exact absurd ha List.not_mem_nil
  rules :=
    { refs := fun id keys rule hrule => by
        rw [hrules, SearchTree.find?_empty] at hrule
        cases hrule
      holder := fun id hid => absurd (hrules id) hid }
  links :=
    { indexed := hindexed
      held := fun id keys l hl => absurd (hl.symm.trans (hlinks (id, keys))) (Option.some_ne_none l)
      kind := fun id keys l hl => absurd (hl.symm.trans (hlinks (id, keys))) (Option.some_ne_none l)
      sender := fun rule l id hl => absurd (hl.symm.trans (hlinks rule)) (Option.some_ne_none l)
      changed := fun rule l id hl => absurd (hl.symm.trans (hlinks rule)) (Option.some_ne_none l)
      named := fun id keys r hr => by
        rw [hrules, SearchTree.find?_empty] at hr
        cases hr }
  replies :=
    { books := hbooks
      callee := fun callee caller serial hout => absurd hout (hreplies callee caller serial)
      caller := fun callee caller serial hout => absurd hout (hreplies callee caller serial) }
  activations :=
    { forth := fun n path hpath => by
        rw [hnames] at hpath
        cases hpath
      back := fun path a ha => absurd (ha.symm.trans (hactivations path)) (Option.some_ne_none a)
      calm := fun path a ha => absurd (ha.symm.trans (hactivations path)) (Option.some_ne_none a)
      owned := fun path a ha => absurd (ha.symm.trans (hactivations path)) (Option.some_ne_none a) }

/-- A bus is in order at first. -/
theorem good_init (users : UserRegistry) (user : Uid) (controller : Connection) :
    Good (.rest (fun _ => 0) false) (Bus.init users user controller).core :=
  good_of_empty (funext fun _ => rfl) (fun _ => rfl) rfl rfl rfl (fun _ => rfl) (matchIndexed_init Prod.snd) (fun _ => rfl)
    replyBooks_init (fun _ _ _ => Bool.false_ne_true) fun _ => rfl

/-- An event, for everybody who follows the broker. -/
theorem moves_step {s : Broker} (h : Good (.rest held (!s.running)) s.bus.core) {op : BrokerOp}
    (hmeets : BrokerMeets ok s op) :
    ∃ held', Moves ok (.rest held (!s.running), s.bus)
        (.rest held' (!(Broker.step sizes s op).running), (Broker.step sizes s op).bus) ∧
      (NoLeaks ok → held' = held) := by
  obtain ⟨b, running⟩ := s
  cases running with
  | true => exact moves_perform sizes h hmeets
  | false => exact ⟨held, .refl, fun _ => rfl⟩

/-- A run, for everybody who follows the broker. -/
theorem moves_run {s : Broker} {ops : List BrokerOp} (h : Good (.rest held (!s.running)) s.bus.core)
    (hmeets : Machine.Along (Broker.step sizes) (BrokerMeets ok) s ops) :
    ∃ held', Moves ok (.rest held (!s.running), s.bus)
        (.rest held' (!(Machine.run (Broker.step sizes) s ops).running), (Machine.run (Broker.step sizes) s ops).bus) ∧
      (NoLeaks ok → held' = held) := by
  induction ops generalizing s held with
  | nil => exact ⟨held, .refl, fun _ => rfl⟩
  | cons op rest ih =>
    obtain ⟨held₁, hstep, hleaks₁⟩ := moves_step sizes h hmeets.1
    obtain ⟨held₂, hrest, hleaks₂⟩ := ih (h.moves hstep) hmeets.2
    exact ⟨held₂, hstep.trans hrest, fun hno => (hleaks₂ hno).trans (hleaks₁ hno)⟩

/-- Everything is allowed. -/
def anyRule (_ : Core) (_ : Leave) : Prop := True

/-- Everything meets no condition. -/
theorem brokerMeets_anyRule (s : Broker) (op : BrokerOp) : BrokerMeets anyRule s op := by
  cases op with
  | message => exact ⟨fun _ _ _ _ _ _ _ => trivial, fun _ _ _ _ _ _ _ _ _ _ _ _ => trivial⟩
  | releaseName => exact fun _ => trivial
  | resetName => exact fun _ _ _ _ _ => trivial
  | _ => trivial

/-- Every run of the broker is a sequence of moves. -/
theorem moves_anyRun {s : Broker} {held : Bytes → ℕ} (h : Good (.rest held (!s.running)) s.bus.core) (ops : List BrokerOp) :
    ∃ held', Moves anyRule (.rest held (!s.running), s.bus)
      (.rest held' (!(Machine.run (Broker.step sizes) s ops).running), (Machine.run (Broker.step sizes) s ops).bus) := by
  obtain ⟨held', hmoves, -⟩ := moves_run sizes h
    ((Machine.along_true s ops).imp fun s op _ => brokerMeets_anyRule s op)
  exact ⟨held', hmoves⟩

/-- The bus is in order in every state of every run. -/
theorem good_anyRun (users : UserRegistry) (user : Uid) (controller : Connection) (ops : List BrokerOp) :
    ∃ held, Good (.rest held (!(Machine.run (Broker.step sizes) (.init users user controller) ops).running))
      (Machine.run (Broker.step sizes) (.init users user controller) ops).bus.core := by
  have hinit : Good (.rest (fun _ => 0) (!(Broker.init users user controller).running))
      (Broker.init users user controller).bus.core := good_init users user controller
  obtain ⟨held, hmoves⟩ := moves_anyRun sizes hinit ops
  exact ⟨held, hinit.moves hmoves⟩

end Run

end DbusBroker
