import DbusBroker.Bus.MovesMethods

/-!
# The moves of a message

The dispatch of a message that a peer sent as moves of the bus: a method of the driver is
called, or the message is forwarded. A message may only ask for rules that may be added.
-/

namespace DbusBroker

open Std

variable {ok : Core → Leave → Prop} {held : Bytes → ℕ} {b b' : Bus} {id : ℕ}

section Forward

variable (sizes : Sizes) (outside : Outside) (serial : UInt32)

/-- The primary owner of a name is registered. -/
theorem Good.isRegistered_of_primary {x : Aux} {c : Core} (h : Good x c) {n : Bytes} {a : ℕ}
    (hprimary : (nameQueue c.names n).primary = some a) : c.isRegistered a = true := by
  refine h.owners n a ?_
  rw [OwnerQueue.primary, Option.map_eq_some_iff] at hprimary
  obtain ⟨e, he, rfl⟩ := hprimary
  exact List.mem_map_of_mem (List.mem_of_mem_head? he)

/-- Whoever is found by a name is registered. -/
theorem Good.isRegistered_of_busFindPeerByName {x : Aux} (h : Good x b.core) {name : Bytes} {receiver : ℕ} {y : Option Name}
    (hfind : busFindPeerByName b name = (some receiver, y)) : b.core.isRegistered receiver = true := by
  rw [busFindPeerByName] at hfind
  split at hfind
  · next a haddress =>
    have hfound : peerRegistryFindPeer b a = some receiver := (Prod.mk.inj hfind).1
    rw [peerRegistryFindPeer] at hfound
    split_ifs at hfound with hregistered
    cases hfound
    exact hregistered
  · next n haddress =>
    refine h.isRegistered_of_primary (n := n) ?_
    rw [(h.names.names n).primary_eq]
    exact (Prod.mk.inj hfind).1
  · cases hfind

/-- A name with an activation whose owner was not found has none. -/
theorem Good.of_busFindPeerByName_none {x : Aux} (h : Good x b.core) {name path : Bytes} {y : Option Name}
    (hfind : busFindPeerByName b name = (none, y)) (hactivation : y.bind (·.activation) = some path) :
    ∃ a, b.activations.find? path = some a ∧ (nameQueue b.names a.name).primary = none := by
  rw [busFindPeerByName] at hfind
  split at hfind
  · rw [← (Prod.mk.inj hfind).2] at hactivation
    cases hactivation
  · next n haddress =>
    obtain ⟨howner, rfl⟩ := Prod.mk.inj hfind
    obtain ⟨a, ha, rfl⟩ := h.activations.forth n path hactivation
    exact ⟨a, ha, ((h.names.names a.name).primary_eq).trans howner⟩
  · cases hfind
    cases hactivation

/-- `driver_forward_unicast`. -/
theorem Calling.performs_driverForwardUnicast (h : Calling held b id) (hregistered : b.core.isRegistered id = true)
    (user : Uid) (destination : Bytes) (m : Message) :
    Performs ok held b (driverForwardUnicast sizes outside b id user destination m).1 := by
  rw [driverForwardUnicast]
  cases hfind : busFindPeerByName b destination with
  | mk receiver y =>
    cases receiver with
    | some receiver =>
      exact Moves.performs (moves_peerQueueUnicast sizes outside.policy h.good user m
        (h.good.isRegistered_of_busFindPeerByName hfind) (fun _ => hregistered) rfl rfl rfl).1
    | none =>
      dsimp only
      split
      · exact performs_refl b
      · split
        · exact performs_refl b
        · next path hactivation =>
          obtain ⟨a, ha, hprimary⟩ := h.good.of_busFindPeerByName_none hfind hactivation
          exact Moves.performs (moves_busActivationQueueMessage sizes h.good ha hprimary rfl rfl rfl id user m)

/-- `driver_method_start_service_by_name`. -/
theorem Calling.performs_driverMethodStartServiceByName (h : Calling held b id) (service : Bytes) :
    Performs ok held b (driverMethodStartServiceByName sizes b id serial service).1 := by
  rw [driverMethodStartServiceByName]
  split
  · next path user hactivation huser =>
    split
    · exact (sent_driverSendReply sizes b id serial [.u 2]).performs
    · next hnone =>
      obtain ⟨a, ha, rfl⟩ := h.good.activations.forth service path hactivation
      have hprimary : (nameQueue b.names a.name).primary = none := by
        have hprimary := (h.good.names.names a.name).primary_eq
        rw [show namePrimary b.core.names a.name = none from Option.not_isSome_iff_eq_none.mp hnone] at hprimary
        exact hprimary
      exact Moves.performs (moves_busActivationQueueRequest sizes ha hprimary rfl rfl rfl id user serial)
  · exact performs_refl b

/-- A message to the controller. -/
theorem performs_controllerQueue (b : Bus) (actor : Option Uid) (metadata : MessageMetadata) (nData : ℕ) :
    Performs ok held b (controllerQueue sizes b actor metadata nData).1 := performs_congr rfl rfl

/-- `driver_method_update_activation_environment`. -/
theorem performs_driverMethodUpdateActivationEnvironment :
    Performs ok held b (driverMethodUpdateActivationEnvironment sizes outside b id serial).1 := by
  rw [driverMethodUpdateActivationEnvironment]
  split
  · exact performs_refl b
  · have hperforms : Performs ok held b _ :=
      performs_controllerQueue sizes b none controllerEnvironmentMetadata outside.environmentData
    cases hqueue : controllerQueue sizes b none controllerEnvironmentMetadata outside.environmentData with
    | mk b₁ r =>
      rw [hqueue] at hperforms
      cases r with
      | success => exact hperforms.sent (sent_driverSendReply sizes b₁ id serial [])
      | quota => exact hperforms
      | unexpectedFds => exact hperforms

/-- `driver_method_reload_config`. -/
theorem performs_driverMethodReloadConfig : Performs ok held b (driverMethodReloadConfig sizes b id serial).1 := by
  rw [driverMethodReloadConfig]
  obtain ⟨users, controller, reload, r⟩ := controllerReloadNew sizes b.users b.controller (some b.user) (b.userOf id)
  cases reload with
  | none => exact performs_congr rfl rfl
  | some reload =>
    obtain ⟨b₀, hb₀⟩ : ∃ b₀, b₀ = { b with
      users := users
      controller := { controller with
        reloads := controller.reloads.modify reload fun x => { x with senderId := some id, senderSerial := serial } } } :=
      ⟨_, rfl⟩
    have hqueue : Performs ok held b (controllerQueue sizes b₀ (b.userOf id) (controllerReloadMetadata controller.serial)
        (sizes.driverMessage (controllerReloadMetadata controller.serial))).1 := by
      rw [hb₀]
      exact performs_congr rfl rfl
    dsimp only
    rw [← hb₀]
    cases hresult : controllerQueue sizes b₀ (b.userOf id) (controllerReloadMetadata controller.serial)
        (sizes.driverMessage (controllerReloadMetadata controller.serial)) with
    | mk b₁ r' =>
      rw [hresult] at hqueue
      cases r' with
      | success => exact hqueue
      | quota => exact hqueue.congr rfl rfl
      | unexpectedFds => exact hqueue.congr rfl rfl

/-- `driver_method_set` does nothing. -/
@[simp] theorem bus_driverMethodSet (b : Bus) (body : VerifiedBody (lit "ssv")) : (driverMethodSet b body).1 = b := by
  rw [driverMethodSet]
  cases driverEndRead (driverReadSet body.bigEndian ⟨0, body.data⟩) with
  | error e => rfl
  | ok read =>
    dsimp only
    split_ifs <;> rfl

/-- A method that only reads the bus. -/
theorem performs_driverMethodQuery : Performs ok held b (driverMethodQuery sizes outside b id serial).1 := by
  rw [driverMethodQuery]
  split
  · exact performs_refl b
  · exact (sent_driverSendReplyWithFds sizes b id serial _ _).performs

/-- The messages that are forwarded. -/
theorem Calling.performs_driverForward (h : Calling held b id) (hregistered : b.core.isRegistered id = true)
    (user : Uid) (m : Message) : Performs ok held b (driverForward sizes outside b id user m).1 := by
  rw [driverForward]
  cases m.metadata.destination with
  | none =>
    dsimp only
    split
    · rw [driverForwardBroadcast]
      exact (Bus.Sent.foldl (fun b receiver => sent_peerDeliver sizes b receiver m) _ b).performs
    · exact performs_refl b
  | some destination =>
    dsimp only
    split
    · exact h.performs_driverForwardUnicast sizes outside hregistered user destination m
    · split
      · have hreply : Moves ok (.rest held false, b) _ :=
          moves_peerQueueReply sizes h.good id destination m.metadata.replySerial m rfl rfl
        split
        · next b₁ heq => exact Moves.performs (by rw [heq] at hreply; exact hreply)
        · next b₁ r' _ heq => exact Moves.performs (by rw [heq] at hreply; exact hreply)
      · exact performs_refl b

end Forward

section Dispatch

variable (sizes : Sizes) (outside : Outside)

/-- A message calls a method of an interface of the driver. -/
def callsDriver (m : Message) (interface member : Bytes) : Bool :=
  m.metadata.type = dbusMessageTypeMethodCall && m.metadata.destination = some driverName &&
    m.metadata.interface.all (· = interface) && m.metadata.member = some member

/-- The interface of `BecomeMonitor`. -/
def monitoringName : Bytes := lit "org.freedesktop.DBus.Monitoring"

/-- Every rule that a message adds may be added. -/
structure Meets (ok : Core → Leave → Prop) (b : Bus) (id : ℕ) (m : Message) (body : Body) : Prop where
  addMatch : callsDriver m driverName (lit "AddMatch") = true → b.core.isRegistered id = true → ∀ string, body = .s string →
    ∀ keys, matchKeysParse string false = .ok keys → ∀ w, ok { b.core with names := w } (.rule id keys false)
  becomeMonitor : callsDriver m monitoringName (lit "BecomeMonitor") = true → b.core.isRegistered id = true →
    ∀ strings, body = .asu strings 0 → peerIsPrivileged b id = true →
      (∀ string ∈ monitorStrings strings, ∃ keys, matchKeysParse string true = .ok keys) →
        ∀ string ∈ monitorStrings strings, ∀ keys, matchKeysParse string true = .ok keys →
          ∀ c, b.core.Watched c id → ok c (.rule id keys true)

/-- What may be added does not depend on what was sent. -/
theorem Meets.sent {m : Message} {body : Body} (h : Meets ok b id m body) (hsent : Bus.Sent b [] b') :
    Meets ok b' id m body := by
  have hcore := hsent.core_eq
  have hprivileged : peerIsPrivileged b' id = peerIsPrivileged b id := by
    obtain ⟨users, connections, events, -, -, rfl⟩ := hsent
    rfl
  refine ⟨?_, ?_⟩
  · rw [hcore]
    exact h.addMatch
  · rw [hcore, hprivileged]
    exact h.becomeMonitor

/-- Call the function behind a method. -/
theorem Calling.performs_driverCall (h : Calling held b id) (handler : DriverHandler) (serial : UInt32) (body : Body)
    (hregistered : handler ≠ .hello → b.core.isRegistered id = true)
    (hadd : handler = .addMatch → ∀ string, body = .s string →
      ∀ keys, matchKeysParse string false = .ok keys → ∀ w, ok { b.core with names := w } (.rule id keys false))
    (hmonitor : handler = .becomeMonitor → ∀ strings, body = .asu strings 0 → peerIsPrivileged b id = true →
      (∀ string ∈ monitorStrings strings, ∃ keys, matchKeysParse string true = .ok keys) →
        ∀ string ∈ monitorStrings strings, ∀ keys, matchKeysParse string true = .ok keys →
          ∀ c, b.core.Watched c id → ok c (.rule id keys true)) :
    Performs ok held b (driverCall sizes outside b id handler serial body).1 := by
  rw [driverCall.eq_def]
  split
  · exact h.performs_driverMethodHello sizes outside serial
  · next string => exact h.performs_driverMethodAddMatch sizes serial (hregistered nofun) string (hadd rfl string rfl)
  · next string => exact h.performs_driverMethodRemoveMatch sizes serial (hregistered nofun) string
  · next name flags => exact h.performs_driverMethodRequestName sizes outside serial (hregistered nofun) name flags
  · next name => exact h.performs_driverMethodReleaseName sizes outside serial name
  · next service _ => exact h.performs_driverMethodStartServiceByName sizes serial service
  · exact performs_driverMethodUpdateActivationEnvironment sizes outside serial
  · exact performs_driverMethodReloadConfig sizes serial
  · next strings flags =>
    refine h.performs_driverMethodBecomeMonitor sizes outside serial strings flags fun hprivileged hflags => ?_
    rw [hflags] at hmonitor
    exact hmonitor rfl strings rfl hprivileged
  · next body =>
    rw [bus_driverMethodSet]
    exact performs_refl b
  · exact performs_driverMethodQuery sizes outside serial
  · exact performs_refl b

/-- `driver_dispatch_method`, in a table where only `Hello` is for everybody. -/
theorem Calling.performs_driverDispatchMethod (h : Calling held b id) {m : Message} {body : Body} (hmeets : Meets ok b id m body)
    {methods : List DriverMethod} (hneeds : ∀ method ∈ methods, method.handler ≠ .hello → method.needsRegistration = true)
    (hadd : ∀ method ∈ methods, method.handler = .addMatch → some method.name = m.metadata.member →
      callsDriver m driverName (lit "AddMatch") = true)
    (hmonitor : ∀ method ∈ methods, method.handler = .becomeMonitor → some method.name = m.metadata.member →
      callsDriver m monitoringName (lit "BecomeMonitor") = true) :
    Performs ok held b (driverDispatchMethod sizes outside b id methods m body).1 := by
  rw [driverDispatchMethod]
  cases hfind : methods.find? fun method =>
      some method.name = m.metadata.member && (b.isRegistered id || !method.needsRegistration) with
  | none => exact performs_refl b
  | some method =>
    have hmem := List.mem_of_find?_eq_some hfind
    have hfound := List.find?_some hfind
    simp only [Bool.and_eq_true, decide_eq_true_eq, Bool.or_eq_true, Bool.not_eq_true'] at hfound
    obtain ⟨hname, haccess⟩ := hfound
    have hregistered : method.handler ≠ .hello → b.core.isRegistered id = true := by
      intro hhello
      obtain hregistered | hneedless := haccess
      · exact hregistered
      · rw [hneeds method hmem hhello] at hneedless
        cases hneedless
    show Performs ok held b (driverHandleMethod sizes outside b id method m body).1
    rw [driverHandleMethod]
    split
    · exact performs_refl b
    · split
      · exact performs_refl b
      · refine h.performs_driverCall sizes outside method.handler _ body hregistered ?_ ?_
        · intro hhandler
          exact hmeets.addMatch (hadd method hmem hhandler hname) (hregistered (by rw [hhandler]; exact nofun))
        · intro hhandler
          exact hmeets.becomeMonitor (hmonitor method hmem hhandler hname) (hregistered (by rw [hhandler]; exact nofun))

/-- The tables of the driver: only `Hello` is for everybody, and rules are added by two methods only. -/
theorem driverInterfaces_methods : ∀ i ∈ driverInterfaces, ∀ method ∈ i.2,
    (method.handler ≠ .hello → method.needsRegistration = true) ∧
      (method.handler = .addMatch → i.1 = driverName ∧ method.name = lit "AddMatch") ∧
      (method.handler = .becomeMonitor → i.1 = monitoringName ∧ method.name = lit "BecomeMonitor") := by
  simp [driverInterfaces, driverMethods, monitoringMethods, introspectableMethods, peerMethods, propertiesMethods,
    debugStatsMethods, monitoringName]

/-- The methods that every peer has only read the bus. -/
theorem handler_peerMethods : ∀ method ∈ peerMethods, method.handler = .query ∧ method.needsRegistration = true := by
  simp [peerMethods]

/-- `driver_dispatch_method`, in a table of the driver. -/
theorem Calling.performs_interface (h : Calling held b id) {m : Message} {body : Body} (hmeets : Meets ok b id m body)
    (htype : m.metadata.type = dbusMessageTypeMethodCall) (hdestination : m.metadata.destination = some driverName)
    {i : Bytes × List DriverMethod} (hi : i ∈ driverInterfaces) (hinterface : m.metadata.interface.all (· = i.1) = true) :
    Performs ok held b (driverDispatchMethod sizes outside b id i.2 m body).1 := by
  have hcalls : ∀ member, some member = m.metadata.member → callsDriver m i.1 member = true := by
    intro member hmember
    rw [callsDriver, htype, hdestination, hinterface, ← hmember]
    simp
  refine h.performs_driverDispatchMethod sizes outside hmeets (fun method hmethod => ?_) (fun method hmethod => ?_)
    fun method hmethod => ?_
  · exact (driverInterfaces_methods i hi method hmethod).1
  · intro hhandler hname
    obtain ⟨hi, hmember⟩ := (driverInterfaces_methods i hi method hmethod).2.1 hhandler
    rw [← hi, ← hmember]
    exact hcalls _ hname
  · intro hhandler hname
    obtain ⟨hi, hmember⟩ := (driverInterfaces_methods i hi method hmethod).2.2 hhandler
    rw [← hi, ← hmember]
    exact hcalls _ hname

/-- `driver_dispatch_interface`. -/
theorem Calling.performs_driverDispatchInterface (h : Calling held b id) {m : Message} {body : Body}
    (hmeets : Meets ok b id m body) (hdestination : m.metadata.destination = some driverName) :
    Performs ok held b (driverDispatchInterface sizes outside b id m body).1 := by
  rw [driverDispatchInterface]
  split
  · exact performs_refl b
  · next htype =>
    rw [ne_eq, not_not] at htype
    cases hinterface : m.metadata.interface with
    | some interface =>
      dsimp only
      cases hfind : driverInterfaces.find? fun i => i.1 = interface with
      | none => exact performs_refl b
      | some i =>
        have hi := List.find?_some hfind
        refine h.performs_interface sizes outside hmeets htype hdestination (List.mem_of_find?_eq_some hfind) ?_
        rw [hinterface, Option.all_some, decide_eq_true (of_decide_eq_true hi).symm]
    | none =>
      have hall : ∀ l, (∀ i ∈ l, i ∈ driverInterfaces) → Performs ok held b (driverDispatchAny sizes outside b id m body l).1 := by
        intro l hl
        induction l with
        | nil => exact performs_refl b
        | cons i rest ih =>
          have hfirst := h.performs_interface sizes outside hmeets htype hdestination (hl i List.mem_cons_self)
            (by rw [hinterface]; rfl)
          rw [driverDispatchAny]
          split
          · exact ih fun j hj => hl j (List.mem_cons_of_mem _ hj)
          · exact hfirst
      exact hall _ fun _ hi => hi

/-- `driver_dispatch_internal`. -/
theorem Calling.performs_driverDispatchInternal (h : Calling held b id) (user : Uid) {m : Message} {body : Body}
    (hmeets : Meets ok b id m body) (hsender : m.metadata.senderId = some id) :
    Performs ok held b (driverDispatchInternal sizes outside b id user m body).1 := by
  have hmonitor := sent_driverMonitor sizes b (some id) m hsender
  rw [driverDispatchInternal]
  obtain ⟨b₁, hb₁⟩ : ∃ b₁, b₁ = driverMonitor sizes b (some id) m := ⟨_, rfl⟩
  rw [← hb₁] at hmonitor ⊢
  have hcalling := h.sent hmonitor
  have hmeets₁ := hmeets.sent hmonitor
  refine hmonitor.then_performs ?_
  split
  · split
    · exact performs_refl b₁
    · refine hcalling.performs_driverDispatchMethod sizes outside hmeets₁ (fun method hmethod _ => ?_)
        (fun method hmethod hhandler => ?_) fun method hmethod hhandler => ?_
      · exact (handler_peerMethods method hmethod).2
      · rw [(handler_peerMethods method hmethod).1] at hhandler
        cases hhandler
      · rw [(handler_peerMethods method hmethod).1] at hhandler
        cases hhandler
  · split
    · next hdestination =>
      have hinterface := hcalling.performs_driverDispatchInterface sizes outside hmeets₁ hdestination
      cases hresult : driverDispatchInterface sizes outside b₁ id m body with
      | mk b₂ e =>
        rw [hresult] at hinterface
        cases e with
        | none => exact hinterface
        | some e =>
          dsimp only
          split
          · exact hinterface
          · exact hinterface
    · split
      · exact performs_refl b₁
      · next hregistered =>
        have hthere : b₁.isRegistered id = true := by simpa using hregistered
        exact hcalling.performs_driverForward sizes outside hthere user m

/-- `driver_dispatch`. -/
theorem Calling.performs_driverDispatch (h : Calling held b id) (user : Uid) {m : Message} {body : Body}
    (hmeets : Meets ok b id m body) (hsender : m.metadata.senderId = some id) :
    Performs ok held b (driverDispatch sizes outside b id user m body).1 := by
  have hinternal := h.performs_driverDispatchInternal sizes outside user hmeets hsender
  rw [driverDispatch]
  split
  · exact performs_refl b
  · cases hresult : driverDispatchInternal sizes outside b id user m body with
    | mk b₁ e =>
      rw [hresult] at hinternal
      cases e with
      | none => exact hinternal
      | some e =>
        dsimp only
        split
        · exact hinternal.sent (sent_driverSendError sizes b₁ id _ _ _)
        · exact hinternal

end Dispatch

end DbusBroker
