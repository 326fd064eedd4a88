import DbusBroker.Broker.Bills
import DbusBroker.Broker.BrokerMoves
import DbusBroker.Dbus.Marshalling

/-!
# Messages that end the broker

The dispatch of a message ends with an error for the sender, with an error that disconnects
the sender, or with a fatal one that ends the broker. The fatal ones are those of a quota
that nobody translates: of the rules of a new monitor, and of the connection of the
controller when it is told about an activation or about its environment. A property that is
set to a value of many levels is fatal, too: the driver reads the value one level deeper than
the parser that accepted it.
-/

namespace DbusBroker

open Std Budget

variable (sizes : Sizes) (outside : Outside) {b : Bus} {id : ℕ} {held : Bytes → ℕ} {budget : Uid × ℕ → ℕ}

section Condition

/-- The interface of properties. -/
def propertiesName : Bytes := lit "org.freedesktop.DBus.Properties"

/-- The value of a property has more levels than the driver reads. -/
def VerifiedBody.TooDeep (body : VerifiedBody (lit "ssv")) : Prop :=
  ¬ AlignedReader.Consecutive (Wire.Marshalled body.bigEndian (cDvarTypeDepthMax - 2)) (cDvarTypes (lit "ssv")) 0 body.data

/-- The user of the controller cannot pay for a message to the controller. -/
def ControllerFull (budget : Uid × ℕ → ℕ) (b : Bus) (metadata : MessageMetadata) (nData : ℕ) : Prop :=
  ¬ Covers budget (connectionBill sizes b.controllerConnection ⟨metadata, nData, 0⟩)

/-- An activation would have to be asked for, and the controller cannot be sent the message. -/
def ActivationStuck (budget : Uid × ℕ → ℕ) (b : Bus) (path : Bytes) : Prop :=
  (∃ a, b.activations.find? path = some a ∧ a.pending = 0) ∧
    ControllerFull sizes budget b (controllerActivateMetadata path) (sizes.driverMessage (controllerActivateMetadata path))

/-- A message that cannot be dealt with, given what is left of the quotas. -/
inductive Exhausts (budget : Uid × ℕ → ℕ) (b : Bus) (id : ℕ) (m : Message) (body : Body) : Prop
  /-- The rules of a new monitor exceed the quota of its user. -/
  | monitor (strings : List Bytes) (flags : UInt32)
      (hcalls : callsDriver m monitoringName (lit "BecomeMonitor") = true) (hpath : m.metadata.path = some driverPath)
      (hregistered : b.isRegistered id = true) (hbody : body = .asu strings flags) (hprivileged : peerIsPrivileged b id = true)
      (heavesdrop : outside.eavesdrop = true) (hrules : RulesExceed sizes (b.userOf id) budget [] (monitorStrings strings))
  /-- A property is set to a value that is too deep. -/
  | set (value : VerifiedBody (lit "ssv")) (hcalls : callsDriver m propertiesName (lit "Set") = true)
      (hpath : m.metadata.path = some driverPath) (hregistered : b.isRegistered id = true) (hbody : body = .ssv value)
      (hdeep : value.TooDeep)
  /-- The controller cannot be told the environment. -/
  | environment (hcalls : callsDriver m driverName (lit "UpdateActivationEnvironment") = true)
      (hpath : m.metadata.path = some driverPath) (hregistered : b.isRegistered id = true)
      (hbody : body.signature = lit "a\x7bss\x7d") (hprivileged : peerIsPrivileged b id = true)
      (hfull : ControllerFull sizes budget b controllerEnvironmentMetadata outside.environmentData)
  /-- The controller cannot be asked to start a service. -/
  | service (name path : Bytes) (flags : UInt32) (hcalls : callsDriver m driverName (lit "StartServiceByName") = true)
      (hregistered : b.isRegistered id = true) (hbody : body = .su name flags)
      (hactivation : nameActivation b.names name = some path) (hprimary : namePrimary b.names name = none)
      (hstuck : ActivationStuck sizes budget b path)
  /-- The controller cannot be asked to start the service that a message is for. -/
  | message (destination path : Bytes) (name : Name)
      (htype : m.metadata.type = dbusMessageTypeSignal ∨ m.metadata.type = dbusMessageTypeMethodCall)
      (hdestination : m.metadata.destination = some destination) (hdriver : destination ≠ driverName)
      (hregistered : b.isRegistered id = true) (hflags : m.metadata.flags &&& dbusHeaderFlagNoAutoStart = 0)
      (hname : busFindPeerByName b destination = (none, some name)) (hactivation : name.activation = some path)
      (hstuck : ActivationStuck sizes budget b path)

end Condition

section Activation

/-- `activation_request` fails if it has to ask and cannot. -/
theorem busActivationRequest_ne_success (hlive : b.users.accounts.Live) {path : Bytes} {a : Activation}
    (hfind : b.activations.find? path = some a) :
    (busActivationRequest sizes b path a).2 ≠ .success ↔ ActivationStuck sizes b.users.balances b path := by
  rw [busActivationRequest]
  split
  · next hpending =>
    refine iff_of_false (fun hne => hne rfl) ?_
    rintro ⟨⟨a', ha', hzero⟩, -⟩
    rw [hfind] at ha'
    cases ha'
    exact hpending hzero
  · next hpending =>
    have hfull := controllerQueue_ne_success_iff (b := b) sizes hlive (controllerActivateMetadata path)
      (sizes.driverMessage (controllerActivateMetadata path))
    exact ⟨fun hne => ⟨⟨a, hfind, not_not.mp hpending⟩, hfull.mp hne⟩, fun hstuck => hfull.mpr hstuck.2⟩

/-- `activation_queue_request` is fatal if the controller cannot be asked. -/
theorem busActivationQueueRequest_fatal (hlive : b.users.accounts.Live) {path : Bytes} {a : Activation}
    (hfind : b.activations.find? path = some a) (user : Uid) (serial : UInt32) :
    (busActivationQueueRequest sizes b path id user serial).2 = some .fatal ↔
      ActivationStuck sizes b.users.balances b path := by
  rw [← busActivationRequest_ne_success sizes hlive hfind, busActivationQueueRequest, hfind]
  dsimp only
  cases busActivationRequest sizes b path a with
  | mk b₁ r =>
    cases r with
    | success =>
      dsimp only
      refine iff_of_false ?_ (fun hne => hne rfl)
      split <;> simp
    | quota => exact iff_of_true rfl (by simp)
    | unexpectedFds => exact iff_of_true rfl (by simp)

/-- `activation_queue_message` is fatal if the controller cannot be asked. -/
theorem busActivationQueueMessage_fatal (hlive : b.users.accounts.Live) {path : Bytes} {a : Activation}
    (hfind : b.activations.find? path = some a) (user : Uid) (m : Message) :
    (busActivationQueueMessage sizes b path id user m).2 = some .fatal ↔
      ActivationStuck sizes b.users.balances b path := by
  rw [← busActivationRequest_ne_success sizes hlive hfind, busActivationQueueMessage, hfind]
  dsimp only
  cases busActivationRequest sizes b path a with
  | mk b₁ r =>
    cases r with
    | success =>
      dsimp only
      refine iff_of_false ?_ (fun hne => hne rfl)
      split <;> simp
    | quota => exact iff_of_true rfl (by simp)
    | unexpectedFds => exact iff_of_true rfl (by simp)

end Activation

section Set

open AlignedReader Wire

/-- The driver reads a property and its value if the value is not too deep. -/
theorem exists_driverEndRead_iff (body : VerifiedBody (lit "ssv")) :
    (∃ x, driverEndRead (driverReadSet body.bigEndian ⟨0, body.data⟩) = .ok x) ↔ ¬ body.TooDeep := by
  obtain ⟨bigEndian, data, -⟩ := body
  rw [VerifiedBody.TooDeep, not_not]
  have haccepts := (accepts_cDvarReadData 3 0).bind fun _ => (accepts_cDvarReadString bigEndian (byte 's')).bind
    fun interface => (accepts_cDvarReadString bigEndian (byte 's')).bind fun property => accepts_cDvarReadType.bind
      fun type => (accepts_cDvarSkip bigEndian (cDvarTypeDepthMax - 3) type).bind fun _ => Accepts.pure (interface, property)
  have hstring : ∀ o used, Marshalled bigEndian (cDvarTypeDepthMax - 2) (lit "s") o used ↔
      ∃ str, MarshalledString bigEndian (byte 's') o used str := fun o used =>
    marshalled_string_iff (by decide) o used
  have hstart : padding 3 0 = [] := rfl
  show _ ↔ Consecutive (Marshalled bigEndian (cDvarTypeDepthMax - 2)) [lit "s", lit "s", lit "v"] 0 data
  constructor
  · rintro ⟨x, hx⟩
    cases hread : driverReadSet bigEndian ⟨0, data⟩ with
    | error e =>
      rw [hread] at hx
      cases hx
    | ok result =>
      obtain ⟨x', c⟩ := result
      rw [hread, driverEndRead] at hx
      split at hx
      · next hend =>
        obtain ⟨used, hrest, -, u, v, d, rfl, ⟨hd, rfl⟩, v₁, v₂, interface, rfl, hinterface, v₃, v₄, property, rfl,
          hproperty, v₅, v₆, type, rfl, ⟨size, rfl, hlen, htype⟩, v₇, v₈, _, rfl, hvalue, rfl, -⟩ :=
          (haccepts _ _ _).mp hread
        obtain rfl := List.length_eq_zero_iff.mp hd
        dsimp only at hrest hinterface hproperty hvalue
        rw [hstart] at hrest hinterface hproperty hvalue
        rw [List.isEmpty_iff.mp hend, List.append_nil] at hrest
        refine ⟨v₁, _, hrest, (hstring _ _).mpr ⟨interface, hinterface⟩, v₃, _, rfl, (hstring _ _).mpr ⟨property, hproperty⟩,
          _, [], ?_, .inr (.variant rfl hlen htype hvalue), rfl⟩
        rw [List.append_nil, List.append_nil]
      · cases hx
  · rintro ⟨v₁, v₂, rfl, hinterface, v₃, v₄, rfl, hproperty, v₅, v₆, rfl, hvariant, rfl⟩
    obtain ⟨interface, hinterface⟩ := (hstring _ _).mp hinterface
    obtain ⟨property, hproperty⟩ := (hstring _ _).mp hproperty
    obtain hbasic | hcontainer := hvariant
    · exact absurd (by decide) hbasic.not_container
    · cases hcontainer with
      | array hc => exact absurd hc (by decide)
      | tuple hc => exact absurd hc (by decide)
      | @variant size type value _ hlen htype hvalue =>
        have hread := (haccepts ⟨0, v₁ ++ (v₃ ++ ([size] ++ (type ++ [0]) ++ value ++ []))⟩ (interface, property)
          ⟨(v₁ ++ (v₃ ++ ([size] ++ (type ++ [0]) ++ value ++ []))).length, []⟩).mpr ⟨_, (List.append_nil _).symm,
            (Nat.zero_add _).symm, [], _, [], rfl, ⟨rfl, (congrArg (· ++ []) hstart).symm⟩, v₁, _, interface, rfl, hinterface, v₃, _, property, rfl,
            hproperty, _, _, type, List.append_assoc _ _ _, ⟨size, rfl, hlen, htype⟩, value, [], (), rfl, hvalue, rfl, rfl⟩
        refine ⟨(interface, property), ?_⟩
        show driverEndRead (driverReadSet bigEndian _) = _
        rw [show driverReadSet bigEndian _ = _ from hread]
        rfl

/-- `driver_method_set` fails for good if the value is too deep. -/
theorem driverMethodSet_fatal (body : VerifiedBody (lit "ssv")) :
    (driverMethodSet b body).2 = some .fatal ↔ body.TooDeep := by
  have hread := exists_driverEndRead_iff body
  rw [driverMethodSet]
  rcases hresult : driverEndRead (driverReadSet body.bigEndian ⟨0, body.data⟩) with e | ⟨interface, property⟩
  · have hfatal : e = .fatal := by
      rw [driverEndRead.eq_def] at hresult
      split at hresult
      · split at hresult
        · cases hresult
        · cases hresult
          rfl
      · cases hresult
        rfl
    rw [hresult] at hread
    rw [hfatal]
    refine iff_of_true rfl (by_contra fun hdeep => ?_)
    obtain ⟨x, hx⟩ := hread.mpr hdeep
    cases hx
  · rw [hresult] at hread
    refine iff_of_false ?_ (hread.mp ⟨_, rfl⟩)
    dsimp only
    split_ifs
    all_goals
      intro hfatal
      cases hfatal

end Set

section Methods

variable (serial : UInt32)

/-- What makes the function behind a method fail for good. -/
def HandlerExhausts (budget : Uid × ℕ → ℕ) (b : Bus) (id : ℕ) : DriverHandler → Body → Prop
  | .startServiceByName, .su name _ => ∃ path, nameActivation b.names name = some path ∧
      namePrimary b.names name = none ∧ ActivationStuck sizes budget b path
  | .updateActivationEnvironment, _ =>
    peerIsPrivileged b id = true ∧ ControllerFull sizes budget b controllerEnvironmentMetadata outside.environmentData
  | .becomeMonitor, .asu strings _ => (peerIsPrivileged b id = true ∧ outside.eavesdrop = true) ∧
      RulesExceed sizes (b.userOf id) budget [] (monitorStrings strings)
  | .set, .ssv value => value.TooDeep
  | _, _ => False

/-- `driver_method_request_name` does not fail for good. -/
theorem Calling.driverMethodRequestName_not_fatal (h : Calling held b id) (name : Bytes) (flags : UInt32) :
    (driverMethodRequestName sizes outside b id serial name flags).2 ≠ some .fatal := by
  have hbooks : NameBooks b.names (b.core.pins held) := h.good.names
  obtain ⟨users', w', hrequest, -⟩ := nameRegistryRequestName_spec b.idle b.users id (b.userOf id) flags
    (hbooks.names name) hbooks.fresh fun a ha => (hbooks.counted ha).2
  have hreply : ∀ e, requestNameReply ((nameQueue b.names name).requestWithin (ownershipAdmitted b.users (b.userOf id))
      id flags).2.toPeer = .error e → e = .quota := by
    intro e he
    rw [OwnerQueue.requestWithin] at he
    split_ifs at he
    · exact absurd he (requestNameReply_request _ flags e)
    · cases he
      rfl
  rw [driverMethodRequestName, peerRequestName]
  split_ifs
  · simp
  · intro hfatal
    cases hfatal
  · intro hfatal
    cases hfatal
  · intro hfatal
    cases hfatal
  · rw [hrequest]
    dsimp only
    cases hresult : requestNameReply ((nameQueue b.names name).requestWithin (ownershipAdmitted b.users (b.userOf id))
        id flags).2.toPeer with
    | ok reply => simp
    | error e =>
      rw [hreply e hresult]
      simp

/-- `driver_method_release_name` does not fail for good. -/
theorem driverMethodReleaseName_not_fatal (name : Bytes) :
    (driverMethodReleaseName sizes outside b id serial name).2 ≠ some .fatal := by
  rw [driverMethodReleaseName, peerReleaseName, nameRegistryReleaseName]
  split_ifs
  · simp
  · intro hfatal
    cases hfatal
  · intro hfatal
    cases hfatal
  · cases namePrimary b.names name with
    | none =>
      intro hfatal
      cases hfatal
    | some p =>
      dsimp only
      cases (b.names.owners id).ownershipTree.find? name with
      | none =>
        intro hfatal
        cases hfatal
      | some i =>
        intro hfatal
        cases hfatal

/-- `driver_method_add_match` does not fail for good. -/
theorem driverMethodAddMatch_not_fatal (string : Bytes) :
    (driverMethodAddMatch sizes b id serial string).2 ≠ some .fatal := by
  rw [driverMethodAddMatch]
  split <;> simp

/-- `driver_method_remove_match` does not fail for good. -/
theorem driverMethodRemoveMatch_not_fatal (string : Bytes) :
    (driverMethodRemoveMatch sizes b id serial string).2 ≠ some .fatal := by
  rw [driverMethodRemoveMatch]
  split <;> simp

/-- `driver_method_hello` does not fail for good. -/
theorem driverMethodHello_not_fatal : (driverMethodHello sizes outside b id serial).2 ≠ some .fatal := by
  rw [driverMethodHello]
  split <;> simp

/-- `driver_method_reload_config` does not fail for good. -/
theorem driverMethodReloadConfig_not_fatal : (driverMethodReloadConfig sizes b id serial).2 ≠ some .fatal := by
  rw [driverMethodReloadConfig]
  obtain ⟨users, controller, reload, r⟩ := controllerReloadNew sizes b.users b.controller (some b.user) (b.userOf id)
  cases reload with
  | none => simp
  | some reload =>
    dsimp only
    split <;> simp

/-- A method that only reads the bus does not fail for good. -/
theorem driverMethodQuery_not_fatal : (driverMethodQuery sizes outside b id serial).2 ≠ some .fatal := by
  rw [driverMethodQuery]
  cases hanswer : outside.answer with
  | ok answer => simp
  | error e =>
    intro he
    have hname := outside.answerable e hanswer
    rw [Option.some.inj he] at hname
    cases hname

/-- `driver_method_update_activation_environment` fails for good if the controller cannot be told. -/
theorem driverMethodUpdateActivationEnvironment_fatal (hlive : b.users.accounts.Live) :
    (driverMethodUpdateActivationEnvironment sizes outside b id serial).2 = some .fatal ↔ peerIsPrivileged b id = true ∧
      ControllerFull sizes b.users.balances b controllerEnvironmentMetadata outside.environmentData := by
  rw [driverMethodUpdateActivationEnvironment, ControllerFull, ← controllerQueue_ne_success_iff sizes hlive]
  cases peerIsPrivileged b id with
  | false => exact iff_of_false (by simp) fun h => by cases h.1
  | true =>
    cases controllerQueue sizes b none controllerEnvironmentMetadata outside.environmentData with
    | mk b₁ r =>
      cases r with
      | success => exact iff_of_false (by simp) fun h => h.2 rfl
      | quota => exact iff_of_true rfl ⟨rfl, (by simp)⟩
      | unexpectedFds => exact iff_of_true rfl ⟨rfl, (by simp)⟩

/-- `driver_method_start_service_by_name` fails for good if the controller cannot be asked. -/
theorem Calling.driverMethodStartServiceByName_fatal (h : Calling held b id) (hlive : b.users.accounts.Live)
    (service : Bytes) :
    (driverMethodStartServiceByName sizes b id serial service).2 = some .fatal ↔ ∃ path,
      nameActivation b.names service = some path ∧ namePrimary b.names service = none ∧
        ActivationStuck sizes b.users.balances b path := by
  obtain ⟨peer, hpeer⟩ := Option.isSome_iff_exists.mp h.peer
  have huser : b.userOf id = some peer.user := by rw [Bus.userOf, hpeer]; rfl
  rw [driverMethodStartServiceByName, huser]
  cases hactivation : nameActivation b.names service with
  | none =>
    rw [show (b.names.nameTree.find? service).bind (·.activation) = none from hactivation]
    exact iff_of_false (by simp) fun hstuck => by cases hstuck.choose_spec.1
  | some path =>
    rw [show (b.names.nameTree.find? service).bind (·.activation) = some path from hactivation]
    obtain ⟨a, ha, -⟩ := h.good.activations.forth service path hactivation
    dsimp only
    cases hprimary : namePrimary b.names service with
    | some p =>
      refine iff_of_false (by simp) ?_
      rintro ⟨_, -, hnone, -⟩
      cases hnone
    | none =>
      rw [Option.isSome_none, if_neg Bool.false_ne_true, busActivationQueueRequest_fatal sizes hlive ha]
      refine ⟨fun hstuck => ⟨path, rfl, rfl, hstuck⟩, ?_⟩
      rintro ⟨_, hpath, -, hstuck⟩
      cases hpath
      exact hstuck

/-- `driver_method_become_monitor` fails for good if the rules exceed the quota. -/
theorem driverMethodBecomeMonitor_fatal (hlive : b.users.accounts.Live) (strings : List Bytes) (flags : UInt32) :
    (driverMethodBecomeMonitor sizes outside b id serial strings flags).2 = some .fatal ↔
      (peerIsPrivileged b id = true ∧ outside.eavesdrop = true) ∧
        RulesExceed sizes (b.userOf id) b.users.balances [] (monitorStrings strings) := by
  rw [driverMethodBecomeMonitor, ← monitorRules_exceed_iff sizes _ hlive, monitorStrings]
  by_cases hallowed : peerIsPrivileged b id = true ∧ outside.eavesdrop = true
  · rw [if_neg (by simp [hallowed]), and_iff_right hallowed]
    obtain ⟨users, tree, r⟩ := monitorRules sizes b.users .empty (b.userOf id) (if strings = [] then [[]] else strings)
    cases r with
    | none =>
      dsimp only
      refine iff_of_false ?_ ?_
      · split <;> simp
      · rintro ⟨e, he, -⟩
        cases he
    | some e =>
      by_cases he : e = .invalid
      · rw [he]
        refine iff_of_false (by simp) ?_
        rintro ⟨e', he', hne⟩
        cases he'
        exact hne rfl
      · refine iff_of_true ?_ ⟨e, rfl, he⟩
        show some (if e = .invalid then DriverError.matchInvalid else .fatal) = _
        rw [if_neg he]
  · rw [if_pos (by simpa [not_and] using not_and_or.mp hallowed)]
    exact iff_of_false (by simp) fun h => hallowed h.1

/-- The functions behind the methods. -/
theorem Calling.driverCall_fatal (h : Calling held b id) (hlive : b.users.accounts.Live) (handler : DriverHandler)
    (body : Body) :
    (driverCall sizes outside b id handler serial body).2 = some .fatal ↔
      HandlerExhausts sizes outside b.users.balances b id handler body := by
  cases handler with
  | hello => exact iff_of_false (driverMethodHello_not_fatal sizes outside serial) (fun h => h)
  | updateActivationEnvironment => exact driverMethodUpdateActivationEnvironment_fatal sizes outside serial hlive
  | reloadConfig => exact iff_of_false (driverMethodReloadConfig_not_fatal sizes serial) (fun h => h)
  | query => exact iff_of_false (driverMethodQuery_not_fatal sizes outside serial) (fun h => h)
  | addMatch =>
    cases body with
    | s string => exact iff_of_false (driverMethodAddMatch_not_fatal sizes serial string) (fun h => h)
    | _ => exact iff_of_false nofun (fun h => h)
  | removeMatch =>
    cases body with
    | s string => exact iff_of_false (driverMethodRemoveMatch_not_fatal sizes serial string) (fun h => h)
    | _ => exact iff_of_false nofun (fun h => h)
  | requestName =>
    cases body with
    | su name flags => exact iff_of_false (h.driverMethodRequestName_not_fatal sizes outside serial name flags) (fun h => h)
    | _ => exact iff_of_false nofun (fun h => h)
  | releaseName =>
    cases body with
    | s name => exact iff_of_false (driverMethodReleaseName_not_fatal sizes outside serial name) (fun h => h)
    | _ => exact iff_of_false nofun (fun h => h)
  | startServiceByName =>
    cases body with
    | su service flags => exact h.driverMethodStartServiceByName_fatal sizes serial hlive service
    | _ => exact iff_of_false nofun (fun h => h)
  | becomeMonitor =>
    cases body with
    | asu strings flags => exact driverMethodBecomeMonitor_fatal sizes outside serial hlive strings flags
    | _ => exact iff_of_false nofun (fun h => h)
  | set =>
    cases body with
    | ssv value => exact driverMethodSet_fatal value
    | _ => exact iff_of_false nofun (fun h => h)

end Methods

section Forward

/-- `peer_queue_unicast` does not fail for good. -/
theorem peerQueueUnicast_not_fatal (policy : Policy) (b : Bus) (tracked : Bool) (user : Uid) (sender receiver : ℕ) (m : Message) :
    (peerQueueUnicast sizes policy b tracked user sender receiver m).2.toForward ≠ some .fatal := by
  have hmessage : ∀ b : Bus, (peerQueueMessage sizes policy b user receiver m).2.toForward ≠ some .fatal := by
    intro b
    rw [peerQueueMessage]
    split
    · intro hfatal
      cases hfatal
    · split
      · intro hfatal
        cases hfatal
      · split
        all_goals
          intro hfatal
          cases hfatal
  rw [peerQueueUnicast]
  split
  · obtain ⟨users, replies, slot, r⟩ := replySlotNew b.users b.replies receiver sender (b.userOf receiver) (some user) sender
      (messageReadSerial m)
    cases slot with
    | none =>
      dsimp only
      split
      all_goals
        intro hfatal
        cases hfatal
    | some slot =>
      dsimp only
      have hqueue := hmessage { b with users := users, replies := replies }
      cases hresult : peerQueueMessage sizes policy { b with users := users, replies := replies } user receiver m with
      | mk b₁ r' =>
        rw [hresult] at hqueue
        cases r' <;> exact hqueue
  · exact hmessage b

/-- The messages that are forwarded, where one fails for good. -/
theorem Calling.driverForward_fatal (h : Calling held b id) (hlive : b.users.accounts.Live) (user : Uid) (m : Message) :
    (driverForward sizes outside b id user m).2 = some .fatal ↔
      (m.metadata.type = dbusMessageTypeSignal ∨ m.metadata.type = dbusMessageTypeMethodCall) ∧ ∃ destination path name,
        m.metadata.destination = some destination ∧ m.metadata.flags &&& dbusHeaderFlagNoAutoStart = 0 ∧
          busFindPeerByName b destination = (none, some name) ∧ name.activation = some path ∧
            ActivationStuck sizes b.users.balances b path := by
  rw [driverForward]
  cases hdestination : m.metadata.destination with
  | none =>
    refine iff_of_false ?_ ?_
    · dsimp only
      split <;> simp
    · rintro ⟨-, destination, path, name, hnone, -⟩
      cases hnone
  | some destination =>
    dsimp only
    by_cases htype : m.metadata.type = dbusMessageTypeSignal ∨ m.metadata.type = dbusMessageTypeMethodCall
    · rw [if_pos (by simpa using htype), driverForwardUnicast]
      cases hfind : busFindPeerByName b destination with
      | mk receiver y =>
        cases receiver with
        | some receiver =>
          refine iff_of_false (peerQueueUnicast_not_fatal sizes outside.policy b true user id receiver m) ?_
          rintro ⟨-, _, path, name, hsome, -, hname, -⟩
          cases hsome
          rw [hfind] at hname
          cases hname
        | none =>
          dsimp only
          by_cases hflags : m.metadata.flags &&& dbusHeaderFlagNoAutoStart = 0
          · rw [if_neg (not_not.mpr hflags)]
            cases hactivation : y.bind (·.activation) with
            | none =>
              refine iff_of_false (by simp) ?_
              rintro ⟨-, _, path, name, hsome, -, hname, hpath, -⟩
              cases hsome
              rw [hfind] at hname
              cases hname
              rw [Option.bind_some, hpath] at hactivation
              cases hactivation
            | some path =>
              obtain ⟨a, ha, -⟩ := h.good.of_busFindPeerByName_none hfind hactivation
              rw [busActivationQueueMessage_fatal sizes hlive ha]
              obtain ⟨name, rfl, hname⟩ := Option.bind_eq_some_iff.mp hactivation
              refine ⟨fun hstuck => ⟨htype, destination, path, name, rfl, hflags, hfind, hname, hstuck⟩, ?_⟩
              rintro ⟨-, _, path', name', hsome, -, hname', hpath', hstuck⟩
              cases hsome
              rw [hfind] at hname'
              cases hname'
              rw [hname] at hpath'
              cases hpath'
              exact hstuck
          · rw [if_pos hflags]
            refine iff_of_false (by simp) ?_
            rintro ⟨-, _, path, name, -, hzero, -⟩
            exact hflags hzero
    · rw [if_neg (by simpa using htype)]
      refine iff_of_false ?_ fun hall => htype hall.1
      split
      · split <;> simp
      · simp

end Forward

section Dispatch

/-- `driver_dispatch_method`, where it fails for good. -/
theorem Calling.driverDispatchMethod_fatal (h : Calling held b id) (hlive : b.users.accounts.Live)
    {methods : List DriverMethod} {m : Message} {body : Body}
    (hfatal : (driverDispatchMethod sizes outside b id methods m body).2 = some .fatal) :
    ∃ method ∈ methods, some method.name = m.metadata.member ∧
      (b.isRegistered id = true ∨ method.needsRegistration = false) ∧
      (method.path.isSome → m.metadata.path = method.path) ∧ body.signature = method.signature ∧
        HandlerExhausts sizes outside b.users.balances b id method.handler body := by
  rw [driverDispatchMethod] at hfatal
  cases hfind : methods.find? fun method =>
      some method.name = m.metadata.member && (b.isRegistered id || !method.needsRegistration) with
  | none =>
    rw [hfind] at hfatal
    cases hfatal
  | some method =>
    have hfound := List.find?_some hfind
    simp only [Bool.and_eq_true, decide_eq_true_eq, Bool.or_eq_true, Bool.not_eq_true'] at hfound
    rw [hfind] at hfatal
    have hhandle : (driverHandleMethod sizes outside b id method m body).2 = some .fatal := hfatal
    rw [driverHandleMethod] at hhandle
    split_ifs at hhandle with hpath hsignature
    · cases hhandle
    · cases hhandle
    · refine ⟨method, List.mem_of_find?_eq_some hfind, hfound.1, hfound.2, fun hsome => ?_, not_not.mp hsignature,
        (h.driverCall_fatal sizes outside (messageReadSerial m) hlive method.handler body).mp hhandle⟩
      by_contra hne
      exact hpath (by rw [hsome]; simpa using hne)

/-- The methods that can fail for good. -/
theorem driverInterfaces_exhausting : ∀ i ∈ driverInterfaces, ∀ method ∈ i.2,
    (method.handler = .startServiceByName → i.1 = driverName ∧ method.name = lit "StartServiceByName" ∧
      method.needsRegistration = true) ∧
    (method.handler = .updateActivationEnvironment → i.1 = driverName ∧ method.name = lit "UpdateActivationEnvironment" ∧
      method.needsRegistration = true ∧ method.path = some driverPath ∧ method.signature = lit "a{ss}") ∧
    (method.handler = .becomeMonitor → i.1 = monitoringName ∧ method.name = lit "BecomeMonitor" ∧
      method.needsRegistration = true ∧ method.path = some driverPath) ∧
    (method.handler = .set → i.1 = propertiesName ∧ method.name = lit "Set" ∧ method.needsRegistration = true ∧
      method.path = some driverPath) := by
  simp [driverInterfaces, driverMethods, monitoringMethods, introspectableMethods, peerMethods, propertiesMethods,
    debugStatsMethods, monitoringName, propertiesName]

/-- `driver_dispatch_interface`, where it fails for good. -/
theorem driverDispatchInterface_fatal {m : Message} {body : Body}
    (hfatal : (driverDispatchInterface sizes outside b id m body).2 = some .fatal) :
    m.metadata.type = dbusMessageTypeMethodCall ∧ ∃ i ∈ driverInterfaces, m.metadata.interface.all (· = i.1) = true ∧
      (driverDispatchMethod sizes outside b id i.2 m body).2 = some .fatal := by
  rw [driverDispatchInterface] at hfatal
  split at hfatal
  · cases hfatal
  · next htype =>
    refine ⟨not_not.mp htype, ?_⟩
    cases hinterface : m.metadata.interface with
    | some interface =>
      rw [hinterface] at hfatal
      dsimp only at hfatal
      cases hfind : driverInterfaces.find? fun i => i.1 = interface with
      | none =>
        rw [hfind] at hfatal
        cases hfatal
      | some i =>
        rw [hfind] at hfatal
        have hi := List.find?_some hfind
        refine ⟨i, List.mem_of_find?_eq_some hfind, ?_, hfatal⟩
        rw [Option.all_some, decide_eq_true (of_decide_eq_true hi).symm]
    | none =>
      rw [hinterface] at hfatal
      have hany : ∀ l : List (Bytes × List DriverMethod), (driverDispatchAny sizes outside b id m body l).2 = some .fatal →
          ∃ i ∈ l, (driverDispatchMethod sizes outside b id i.2 m body).2 = some .fatal := by
        intro l hl
        induction l with
        | nil => cases hl
        | cons i rest ih =>
          rw [driverDispatchAny] at hl
          split at hl
          · obtain ⟨j, hj, hfatal⟩ := ih hl
            exact ⟨j, List.mem_cons_of_mem _ hj, hfatal⟩
          · exact ⟨i, List.mem_cons_self, hl⟩
      obtain ⟨i, hi, hfatal⟩ := hany driverInterfaces hfatal
      exact ⟨i, hi, rfl, hfatal⟩

/-- What a message that calls a method of the driver looks like. -/
theorem callsDriver_iff {m : Message} {interface member : Bytes} :
    callsDriver m interface member = true ↔ m.metadata.type = dbusMessageTypeMethodCall ∧
      m.metadata.destination = some driverName ∧ m.metadata.interface.all (· = interface) = true ∧
        m.metadata.member = some member := by
  rw [callsDriver]
  simp only [Bool.and_eq_true, decide_eq_true_eq, and_assoc]

/-- A method that is found in its table is called. -/
theorem driverDispatchMethod_of_find? {methods : List DriverMethod} {method : DriverMethod} {m : Message} {body : Body}
    (hfind : (methods.find? fun method =>
      some method.name = m.metadata.member && (b.isRegistered id || !method.needsRegistration)) = some method)
    (hpath : method.path.isSome → m.metadata.path = method.path) (hsignature : body.signature = method.signature) :
    driverDispatchMethod sizes outside b id methods m body =
      driverCall sizes outside b id method.handler (messageReadSerial m) body := by
  rw [driverDispatchMethod, hfind]
  show driverHandleMethod sizes outside b id method m body = _
  rw [driverHandleMethod, if_neg, if_neg (not_not.mpr hsignature)]
  intro hboth
  rw [Bool.and_eq_true] at hboth
  exact absurd (hpath hboth.1) (of_decide_eq_true hboth.2)

/-- Interfaces without the method are passed over. -/
theorem driverDispatchAny_append {m : Message} {body : Body} {before : List (Bytes × List DriverMethod)}
    (hother : ∀ i ∈ before, ∀ method ∈ i.2, some method.name ≠ m.metadata.member) (rest : List (Bytes × List DriverMethod)) :
    driverDispatchAny sizes outside b id m body (before ++ rest) = driverDispatchAny sizes outside b id m body rest := by
  induction before with
  | nil => rfl
  | cons i before ih =>
    have hnone : driverDispatchMethod sizes outside b id i.2 m body = (b, some .unexpectedMethod) := by
      rw [driverDispatchMethod, List.find?_eq_none.mpr fun method hmethod => ?_]
      rw [decide_eq_false (hother i List.mem_cons_self method hmethod), Bool.false_and]
      exact Bool.false_ne_true
    rw [List.cons_append, driverDispatchAny, hnone]
    exact ih fun j hj => hother j (List.mem_cons_of_mem _ hj)

/-- A method that fails for good, in the first interface that has it. -/
theorem driverDispatchInterface_of_method {m : Message} {body : Body} {interface member : Bytes} {methods : List DriverMethod}
    (before : List (Bytes × List DriverMethod)) {after : List (Bytes × List DriverMethod)}
    (hinterfaces : driverInterfaces = before ++ (interface, methods) :: after)
    (hother : ∀ i ∈ before, i.1 ≠ interface ∧ ∀ method ∈ i.2, method.name ≠ member)
    (hcalls : callsDriver m interface member = true)
    (hfatal : (driverDispatchMethod sizes outside b id methods m body).2 = some .fatal) :
    (driverDispatchInterface sizes outside b id m body).2 = some .fatal := by
  obtain ⟨htype, -, hinterface, hmember⟩ := callsDriver_iff.mp hcalls
  rw [driverDispatchInterface, if_neg (not_not.mpr htype)]
  cases hi : m.metadata.interface with
  | some name =>
    rw [hi, Option.all_some] at hinterface
    have hfind : driverInterfaces.find? (fun i => i.1 = interface) = some (interface, methods) := by
      rw [hinterfaces, List.find?_append, List.find?_eq_none.mpr fun i hi => by simpa using (hother i hi).1, Option.none_or]
      exact List.find?_cons_of_pos (decide_eq_true rfl)
    rw [of_decide_eq_true hinterface]
    dsimp only
    rw [hfind]
    exact hfatal
  | none =>
    dsimp only
    rw [hinterfaces, driverDispatchAny_append sizes outside fun i hi method hmethod heq =>
      (hother i hi).2 method hmethod (Option.some.inj (heq.trans hmember)), driverDispatchAny]
    split
    · next heq =>
      rw [heq] at hfatal
      cases hfatal
    · exact hfatal

/-- The methods that fail for good, and when. -/
theorem exhausts_of_handler {m : Message} {body : Body} {i : Bytes × List DriverMethod} (hi : i ∈ driverInterfaces)
    {method : DriverMethod} (hmethod : method ∈ i.2) (hcalls : callsDriver m i.1 method.name = true)
    (hregistered : b.isRegistered id = true ∨ method.needsRegistration = false)
    (hpath : method.path.isSome → m.metadata.path = method.path) (hsignature : body.signature = method.signature)
    (hexhausts : HandlerExhausts sizes outside budget b id method.handler body) :
    Exhausts sizes outside budget b id m body := by
  obtain ⟨hservice, henvironment, hmonitor, hset⟩ := driverInterfaces_exhausting i hi method hmethod
  have hthere : method.needsRegistration = true → b.isRegistered id = true := by
    intro hneeds
    rw [hneeds] at hregistered
    exact hregistered.resolve_right nofun
  cases hhandler : method.handler with
  | startServiceByName =>
    obtain ⟨hi, hname, hneeds⟩ := hservice hhandler
    rw [hi, hname] at hcalls
    rw [hhandler] at hexhausts
    cases body with
    | su name flags =>
      obtain ⟨path, hactivation, hprimary, hstuck⟩ := hexhausts
      exact .service name path flags hcalls (hthere hneeds) rfl hactivation hprimary hstuck
    | _ => exact hexhausts.elim
  | updateActivationEnvironment =>
    obtain ⟨hi, hname, hneeds, hsome, hbody⟩ := henvironment hhandler
    rw [hi, hname] at hcalls
    rw [hsome] at hpath
    rw [hhandler] at hexhausts
    exact .environment hcalls (hpath rfl) (hthere hneeds) (hsignature.trans hbody) hexhausts.1 hexhausts.2
  | becomeMonitor =>
    obtain ⟨hi, hname, hneeds, hsome⟩ := hmonitor hhandler
    rw [hi, hname] at hcalls
    rw [hsome] at hpath
    rw [hhandler] at hexhausts
    cases body with
    | asu strings flags =>
      obtain ⟨⟨hprivileged, heavesdrop⟩, hrules⟩ := hexhausts
      exact .monitor strings flags hcalls (hpath rfl) (hthere hneeds) rfl hprivileged heavesdrop hrules
    | _ => exact hexhausts.elim
  | set =>
    obtain ⟨hi, hname, hneeds, hsome⟩ := hset hhandler
    rw [hi, hname] at hcalls
    rw [hsome] at hpath
    rw [hhandler] at hexhausts
    cases body with
    | ssv value => exact .set value hcalls (hpath rfl) (hthere hneeds) rfl hexhausts
    | _ => exact hexhausts.elim
  | _ =>
    rw [hhandler] at hexhausts
    cases body <;> exact hexhausts.elim

/-- The calls of the driver that fail for good. -/
theorem Calling.driverDispatchInterface_fatal_iff (h : Calling held b id) (hlive : b.users.accounts.Live) {m : Message}
    {body : Body} (hdestination : m.metadata.destination = some driverName) :
    (driverDispatchInterface sizes outside b id m body).2 = some .fatal ↔
      Exhausts sizes outside b.users.balances b id m body := by
  constructor
  · intro hfatal
    obtain ⟨htype, i, hi, hinterface, hmethod⟩ := driverDispatchInterface_fatal sizes outside hfatal
    obtain ⟨method, hmem, hname, hregistered, hpath, hsignature, hexhausts⟩ :=
      h.driverDispatchMethod_fatal sizes outside hlive hmethod
    exact exhausts_of_handler sizes outside hi hmem (callsDriver_iff.mpr ⟨htype, hdestination, hinterface, hname.symm⟩)
      hregistered hpath hsignature hexhausts
  · intro hexhausts
    cases hexhausts with
    | monitor strings flags hcalls hpath hregistered hbody hprivileged heavesdrop hrules =>
      have hmember := (callsDriver_iff.mp hcalls).2.2.2
      refine driverDispatchInterface_of_method sizes outside (driverInterfaces.take 1) rfl (by decide) hcalls ?_
      rw [@driverDispatchMethod_of_find? sizes outside _ _ _
        ⟨lit "BecomeMonitor", true, some driverPath, .becomeMonitor, lit "asu"⟩ _ _
        (by rw [hmember, hregistered]; rfl) (fun _ => hpath) (by rw [hbody]; rfl), h.driverCall_fatal _ _ _ hlive, hbody]
      exact ⟨⟨hprivileged, heavesdrop⟩, hrules⟩
    | set value hcalls hpath hregistered hbody hdeep =>
      have hmember := (callsDriver_iff.mp hcalls).2.2.2
      refine driverDispatchInterface_of_method sizes outside (driverInterfaces.take 4) rfl (by decide) hcalls ?_
      rw [@driverDispatchMethod_of_find? sizes outside _ _ _
        ⟨lit "Set", true, some driverPath, .set, lit "ssv"⟩ _ _
        (by rw [hmember, hregistered]; rfl) (fun _ => hpath) (by rw [hbody]; rfl), h.driverCall_fatal _ _ _ hlive, hbody]
      exact hdeep
    | environment hcalls hpath hregistered hbody hprivileged hfull =>
      have hmember := (callsDriver_iff.mp hcalls).2.2.2
      refine driverDispatchInterface_of_method sizes outside [] rfl nofun hcalls ?_
      rw [@driverDispatchMethod_of_find? sizes outside _ _ _
        ⟨lit "UpdateActivationEnvironment", true, some driverPath, .updateActivationEnvironment, lit "a{ss}"⟩ _ _
        (by rw [hmember, hregistered]; rfl) (fun _ => hpath) hbody, h.driverCall_fatal _ _ _ hlive]
      cases body <;> exact ⟨hprivileged, hfull⟩
    | service name path flags hcalls hregistered hbody hactivation hprimary hstuck =>
      have hmember := (callsDriver_iff.mp hcalls).2.2.2
      refine driverDispatchInterface_of_method sizes outside [] rfl nofun hcalls ?_
      rw [@driverDispatchMethod_of_find? sizes outside _ _ _
        ⟨lit "StartServiceByName", true, none, .startServiceByName, lit "su"⟩ _ _
        (by rw [hmember, hregistered]; rfl) nofun (by rw [hbody]; rfl), h.driverCall_fatal _ _ _ hlive, hbody]
      exact ⟨path, hactivation, hprimary, hstuck⟩
    | message destination path name htype hdestination' hdriver =>
      rw [hdestination] at hdestination'
      exact absurd (Option.some.inj hdestination').symm hdriver

/-- What was sent does not matter, but for what it leaves of the quotas. -/
theorem Bus.Sent.exhausts_iff {said : List Event} {b' : Bus} (h : Bus.Sent b said b') {m : Message} {body : Body} :
    Exhausts sizes outside budget b' id m body ↔ Exhausts sizes outside budget b id m body := by
  obtain ⟨users, connections, events, -, -, rfl⟩ := h
  constructor
  all_goals
    intro hexhausts
    cases hexhausts with
    | monitor strings flags hcalls hpath hregistered hbody hprivileged heavesdrop hrules =>
      exact .monitor strings flags hcalls hpath hregistered hbody hprivileged heavesdrop hrules
    | set value hcalls hpath hregistered hbody hdeep => exact .set value hcalls hpath hregistered hbody hdeep
    | environment hcalls hpath hregistered hbody hprivileged hfull =>
      exact .environment hcalls hpath hregistered hbody hprivileged hfull
    | service name path flags hcalls hregistered hbody hactivation hprimary hstuck =>
      exact .service name path flags hcalls hregistered hbody hactivation hprimary hstuck
    | message destination path name htype hdestination hdriver hregistered hflags hname hactivation hstuck =>
      exact .message destination path name htype hdestination hdriver hregistered hflags hname hactivation hstuck

/-- `driver_dispatch_internal`, where it fails for good. -/
theorem Calling.driverDispatchInternal_fatal (h : Calling held b id) (hlive : b.users.accounts.Live) (user : Uid)
    {m : Message} (body : Body) (hsender : m.metadata.senderId = some id) :
    (driverDispatchInternal sizes outside b id user m body).2 = some .fatal ↔
      Exhausts sizes outside (balancesAfterCopies sizes b id m) b id m body := by
  have hsent := sent_driverMonitor sizes b (some id) m hsender
  have hcalling := h.sent hsent
  have hlive₁ := (accounted_driverMonitor sizes b (some id) m).live hlive
  rw [driverDispatchInternal, ← hsent.exhausts_iff, ← balances_driverMonitor sizes hlive]
  generalize driverMonitor sizes b (some id) m = b₁ at hcalling hlive₁
  by_cases hpeer : m.metadata.type = dbusMessageTypeMethodCall ∧ m.metadata.destination = none
  · rw [if_pos (by simpa using hpeer)]
    refine iff_of_false (fun hfatal => ?_) fun hexhausts => ?_
    · split at hfatal
      · cases hfatal
      · obtain ⟨method, hmem, -, -, -, -, hexhausts⟩ := hcalling.driverDispatchMethod_fatal sizes outside hlive₁ hfatal
        rw [(handler_peerMethods method hmem).1] at hexhausts
        cases body <;> exact hexhausts.elim
    · have hsome : m.metadata.destination ≠ none := by
        cases hexhausts with
        | monitor _ _ hcalls => rw [(callsDriver_iff.mp hcalls).2.1]; simp
        | set _ hcalls => rw [(callsDriver_iff.mp hcalls).2.1]; simp
        | environment hcalls => rw [(callsDriver_iff.mp hcalls).2.1]; simp
        | service _ _ _ hcalls => rw [(callsDriver_iff.mp hcalls).2.1]; simp
        | message _ _ _ _ hdestination => rw [hdestination]; simp
      exact hsome hpeer.2
  · rw [if_neg (by simpa using hpeer)]
    by_cases hdriver : m.metadata.destination = some driverName
    · rw [if_pos hdriver, ← hcalling.driverDispatchInterface_fatal_iff sizes outside hlive₁ hdriver]
      cases driverDispatchInterface sizes outside b₁ id m body with
      | mk b₂ e =>
        cases e with
        | none => exact iff_of_false (by simp) (by simp)
        | some e =>
          dsimp only
          split
          · next hnotyet =>
            refine iff_of_false (by simp) fun hfatal => ?_
            rw [Option.some.inj hfatal] at hnotyet
            simp at hnotyet
          · exact Iff.rfl
    · rw [if_neg hdriver]
      have hexhausts : Exhausts sizes outside b₁.users.balances b₁ id m body → b₁.isRegistered id = true ∧
          (driverForward sizes outside b₁ id user m).2 = some .fatal := by
        intro hexhausts
        cases hexhausts with
        | monitor _ _ hcalls => exact absurd (callsDriver_iff.mp hcalls).2.1 hdriver
        | set _ hcalls => exact absurd (callsDriver_iff.mp hcalls).2.1 hdriver
        | environment hcalls => exact absurd (callsDriver_iff.mp hcalls).2.1 hdriver
        | service _ _ _ hcalls => exact absurd (callsDriver_iff.mp hcalls).2.1 hdriver
        | message destination path name htype hdestination hne hregistered hflags hname hactivation hstuck =>
          exact ⟨hregistered, (hcalling.driverForward_fatal sizes outside hlive₁ user m).mpr
            ⟨htype, destination, path, name, hdestination, hflags, hname, hactivation, hstuck⟩⟩
      cases hregistered : b₁.isRegistered id with
      | false =>
        refine iff_of_false (by simp) fun hall => ?_
        rw [(hexhausts hall).1] at hregistered
        cases hregistered
      | true =>
        refine ⟨fun hfatal => ?_, fun hall => (hexhausts hall).2⟩
        obtain ⟨htype, destination, path, name, hdestination, hflags, hname, hactivation, hstuck⟩ :=
          (hcalling.driverForward_fatal sizes outside hlive₁ user m).mp hfatal
        exact .message destination path name htype hdestination (fun heq => hdriver (heq ▸ hdestination)) hregistered hflags
          hname hactivation hstuck

end Dispatch

section Broker

/-- The errors that only disconnect the sender. -/
theorem driverErrorName_eq_none (e : DriverError) :
    driverErrorName e = none ↔ e = .peerNotRegistered ∨ e = .monitorReadOnly ∨ e = .fatal := by
  cases e <;> simp [driverErrorName]

/-- `driver_dispatch` fails for good if its main part does. -/
theorem driverDispatch_fatal (user : Uid) (m : Message) (body : Body) (hmonitor : b.isMonitor id = false) :
    (driverDispatch sizes outside b id user m body).2 = some .fatal ↔
      (driverDispatchInternal sizes outside b id user m body).2 = some .fatal := by
  rw [driverDispatch, hmonitor, if_neg Bool.false_ne_true]
  cases driverDispatchInternal sizes outside b id user m body with
  | mk b₁ e =>
    cases e with
    | none => exact Iff.rfl
    | some e =>
      dsimp only
      cases hname : driverErrorName e with
      | none => exact Iff.rfl
      | some error =>
        refine iff_of_false (by simp) fun hfatal => ?_
        rw [Option.some.inj hfatal] at hname
        cases hname

/-- What is left of the errors of `driver_dispatch`. -/
theorem driverDispatch_cases (user : Uid) (m : Message) (body : Body) :
    (driverDispatch sizes outside b id user m body).2 = none ∨
      (driverDispatch sizes outside b id user m body).2 = some .peerNotRegistered ∨
      (driverDispatch sizes outside b id user m body).2 = some .monitorReadOnly ∨
      (driverDispatch sizes outside b id user m body).2 = some .fatal := by
  rw [driverDispatch]
  split
  · exact .inr (.inr (.inl rfl))
  · cases driverDispatchInternal sizes outside b id user m body with
    | mk b₁ e =>
      cases e with
      | none => exact .inl rfl
      | some e =>
        dsimp only
        cases hname : driverErrorName e with
        | some error => exact .inl rfl
        | none =>
          obtain rfl | rfl | rfl := (driverErrorName_eq_none e).mp hname
          · exact .inr (.inl rfl)
          · exact .inr (.inr (.inl rfl))
          · exact .inr (.inr (.inr rfl))

/-- The accounts of a broker where everybody may have one match rule. -/
def narrowUsers : UserRegistry := ⟨false, .empty, 4, fun slot => if slot = userSlotMatches then 1 else 2 ^ 31, false, false⟩

/-- A peer of root in a broker where everybody may have one match rule. -/
def narrowBus : Bus :=
  (Machine.run (Broker.step Broker.noSizes) (.init narrowUsers 0 ⟨some 0, false, false, false, false, []⟩)
    [.connect 0 true true, Broker.helloOp 0]).bus

/-- A call of a peer that wants to be a monitor. -/
def monitorMessage : Message := messageStitchSender (Broker.callMessage monitoringName (lit "BecomeMonitor") 2) 0

/-- The arguments `a` and `a`, and a byte in 63 variants. -/
def deepProperty : VerifiedBody (lit "ssv") where
  bigEndian := false
  data := [1, 0, 0, 0, byte 'a', 0, 0, 0, 1, 0, 0, 0, byte 'a', 0] ++
    (List.replicate 62 [1, byte 'v', 0]).flatten ++ [1, byte 'y', 0, 0]
  verified := ⟨[⟨byte 's', some (lit "a")⟩, ⟨byte 's', some (lit "a")⟩], by decide +kernel⟩

end Broker

end DbusBroker
