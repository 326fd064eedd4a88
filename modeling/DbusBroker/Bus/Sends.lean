import DbusBroker.Bus.Driver

/-!
# What sending does to the bus

A message that the driver sends or copies to monitors changes the connections of those who
get it, the accounts of their users and the trace, and nothing else. The trace gets the
events that say who got which message, and between them what the driver says with it.
-/

namespace DbusBroker

open Std

/-- The events that only say where a message went. -/
def Event.isEmission : Event → Bool
  | .forwarded _ _ _ _ _ | .sent _ _ _ | .activate _ _ => true
  | _ => false

/-- A message goes to those whom the registries of the bus name. -/
def Emission (b : Bus) : Event → Prop
  | .forwarded sender owned metadata destinations denied =>
    metadata.senderId = sender ∧
      ((owned = sender.elim [] b.primaryNames ∧ denied = [] ∧
          destinations = busGetMonitorDestinations b [] sender metadata) ∨
        (sender = none ∧ owned = [] ∧ ∃ registry,
          destinations = busGetBroadcastDestinations b (busGetMonitorDestinations b [] none metadata) (some registry) none
            metadata))
  | _ => True

/-- Some events say something, and go where they should. -/
structure Says (b : Bus) (events said : List Event) : Prop where
  said : (events.filter fun e => !e.isEmission) = said
  emissions : ∀ e ∈ events, Emission b e

/-- A bus that sent something, and said something with it. -/
def Bus.Sent (b : Bus) (said : List Event) (b' : Bus) : Prop :=
  ∃ users connections events, Says b events said ∧ (∀ id, (connections id).hupIn = (b.connections id).hupIn) ∧
    b' = { b with users := users, connections := connections, trace := b.trace ++ events }

/-- What is said when a name changes its owner. -/
def announce (name : Bytes) (old new : Option ℕ) : List Event :=
  (old.toList.map fun peer => .nameLost peer name) ++ .nameOwnerChanged name old new ::
    (new.toList.map fun peer => .nameAcquired peer name)

section Says

variable {b : Bus} {events events' said said' : List Event}

/-- Saying nothing. -/
theorem says_nil (b : Bus) : Says b [] [] := ⟨rfl, fun _ he => absurd he List.not_mem_nil⟩

/-- Saying one thing after the other. -/
theorem Says.append (h : Says b events said) (h' : Says b events' said') : Says b (events ++ events') (said ++ said') := by
  refine ⟨?_, fun e he => ?_⟩
  · rw [List.filter_append, h.said, h'.said]
  · rcases List.mem_append.mp he with he | he
    · exact h.emissions e he
    · exact h'.emissions e he

/-- An event that says something. -/
theorem says_singleton (b : Bus) {e : Event} (he : e.isEmission = false) : Says b [e] [e] := by
  refine ⟨by simp [he], fun e' he' => ?_⟩
  rw [List.mem_singleton.mp he']
  cases e <;> trivial

/-- An event that says where a message went. -/
theorem says_emission {e : Event} (he : e.isEmission = true) (hemission : Emission b e) : Says b [e] [] := by
  refine ⟨by simp [he], fun e' he' => ?_⟩
  rw [List.mem_singleton.mp he']
  exact hemission

end Says

namespace Bus.Sent

variable {b b' b'' : Bus} {said said' : List Event}

/-- Nothing is sent. -/
theorem refl (b : Bus) : Sent b [] b := ⟨b.users, b.connections, [], says_nil b, fun _ => rfl, by simp⟩

/-- One thing is sent after the other. -/
theorem trans (h : Sent b said b') (h' : Sent b' said' b'') : Sent b (said ++ said') b'' := by
  obtain ⟨users, connections, events, hspeak, hhup, rfl⟩ := h
  obtain ⟨users', connections', events', hspeak', hhup', rfl⟩ := h'
  refine ⟨users', connections', events ++ events', hspeak.append ⟨hspeak'.said, hspeak'.emissions⟩,
    fun id => (hhup' id).trans (hhup id), ?_⟩
  simp only [List.append_assoc]

/-- One thing is sent, and nothing is said with it. -/
theorem then_nil (h : Sent b said b') (h' : Sent b' [] b'') : Sent b said b'' := by
  have htrans := h.trans h'
  rwa [List.append_nil] at htrans

/-- Events are recorded. -/
theorem log {events : List Event} (h : Says b events said) : Sent b said (b.log events) :=
  ⟨b.users, b.connections, events, h, fun _ => rfl, rfl⟩

/-- Something is said. -/
theorem say (b : Bus) {e : Event} (he : e.isEmission = false) : Sent b [e] (b.log [e]) := log (says_singleton b he)

/-- The accounts change. -/
theorem setUsers (b : Bus) (users : UserRegistry) : Sent b [] { b with users := users } :=
  ⟨users, b.connections, [], says_nil b, fun _ => rfl, by simp⟩

/-- A connection changes, but for its input. -/
theorem setConnection (b : Bus) {id : ℕ} {c : Connection} (hc : c.hupIn = (b.connections id).hupIn) :
    Sent b [] (b.setConnection id c) := by
  refine ⟨b.users, Function.update b.connections id c, [], says_nil b, fun id' => ?_, by simp [Bus.setConnection]⟩
  by_cases hid : id' = id
  · rw [hid, Function.update_self, hc]
  · rw [Function.update_of_ne hid]

/-- The same is done for everybody in a list. -/
theorem foldl {α : Type} {f : Bus → α → Bus} (hf : ∀ b x, Sent b [] (f b x)) (l : List α) (b : Bus) :
    Sent b [] (l.foldl f b) := by
  induction l generalizing b with
  | nil => exact refl b
  | cons x rest ih => exact (hf b x).then_nil (ih (f b x))

end Bus.Sent

section Sending

variable (sizes : Sizes) (b : Bus)

open Bus

/-- Queueing does not end the input. -/
theorem hupIn_connectionQueue (users : UserRegistry) (c : Connection) (actor : Option Uid) (m : Message) :
    (connectionQueue sizes users c actor m).2.1.hupIn = c.hupIn := by
  rw [connectionQueue]
  split
  · rfl
  · split
    · rfl
    · split <;> rfl

/-- A shutdown does not end the input. -/
theorem hupIn_connectionShutdown (c : Connection) : (connectionShutdown c).hupIn = c.hupIn := by
  rw [connectionShutdown]
  split <;> rfl

/-- `connection_queue` on a peer. -/
theorem sent_peerConnectionQueue (receiver : ℕ) (actor : Option Uid) (m : Message) :
    Sent b [] (peerConnectionQueue sizes b receiver actor m).1 := by
  rw [peerConnectionQueue]
  exact (Sent.setUsers b _).then_nil (Sent.setConnection _ (hupIn_connectionQueue sizes _ _ _ _))

/-- A delivery. -/
theorem sent_peerDeliver (receiver : ℕ) (m : Message) : Sent b [] (peerDeliver sizes b receiver m) := by
  have hqueue := sent_peerConnectionQueue sizes b receiver none m
  rw [peerDeliver]
  split
  · next b' heq =>
    rw [heq] at hqueue
    exact hqueue
  · next b' r _ heq =>
    rw [heq] at hqueue
    exact hqueue.then_nil (Sent.setConnection b' (hupIn_connectionShutdown _))

/-- `driver_monitor`. -/
theorem sent_driverMonitor (sender : Option ℕ) (m : Message) (hsender : m.metadata.senderId = sender) :
    Sent b [] (driverMonitor sizes b sender m) := by
  have hlog : Sent b [] (b.log [.forwarded sender (sender.elim [] b.primaryNames) m.metadata
      (busGetMonitorDestinations b [] sender m.metadata) []]) :=
    Sent.log (says_emission rfl ⟨hsender, Or.inl ⟨rfl, rfl, rfl⟩⟩)
  exact hlog.then_nil (Sent.foldl (fun b receiver => sent_peerDeliver sizes b receiver m) _ _)

/-- `driver_send_unicast`. -/
theorem sent_driverSendUnicast (receiver : ℕ) (metadata : MessageMetadata) (body : List DriverArg) (nFds : ℕ)
    (hsender : metadata.senderId = none) : Sent b [] (driverSendUnicast sizes b receiver metadata body nFds) := by
  rw [driverSendUnicast]
  have hmonitor := sent_driverMonitor sizes b none ⟨metadata, sizes.driverMessage metadata, nFds⟩ hsender
  have hsent := fun b => Sent.log (says_emission (b := b) (e := .sent receiver metadata body) rfl trivial)
  exact (hmonitor.then_nil (hsent _)).then_nil (sent_peerDeliver sizes _ receiver _)

/-- `driver_send_error`. -/
theorem sent_driverSendError (receiver : ℕ) (serial : UInt32) (error text : Bytes) :
    Sent b [] (driverSendError sizes b receiver serial error text) := by
  rw [driverSendError]
  split
  · exact Sent.refl b
  · exact sent_driverSendUnicast sizes b receiver _ _ _ rfl

/-- `driver_send_reply_with_fds`. -/
theorem sent_driverSendReplyWithFds (receiver : ℕ) (serial : UInt32) (body : List DriverArg) (nFds : ℕ) :
    Sent b [] (driverSendReplyWithFds sizes b receiver serial body nFds) := by
  rw [driverSendReplyWithFds]
  split
  · exact Sent.refl b
  · exact sent_driverSendUnicast sizes b receiver _ _ _ rfl

/-- `driver_send_reply`. -/
theorem sent_driverSendReply (receiver : ℕ) (serial : UInt32) (body : List DriverArg) :
    Sent b [] (driverSendReply sizes b receiver serial body) :=
  sent_driverSendReplyWithFds sizes b receiver serial body 0

/-- `driver_notify_name_acquired`. -/
theorem sent_driverNotifyNameAcquired (receiver : ℕ) (name : Bytes) :
    Sent b [.nameAcquired receiver name] (driverNotifyNameAcquired sizes b receiver name) :=
  (Sent.say b rfl).then_nil (sent_driverSendUnicast sizes _ receiver _ _ _ rfl)

/-- `driver_notify_name_lost`. -/
theorem sent_driverNotifyNameLost (receiver : ℕ) (name : Bytes) :
    Sent b [.nameLost receiver name] (driverNotifyNameLost sizes b receiver name) :=
  (Sent.say b rfl).then_nil (sent_driverSendUnicast sizes _ receiver _ _ _ rfl)

/-- `driver_notify_name_owner_changed`. -/
theorem sent_driverNotifyNameOwnerChanged (policy : Policy) (registry : RegistryRef) (name old new : Bytes) :
    Sent b [] (driverNotifyNameOwnerChanged sizes policy b registry name old new) := by
  rw [driverNotifyNameOwnerChanged]
  refine Sent.then_nil (Sent.log (says_emission rfl ?_))
    (Sent.foldl (fun b receiver => sent_peerDeliver sizes b receiver _) _ _)
  exact ⟨rfl, Or.inr ⟨rfl, rfl, registry, rfl⟩⟩

/-- The old owner of a name is told, if there is one. -/
theorem sent_lost (name : Bytes) (old : Option ℕ) :
    Sent b (old.toList.map fun peer => .nameLost peer name) (match old with
      | some peer => driverNotifyNameLost sizes b peer name
      | none => b) := by
  cases old with
  | none => exact Sent.refl b
  | some peer => exact sent_driverNotifyNameLost sizes b peer name

/-- The new owner of a name is told, if there is one. -/
theorem sent_acquired (name : Bytes) (new : Option ℕ) :
    Sent b (new.toList.map fun peer => .nameAcquired peer name) (match new with
      | some peer => driverNotifyNameAcquired sizes b peer name
      | none => b) := by
  cases new with
  | none => exact Sent.refl b
  | some peer => exact sent_driverNotifyNameAcquired sizes b peer name

/-- `driver_name_owner_changed`. -/
theorem sent_driverNameOwnerChanged (policy : Policy) (registry : RegistryRef) (name : Bytes) (old new : Option ℕ) :
    Sent b (announce name old new) (driverNameOwnerChanged sizes policy b registry name old new) := by
  have hchanged : ∀ b, Sent b [.nameOwnerChanged name old new] (driverNotifyNameOwnerChanged sizes policy
      (b.log [.nameOwnerChanged name old new]) registry name (ownerString old) (ownerString new)) := fun b =>
    (Sent.say b rfl).then_nil (sent_driverNotifyNameOwnerChanged sizes _ policy registry name _ _)
  have hall := ((sent_lost sizes b name old).trans (hchanged _)).trans (sent_acquired sizes _ name new)
  rw [List.append_assoc] at hall
  exact hall

/-- The announcement of a change, if there was one. -/
def announceChange (change : NameChange ℕ) : List Event :=
  match change.name with
  | some name => announce name change.oldOwner change.newOwner
  | none => []

/-- `driver_name_owner_changed` of a change. -/
theorem sent_driverNameChanged (policy : Policy) (change : NameChange ℕ) :
    Sent b (announceChange change) (driverNameChanged sizes policy b change) := by
  obtain ⟨name, old, new⟩ := change
  cases name with
  | some name => exact sent_driverNameOwnerChanged sizes b policy _ name old new
  | none => exact Sent.refl b

end Sending

end DbusBroker
