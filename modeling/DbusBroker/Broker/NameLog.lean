import DbusBroker.Broker.Record

/-!
# The log of the owners of a name

What the driver tells about the owners of a well-known name is a log: each entry starts with the owner that the
entry before it ended with, no entry leaves the owner as it was, and the last one names the current owner. The
peers concerned are told with each entry that they lost or acquired the name.
-/

namespace DbusBroker

open Std Machine Record

section Log

variable {n m : Bytes} {old new : Option ℕ}

/-- A change of the owner of a name. -/
def Event.nameChange (n : Bytes) : Event → Option (Option ℕ × Option ℕ)
  | .nameOwnerChanged name old new => if name = n then some (old, new) else none
  | _ => none

/-- A message about the owner of a name. -/
def Event.about (n : Bytes) : Event → Bool
  | .nameLost _ name => name == n
  | .nameOwnerChanged name _ _ => name == n
  | .nameAcquired _ name => name == n
  | _ => false

/-- The `NameOwnerChanged` signals of a name. -/
def nameChanges (n : Bytes) (trace : List Event) : List (Option ℕ × Option ℕ) := trace.filterMap (Event.nameChange n)

/-- A trace with the log of a name up to its current owner: the changes lead there from no owner, and the messages
about the name are those of the changes. -/
structure NameLogged (n : Bytes) (trace : List Event) (owner : Option ℕ) : Prop where
  chain : Chain none (nameChanges n trace) owner
  told : trace.filter (Event.about n) = (nameChanges n trace).flatMap fun c => announce n c.1 c.2

/-- The messages about a name say something. -/
theorem filter_about (n : Bytes) (events : List Event) :
    events.filter (Event.about n) = (events.filter fun e => !e.isEmission).filter (Event.about n) := by
  rw [List.filter_filter]
  congr 1
  funext e
  cases e <;> simp [Event.about, Event.isEmission]

/-- The changes of a name are in the messages about it. -/
theorem nameChanges_filter (n : Bytes) (events : List Event) :
    nameChanges n events = nameChanges n (events.filter (Event.about n)) := by
  rw [nameChanges, nameChanges, List.filterMap_filter]
  congr 1
  funext e
  cases e <;> simp [Event.about, Event.nameChange]

/-- All of the announcement of a name is about it. -/
theorem filter_about_announce (n : Bytes) (old new : Option ℕ) :
    (announce n old new).filter (Event.about n) = announce n old new := by
  cases old <;> cases new <;> simp [announce, Event.about]

/-- Nothing of the announcement of another name is about it. -/
theorem filter_about_announce_of_ne (hm : m ≠ n) (old new : Option ℕ) :
    (announce m old new).filter (Event.about n) = [] := by
  cases old <;> cases new <;> simp [announce, Event.about, hm]

/-- The announcement of a change. -/
theorem announceChange_nameChangeOf (n : Bytes) (old new : Option ℕ) :
    announceChange (nameChangeOf n old new) = if old = new then [] else announce n old new := by
  rw [nameChangeOf]
  split
  · rfl
  · rfl

/-- What is said about a name when its owner changes. -/
theorem filter_about_announceChange (n m : Bytes) (old new : Option ℕ) :
    (announceChange (nameChangeOf m old new)).filter (Event.about n) =
      if m = n ∧ old ≠ new then announce n old new else [] := by
  rw [announceChange_nameChangeOf]
  by_cases hsame : old = new
  · rw [if_pos hsame, if_neg fun h => h.2 hsame]
    rfl
  · rw [if_neg hsame]
    by_cases hm : m = n
    · rw [if_pos ⟨hm, hsame⟩, hm, filter_about_announce]
    · rw [if_neg fun h => hm h.1, filter_about_announce_of_ne hm]

/-- The changes in an announcement. -/
theorem nameChanges_announce (n : Bytes) (old new : Option ℕ) : nameChanges n (announce n old new) = [(old, new)] := by
  cases old <;> cases new <;> simp [announce, nameChanges, Event.nameChange, List.filterMap_cons]

/-- A trace goes on with what is said about the change of the owner. -/
theorem NameLogged.append {trace events : List Event} (h : NameLogged n trace old)
    (hevents : events.filter (Event.about n) = announceChange (nameChangeOf n old new)) :
    NameLogged n (trace ++ events) new := by
  have hchanges : nameChanges n events = if old = new then [] else [(old, new)] := by
    rw [nameChanges_filter, hevents, announceChange_nameChangeOf]
    split
    · rfl
    · exact nameChanges_announce n old new
  have happend : nameChanges n (trace ++ events) = nameChanges n trace ++ nameChanges n events := List.filterMap_append
  constructor
  · rw [happend, hchanges]
    split
    · next hsame =>
      rw [List.append_nil, ← hsame]
      exact h.chain
    · next hne => exact h.chain.append ⟨rfl, hne, rfl⟩
  · rw [happend, List.filter_append, List.flatMap_append, h.told, hevents, hchanges, announceChange_nameChangeOf]
    split
    · rfl
    · rw [List.flatMap_singleton]

end Log

section Steps

variable {ok : Core → Leave → Prop} {x x' : Aux} {c c' : Core} {said : List Event} {n : Bytes}

/-- A queue does not depend on the activation of its name. -/
theorem nameQueue_setActivation (w : NameRegistry ℕ) (m : Bytes) (path : Option Bytes) (n : Bytes) :
    nameQueue (w.setActivation m path) n = nameQueue w n := by
  rw [NameRegistry.setActivation]
  cases hfind : w.nameTree.find? m with
  | none => rfl
  | some y =>
    dsimp only
    refine nameQueue_eq_of_list ?_ fun _ _ => rfl
    rw [NameRegistry.ownershipList, NameRegistry.ownershipList]
    by_cases hn : n = m
    · rw [hn, hfind, find?_setName]
    · rw [show ((w.setName m _).nameTree.find? n) = w.nameTree.find? n from SearchTree.find?_insert_of_ne _ hn _]

/-- The unique name of a peer starts with a colon. -/
theorem head?_addressIdToString (id : ℕ) : (addressIdToString id).head? = some (byte ':') := rfl

/-- What a step says about a well-known name is the change of its owner. -/
theorem Change.filter_about (hchange : Change ok x c x' c' said) (h : Good x c) (hsilent : x.silent = false)
    (hn : n.head? ≠ some (byte ':')) :
    said.filter (Event.about n) =
      announceChange (nameChangeOf n (nameQueue c.names n).primary (nameQueue c'.names n).primary) := by
  have hsame (p : Option ℕ) : [] = announceChange (nameChangeOf n p p) := by
    rw [announceChange_nameChangeOf, if_pos rfl]
  cases hchange with
  | announceUnique id old new hflushing =>
    rw [filter_about_announce_of_ne (n := n) (m := addressIdToString id) fun heq => hn (heq ▸ head?_addressIdToString id)]
    exact hsame _
  | drop id keys rule said hrule hsaid =>
    rw [Core.dropRule_eq]
    obtain ⟨rfl, -⟩ | ⟨rfl, -⟩ := hsaid
    · exact hsame _
    · exact hsame _
  | names w' m q pins busy said heffect hpatient hkept howners hbusy hactivated hsaid =>
    obtain hsaid | ⟨-, htrue⟩ := hsaid
    · have hqueue : nameQueue w' n = Function.update (nameQueue c.names) m q n :=
        congrFun (NameWorld.nameQueue_effect h.names heffect) n
      show said.filter (Event.about n) = announceChange (nameChangeOf n _ (nameQueue w' n).primary)
      rw [hsaid, filter_about_announceChange, hqueue, Function.update_apply, announceChange_nameChangeOf]
      by_cases hm : m = n
      · rw [hm, if_pos rfl]
        by_cases hold : (nameQueue c.names n).primary = q.primary
        · rw [if_pos hold, if_neg fun hne => hne.2 hold]
        · rw [if_neg hold, if_pos ⟨rfl, hold⟩]
      · rw [if_neg fun hne : m = n ∧ _ => hm hne.1, if_neg fun heq : n = m => hm heq.symm, if_pos rfl]
    · rw [hsilent] at htrue
      cases htrue
  | addActivation path m user held hnone hname hheld hbusy =>
    show [] = announceChange (nameChangeOf n _ (nameQueue (c.names.setActivation m (some path)) n).primary)
    rw [nameQueue_setActivation]
    exact hsame _
  | removeActivation path a hfind hrequests hmessages hbusy =>
    show [] = announceChange (nameChangeOf n _ (nameQueue (c.names.setActivation a.name none) n).primary)
    rw [nameQueue_setActivation]
    exact hsame _
  | endReply callee caller slot serial event hfind hevent hflushing =>
    have hother : Event.about n event = false := by cases event <;> first | rfl | exact absurd hevent id
    rw [List.filter_cons_of_neg (by rw [hother]; exact Bool.false_ne_true)]
    exact hsame _
  | _ => exact hsame _

/-- The log of a name along some moves. -/
theorem NameLogged.moves {s s' : Aux × Bus} (hn : n.head? ≠ some (byte ':')) (hmoves : Moves ok s s')
    (h : Good s.1 s.2.core) (hlog : NameLogged n s.2.record (nameQueue s.2.names n).primary)
    (hsilent : s'.1.silent = false) : NameLogged n s'.2.record (nameQueue s'.2.names n).primary :=
  hmoves.ledger_running (L := fun _ c record => NameLogged n record (nameQueue c.names n).primary)
    (fun _ _ _ _ _ _ hgood hchange hrunning hlog => hlog.append (hchange.filter_about hgood hrunning hn)) h hlog hsilent

/-- Where messages went is no matter for the log. -/
theorem NameLogged.of_record {b : Bus} {owner : Option ℕ} (h : NameLogged n b.record owner) :
    NameLogged n b.trace owner := by
  have hsame : nameChanges n b.trace = nameChanges n b.record := by
    rw [nameChanges_filter, filter_about, ← nameChanges_filter]
    rfl
  constructor
  · rw [hsame]
    exact h.chain
  · rw [hsame, filter_about]
    exact h.told

end Steps

section Records

variable {x : Aux} {b : Bus}

/-- A record of a change of the owner of a name, for any name: there is one if and only if the owners before and
after differ, and these are the owners in it. -/
def Recorded (w w' : NameRegistry ℕ) (change : NameChange ℕ) : Prop :=
  ∀ n old new, change = ⟨some n, old, new⟩ ↔ nameOwnerOf w n = old ∧ nameOwnerOf w' n = new ∧ old ≠ new

/-- The primary owner is the first in the queue. -/
theorem NameBooks.nameOwnerOf_eq {w : NameRegistry ℕ} {held : Bytes → ℕ} (h : NameBooks w held) (n : Bytes) :
    nameOwnerOf w n = (nameQueue w n).primary := (h.names n).primary_eq.symm

/-- Nothing happens, and nothing is recorded. -/
theorem recorded_init (w : NameRegistry ℕ) : Recorded w w .init := by
  intro n old new
  refine iff_of_false (fun h => by cases h) fun h => ?_
  exact h.2.2 (h.1.symm.trans h.2.1)

/-- The record of what an operation did to a name. -/
theorem NameEffect.recorded {w w' : NameRegistry ℕ} {held : Bytes → ℕ} {m : Bytes} {pins : ℕ} {q : OwnerQueue ℕ}
    (h : NameBooks w held) (heffect : NameEffect w w' m pins q) (hpatient : q.Patient) :
    Recorded w w' (nameChangeOf m (nameQueue w m).primary q.primary) := by
  have hbooks : NameBooks w' (Function.update held m pins) := h.effect heffect hpatient
  intro n old new
  rw [h.nameOwnerOf_eq, hbooks.nameOwnerOf_eq, NameWorld.nameQueue_effect h heffect, Function.update_apply, nameChangeOf]
  by_cases hn : n = m
  · rw [if_pos hn, hn]
    by_cases hsame : (nameQueue w m).primary = q.primary
    · rw [if_pos hsame]
      refine iff_of_false (fun heq => by cases heq) fun heq => ?_
      exact heq.2.2 (heq.1.symm.trans (hsame.trans heq.2.1))
    · rw [if_neg hsame]
      constructor
      · intro heq
        cases heq
        exact ⟨rfl, rfl, hsame⟩
      · intro heq
        rw [heq.1, heq.2.1]
  · rw [if_neg hn]
    refine iff_of_false (fun heq => ?_) fun heq => heq.2.2 (heq.1.symm.trans heq.2.1)
    split at heq
    · cases heq
    · cases heq
      exact hn rfl

/-- `peer_request_name` records the change. -/
theorem Good.recorded_peerRequestName (h : Good x b.core) (policy : Policy) (id : ℕ) (name : Bytes) (flags : UInt32) :
    Recorded b.names (peerRequestName policy b id name flags).1.names (peerRequestName policy b id name flags).2.1 := by
  have hbooks : NameBooks b.names (b.core.pins x.held) := h.names
  rw [peerRequestName]
  split_ifs
  · exact recorded_init b.names
  · exact recorded_init b.names
  · exact recorded_init b.names
  · obtain ⟨users', w', hrequest, heffect⟩ := nameRegistryRequestName_spec b.idle b.users id (b.userOf id) flags
      (hbooks.names name) hbooks.fresh fun a ha => (hbooks.counted ha).2
    rw [hrequest]
    exact heffect.recorded hbooks ((hbooks.patient name).requestWithin _ id flags)

/-- `peer_release_name` records the change. -/
theorem Good.recorded_peerReleaseName (h : Good x b.core) (id : ℕ) (name : Bytes) :
    Recorded b.names (peerReleaseName b id name).1.names (peerReleaseName b id name).2.1 := by
  have hbooks : NameBooks b.names (b.core.pins x.held) := h.names
  rw [peerReleaseName]
  split_ifs
  · exact recorded_init b.names
  · exact recorded_init b.names
  · obtain ⟨users', w', hrelease, heffect⟩ := nameRegistryReleaseName_spec b.idle b.users id (hbooks.names name)
      fun a ha => hbooks.counted ha
    rw [hrelease]
    exact heffect.recorded hbooks ((hbooks.patient name).release id)

/-- `peer_release_name_ownership` records the change. -/
theorem Good.recorded_peerReleaseNameOwnership (h : Good x b.core) (ownership : ℕ) :
    Recorded b.names (peerReleaseNameOwnership b ownership).1.names (peerReleaseNameOwnership b ownership).2 := by
  have hbooks : NameBooks b.names (b.core.pins x.held) := h.names
  rw [peerReleaseNameOwnership]
  cases ho : b.names.ownerships.find? ownership with
  | none =>
    rw [nameOwnershipRelease, ho]
    exact recorded_init b.names
  | some o =>
    obtain ⟨users', w', hrelease, heffect⟩ := nameOwnershipRelease_spec b.idle b.users (hbooks.names o.name) ho rfl
      fun a ha => hbooks.counted ha
    rw [hrelease]
    exact heffect.recorded hbooks ((hbooks.patient o.name).without o.owner)

end Records

section Signals

variable (sizes : Sizes) (policy : Policy)

/-- A message that was sent on behalf of the driver, and not only copied to monitors. -/
def Event.isSignal : Event → Bool
  | .sent _ _ _ => true
  | .forwarded _ _ metadata _ _ => metadata.destination.isNone
  | _ => false

/-- A message to one peer about a name. -/
def nameSignal (member n : Bytes) (peer : ℕ) : Event := .sent peer (driverSignal (some peer) member [.s n]) [.s n]

/-- A delivery is not recorded. -/
theorem trace_peerDeliver (b : Bus) (receiver : ℕ) (m : Message) : (peerDeliver sizes b receiver m).trace = b.trace := by
  have hqueue : (peerConnectionQueue sizes b receiver none m).1.trace = b.trace := rfl
  rw [peerDeliver]
  cases hresult : peerConnectionQueue sizes b receiver none m with
  | mk b' r =>
    rw [hresult] at hqueue
    cases r <;> exact hqueue

/-- Deliveries are not recorded. -/
theorem trace_foldl_peerDeliver (m : Message) (receivers : List ℕ) (b : Bus) :
    (receivers.foldl (fun b receiver => peerDeliver sizes b receiver m) b).trace = b.trace := by
  induction receivers generalizing b with
  | nil => rfl
  | cons receiver rest ih => exact (ih _).trans (trace_peerDeliver sizes b receiver m)

/-- What was done from one state to another includes some signals. -/
def Signals (b : Bus) (signals : List Event) (b' : Bus) : Prop :=
  ∃ events, b'.trace = b.trace ++ events ∧ events.filter Event.isSignal = signals

/-- Signals come one after the other. -/
theorem Signals.trans {b b' b'' : Bus} {signals signals' : List Event} (h : Signals b signals b')
    (h' : Signals b' signals' b'') : Signals b (signals ++ signals') b'' := by
  obtain ⟨events, htrace, hfilter⟩ := h
  obtain ⟨events', htrace', hfilter'⟩ := h'
  refine ⟨events ++ events', ?_, ?_⟩
  · rw [htrace', htrace, List.append_assoc]
  · rw [List.filter_append, hfilter, hfilter']

/-- Events are recorded. -/
theorem signals_log (b : Bus) (events : List Event) : Signals b (events.filter Event.isSignal) (b.log events) :=
  ⟨events, rfl, rfl⟩

/-- Another state with the same record. -/
theorem Signals.congr {b b' b'' : Bus} {signals : List Event} (h : Signals b signals b') (htrace : b''.trace = b'.trace) :
    Signals b signals b'' := by
  obtain ⟨events, htrace', hfilter⟩ := h
  exact ⟨events, htrace.trans htrace', hfilter⟩

/-- What becomes of a connection that gets a message: it has the message at the end of its queue, it was shut down before
and swallows the message, or it is shut down because it cannot take it. -/
inductive Connection.Gets (c : Connection) (m : Message) : Connection → Prop
  | queued (charges : UserCharge × UserCharge) : Gets c m { c with queue := c.queue ++ [⟨m, charges⟩] }
  | swallowed (hdown : (c.hupOut || c.shutdown) = true) : Gets c m c
  | refused : Gets c m (connectionShutdown c)

/-- A delivery puts the message on the connection of the receiver. -/
theorem gets_peerDeliver (b : Bus) (receiver : ℕ) (m : Message) :
    (b.connections receiver).Gets m ((peerDeliver sizes b receiver m).connections receiver) := by
  have hset : ∀ (b : Bus) (c : Connection), (b.setConnection receiver c).connections receiver = c :=
    fun b c => by
      dsimp only [Bus.setConnection]
      exact Function.update_self receiver c b.connections
  rw [peerDeliver, peerConnectionQueue, connectionQueue]
  split_ifs with hfds hdown
  · simp only [hset]
    exact .refused
  · simp only [hset]
    exact .swallowed hdown
  · obtain ⟨users, charges, r⟩ := socketBufferCharge sizes b.users (b.connections receiver).user none m
    cases r with
    | success =>
      simp only [hset]
      exact .queued charges
    | quota =>
      simp only [hset]
      exact .refused

/-- A message to one peer is recorded once as copied to the monitors and once as sent, and what is recorded as sent is put
on the connection of the peer. -/
theorem driverSendUnicast_delivers (b : Bus) (peer : ℕ) (metadata : MessageMetadata) (body : List DriverArg) (nFds : ℕ) :
    (driverSendUnicast sizes b peer metadata body nFds).trace = b.trace ++
        [.forwarded none [] metadata (busGetMonitorDestinations b [] none metadata) [], .sent peer metadata body] ∧
      ((driverMonitor sizes b none ⟨metadata, sizes.driverMessage metadata, nFds⟩).connections peer).Gets
        ⟨metadata, sizes.driverMessage metadata, nFds⟩
        ((driverSendUnicast sizes b peer metadata body nFds).connections peer) := by
  refine ⟨?_, gets_peerDeliver sizes (Bus.log _ _) peer _⟩
  have hcopies : (driverMonitor sizes b none ⟨metadata, sizes.driverMessage metadata, nFds⟩).trace = b.trace ++
      [.forwarded none [] metadata (busGetMonitorDestinations b [] none metadata) []] :=
    trace_foldl_peerDeliver sizes _ _ _
  rw [driverSendUnicast, trace_peerDeliver, Bus.log]
  dsimp only
  rw [hcopies, List.append_assoc]
  rfl

/-- A message to one peer is copied to the monitors and sent once. -/
theorem signals_driverSendUnicast (b : Bus) (peer : ℕ) {metadata : MessageMetadata} (body : List DriverArg) (nFds : ℕ)
    (hdestination : metadata.destination.isSome) :
    Signals b [.sent peer metadata body] (driverSendUnicast sizes b peer metadata body nFds) := by
  refine ⟨_, (driverSendUnicast_delivers sizes b peer metadata body nFds).1, ?_⟩
  have hcopy : Event.isSignal (.forwarded none [] metadata (busGetMonitorDestinations b [] none metadata) []) = false :=
    Option.isNone_eq_false_iff.mpr hdestination
  rw [List.filter_cons_of_neg (by rw [hcopy]; exact Bool.false_ne_true)]
  rfl

/-- A signal to one peer is sent once. -/
theorem signals_driverNotifyName (b : Bus) (peer : ℕ) (member n : Bytes) :
    Signals b [nameSignal member n peer] (driverNotifyName sizes b peer member n) :=
  signals_driverSendUnicast sizes b peer [.s n] 0 rfl

/-- The signals about the change of the owner of a name: one that it was lost, one to everybody, and one that it was
acquired. -/
def changeSignals (n : Bytes) (old new : Option ℕ) (destinations denied : List ℕ) : List Event :=
  (old.toList.map (nameSignal (lit "NameLost") n)) ++
    .forwarded none [] (nameOwnerChangedMetadata n (ownerString old) (ownerString new)) destinations denied ::
    (new.toList.map (nameSignal (lit "NameAcquired") n))

/-- The peer concerned gets one signal, if there is one. -/
theorem signals_concerned (b : Bus) (peer : Option ℕ) (n member : Bytes) {f : Bus → ℕ → Bus}
    (hf : ∀ b peer, Signals b [nameSignal member n peer] (f b peer)) :
    Signals b (peer.toList.map (nameSignal member n)) (match peer with
      | some peer => f b peer
      | none => b) := by
  cases peer with
  | none => exact ⟨[], (List.append_nil _).symm, rfl⟩
  | some peer => exact hf b peer

/-- `driver_notify_name_owner_changed` sends one signal. -/
theorem signals_driverNotifyNameOwnerChanged (b : Bus) (registry : RegistryRef) (n old new : Bytes) :
    ∃ destinations denied, Signals b [.forwarded none [] (nameOwnerChangedMetadata n old new) destinations denied]
      (driverNotifyNameOwnerChanged sizes policy b registry n old new) := by
  rw [driverNotifyNameOwnerChanged]
  exact ⟨_, _, (signals_log b [.forwarded none [] (nameOwnerChangedMetadata n old new) _ _]).congr
    (trace_foldl_peerDeliver sizes _ _ _)⟩

/-- `driver_name_owner_changed` sends each signal once. -/
theorem signals_driverNameOwnerChanged (b : Bus) (registry : RegistryRef) (n : Bytes) (old new : Option ℕ) :
    ∃ destinations denied, Signals b (changeSignals n old new destinations denied)
      (driverNameOwnerChanged sizes policy b registry n old new) := by
  have hlost := signals_concerned b old n (lit "NameLost") (f := fun b peer => driverNotifyNameLost sizes b peer n)
    fun b peer => (signals_log b [.nameLost peer n]).trans (signals_driverNotifyName sizes _ peer _ n)
  obtain ⟨b₁, hb₁⟩ : ∃ b₁, b₁ = (match old with
    | some peer => driverNotifyNameLost sizes b peer n
    | none => b) := ⟨_, rfl⟩
  obtain ⟨destinations, denied, hchanged⟩ := signals_driverNotifyNameOwnerChanged sizes policy
    (b₁.log [.nameOwnerChanged n old new]) registry n (ownerString old) (ownerString new)
  have hacquired (b : Bus) := signals_concerned b new n (lit "NameAcquired")
    (f := fun b peer => driverNotifyNameAcquired sizes b peer n)
    fun b peer => (signals_log b [.nameAcquired peer n]).trans (signals_driverNotifyName sizes _ peer _ n)
  refine ⟨destinations, denied, ?_⟩
  rw [← hb₁] at hlost
  have hall := (hlost.trans ((signals_log b₁ [.nameOwnerChanged n old new]).trans hchanged)).trans (hacquired _)
  rw [List.append_assoc, hb₁] at hall
  exact hall

end Signals

section Run

variable (sizes : Sizes) {x : Aux} {b : Bus}

/-- The names of a peer that leaves are released one by one, and every change is recorded. -/
theorem Good.along_releaseEntries (h : Good x b.core) (policy : Policy) (silent : Bool) (id : ℕ)
    {entries : List (Bytes × ℕ)} (hnodup : (entries.map Prod.fst).Nodup)
    (hlive : ∀ e ∈ entries, ∃ o, b.names.ownerships.find? e.2 = some o ∧ o.owner = id ∧ o.name = e.1)
    (hsilent : silent = true → x.silent = true) (hflushing : x.flushing = false) (harming : x.arming = none) :
    Along (driverReleaseOwnership sizes policy silent) (fun b ownership =>
        Recorded b.names (peerReleaseNameOwnership b ownership).1.names (peerReleaseNameOwnership b ownership).2) b
      (entries.map Prod.snd) := by
  induction entries generalizing b with
  | nil => trivial
  | cons e rest ih =>
    rw [List.map_cons, List.nodup_cons] at hnodup
    obtain ⟨o, ho, howner, hname⟩ := hlive e List.mem_cons_self
    obtain ⟨hmoves, w', hcore, -, honly⟩ : Moves anyRule (x, b) _ ∧ _ :=
      moves_driverReleaseOwnership sizes policy h ho hsilent hflushing harming
    have hnames : (driverReleaseOwnership sizes policy silent b e.2).names = w' := congrArg Core.names hcore
    refine ⟨h.recorded_peerReleaseNameOwnership e.2, ih (h.moves hmoves) hnodup.2 fun e' he' => ?_⟩
    obtain ⟨o', ho', howner', hname'⟩ := hlive e' (List.mem_cons_of_mem e he')
    have hne : o'.name ≠ o.name := by
      rw [hname, hname']
      exact fun heq => hnodup.1 (List.mem_map.mpr ⟨e', he', heq⟩)
    rw [hnames]
    exact ⟨o', (honly.ownerships e'.2 o' hne).mpr ho', howner', hname'⟩

/-- Every operation on names from some state on records exactly the changes of primary owners: a request, a release,
and each release of a peer that says goodbye. -/
def RecordsChanges (b : Bus) : Prop :=
  (∀ policy id name flags, Recorded b.names (peerRequestName policy b id name flags).1.names
      (peerRequestName policy b id name flags).2.1) ∧
    (∀ id name, Recorded b.names (peerReleaseName b id name).1.names (peerReleaseName b id name).2.1) ∧
    ∀ policy id, Along (driverReleaseOwnership sizes policy false) (fun b ownership =>
        Recorded b.names (peerReleaseNameOwnership b ownership).1.names (peerReleaseNameOwnership b ownership).2)
      (goodbyeCalls b id) ((goodbyeCalls b id).names.owners id).ownershipTree.values

/-- A bus that is at rest records every change. -/
theorem Good.recordsChanges {held : Bytes → ℕ} {silent : Bool} (h : Good (.rest held silent) b.core) :
    RecordsChanges sizes b := by
  refine ⟨h.recorded_peerRequestName, h.recorded_peerReleaseName, fun policy id => ?_⟩
  obtain ⟨hmoves, -⟩ : Moves anyRule (.rest held silent, b) _ ∧ _ := moves_goodbyeCalls h (.inl rfl) rfl rfl
  have hgood := h.moves hmoves
  have hbooks : NameBooks (goodbyeCalls b id).names ((goodbyeCalls b id).core.pins held) := hgood.names
  refine hgood.along_releaseEntries sizes policy false id
    ((goodbyeCalls b id).names.owners id).ownershipTree.nodup_keys (fun e he => ?_) (fun hyes => by cases hyes) rfl rfl
  have hfind := (((goodbyeCalls b id).names.owners id).ownershipTree.find?_eq_some_iff e.1 e.2).mpr he
  exact ((hbooks.names e.1).owned id e.2).mp hfind

/-- In every state of every run of a broker: an operation on names records a change of a name if and only if its
primary owner differs before and after, with these two owners; until the broker ends, what the driver told about a
well-known name is a log from no owner to the current one; and telling about a change sends each of its signals
once. -/
theorem Broker.run_nameLog (users : UserRegistry) (user : Uid) (controller : Connection) (ops : List BrokerOp) :
    let s := run (Broker.step sizes) (.init users user controller) ops
    RecordsChanges sizes s.bus ∧
      (s.running = true → ∀ n, n.head? ≠ some (byte ':') → NameLogged n s.bus.trace (nameOwnerOf s.bus.names n)) ∧
      ∀ policy change, ∃ events, (driverNameChanged sizes policy s.bus change).trace = s.bus.trace ++ events ∧
        (events.filter fun e => !e.isEmission) = announceChange change ∧
        ∀ n, change.name = some n → ∃ destinations denied,
          events.filter Event.isSignal = changeSignals n change.oldOwner change.newOwner destinations denied := by
  intro s
  have hinit : Good (.rest (fun _ => 0) (!(Broker.init users user controller).running))
      (Broker.init users user controller).bus.core := good_init users user controller
  obtain ⟨held, hmoves⟩ := moves_anyRun sizes hinit ops
  have hgood : Good (.rest held (!s.running)) s.bus.core := hinit.moves hmoves
  have hbooks : NameBooks s.bus.names (s.bus.core.pins held) := hgood.names
  refine ⟨hgood.recordsChanges sizes, fun hrunning n hn => ?_, fun policy change => ?_⟩
  · rw [hbooks.nameOwnerOf_eq]
    exact (NameLogged.moves hn hmoves hinit ⟨rfl, rfl⟩ (by rw [Aux.rest, show _ = true from hrunning]; rfl)).of_record
  · obtain ⟨users', connections, events, hsays, -, hresult⟩ := sent_driverNameChanged sizes s.bus policy change
    have htrace : (driverNameChanged sizes policy s.bus change).trace = s.bus.trace ++ events := by rw [hresult]
    refine ⟨events, htrace, hsays.said, fun n hn => ?_⟩
    obtain ⟨name, old, new⟩ := change
    cases hn
    obtain ⟨destinations, denied, events', htrace', hsignals⟩ :=
      signals_driverNameOwnerChanged sizes policy s.bus (.nameNameOwnerChanged n) n old new
    have hsame : events = events' := List.append_cancel_left (htrace.symm.trans htrace')
    exact ⟨destinations, denied, by rw [hsame]; exact hsignals⟩

end Run

end DbusBroker
