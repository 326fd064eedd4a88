import DbusBroker.Broker.NameLog

/-!
# The log of the activations

What waits for an activation is in a queue: everything that was queued at a path was resolved, in the order in which
it was queued, or still waits there. How a request or a message was resolved is justified by what was recorded before
it: by the owner of the name then, and by whether the sender was still registered.
-/

namespace DbusBroker

open Std Machine Record

section Queues

/-- A request that was queued at a path. -/
def Event.queuedRequest (path : Bytes) : Event → Option (ℕ × UInt32)
  | .requestQueued p sender serial => if p = path then some (sender, serial) else none
  | _ => none

/-- A request that was resolved at a path. -/
def Event.resolvedRequest (path : Bytes) : Event → Option (ℕ × UInt32)
  | .requestResolved p _ sender serial _ => if p = path then some (sender, serial) else none
  | _ => none

/-- A message that was queued at a path. -/
def Event.queuedMessage (path : Bytes) : Event → Option Message
  | .messageQueued p message => if p = path then some message else none
  | _ => none

/-- A message that was resolved at a path. -/
def Event.resolvedMessage (path : Bytes) : Event → Option Message
  | .messageResolved p _ message _ _ => if p = path then some message else none
  | _ => none

/-- The requests that wait at a path. -/
def waitingRequests (activations : StringTree Activation) (path : Bytes) : List (ℕ × UInt32) :=
  (activations.find? path).elim [] fun a => a.requests.map fun r => (r.senderId, r.serial)

/-- The messages that wait at a path. -/
def waitingMessages (activations : StringTree Activation) (path : Bytes) : List Message :=
  (activations.find? path).elim [] fun a => a.messages.map (·.message)

/-- Whatever was queued at a path was resolved in this order or waits, and expects a reply if it is a request. -/
structure Queued (activations : StringTree Activation) (path : Bytes) (trace : List Event) : Prop where
  requests : trace.filterMap (Event.queuedRequest path) =
    trace.filterMap (Event.resolvedRequest path) ++ waitingRequests activations path
  messages : trace.filterMap (Event.queuedMessage path) =
    trace.filterMap (Event.resolvedMessage path) ++ waitingMessages activations path
  answerable : ∀ r ∈ trace.filterMap (Event.queuedRequest path), r.2 ≠ 0

/-- Something that waits or waited for an activation is concerned. -/
def Event.concernsActivation : Event → Bool
  | .requestQueued _ _ _ | .requestResolved _ _ _ _ _ | .messageQueued _ _ | .messageResolved _ _ _ _ _ => true
  | _ => false

variable {activations activations' : StringTree Activation} {path p : Bytes} {a a' : Activation} {record said : List Event}

/-- The requests after an activation was written. -/
theorem waitingRequests_insert (activations : StringTree Activation) (p path : Bytes) (a : Activation) :
    waitingRequests (activations.insert p a) path =
      if path = p then a.requests.map fun r => (r.senderId, r.serial) else waitingRequests activations path := by
  rw [waitingRequests, SearchTree.find?_insert]
  split
  · rfl
  · rfl

/-- The messages after an activation was written. -/
theorem waitingMessages_insert (activations : StringTree Activation) (p path : Bytes) (a : Activation) :
    waitingMessages (activations.insert p a) path =
      if path = p then a.messages.map (·.message) else waitingMessages activations path := by
  rw [waitingMessages, SearchTree.find?_insert]
  split
  · rfl
  · rfl

/-- Nothing waits for an activation that is erased. -/
theorem waiting_erase (hfind : activations.find? p = some a) (hrequests : a.requests = []) (hmessages : a.messages = []) :
    waitingRequests (activations.erase p) path = waitingRequests activations path ∧
      waitingMessages (activations.erase p) path = waitingMessages activations path := by
  rw [waitingRequests, waitingRequests, waitingMessages, waitingMessages, SearchTree.find?_erase]
  by_cases hpath : path = p
  · rw [if_pos hpath, hpath, hfind]
    exact ⟨by rw [Option.elim_some, hrequests]; rfl, by rw [Option.elim_some, hmessages]; rfl⟩
  · rw [if_neg hpath]
    exact ⟨rfl, rfl⟩

/-- Nothing waits for a new activation. -/
theorem waiting_insert_new (hnone : activations.find? p = none) (hrequests : a.requests = []) (hmessages : a.messages = []) :
    waitingRequests (activations.insert p a) path = waitingRequests activations path ∧
      waitingMessages (activations.insert p a) path = waitingMessages activations path := by
  rw [waitingRequests_insert, waitingMessages_insert, hrequests, hmessages]
  by_cases hpath : path = p
  · rw [if_pos hpath, if_pos hpath, waitingRequests, waitingMessages, hpath, hnone]
    exact ⟨rfl, rfl⟩
  · rw [if_neg hpath, if_neg hpath]
    exact ⟨rfl, rfl⟩

/-- The same waits for an activation that was written with its queues. -/
theorem waiting_insert_same (hfind : activations.find? p = some a) (hrequests : a'.requests = a.requests)
    (hmessages : a'.messages = a.messages) :
    waitingRequests (activations.insert p a') path = waitingRequests activations path ∧
      waitingMessages (activations.insert p a') path = waitingMessages activations path := by
  rw [waitingRequests_insert, waitingMessages_insert, hrequests, hmessages]
  by_cases hpath : path = p
  · rw [if_pos hpath, if_pos hpath, waitingRequests, waitingMessages, hpath, hfind]
    exact ⟨rfl, rfl⟩
  · rw [if_neg hpath, if_neg hpath]
    exact ⟨rfl, rfl⟩

/-- Nothing of what is said concerns an activation. -/
theorem filterMap_eq_nil {α : Type} {f : Event → Option α} (hf : ∀ e : Event, e.concernsActivation = false → f e = none)
    (hsaid : ∀ e ∈ said, e.concernsActivation = false) : said.filterMap f = [] :=
  List.filterMap_eq_nil_iff.mpr fun e he => hf e (hsaid e he)

/-- A step that leaves the queues alone. -/
theorem Queued.keep (h : Queued activations path record)
    (hsame : waitingRequests activations' path = waitingRequests activations path ∧
      waitingMessages activations' path = waitingMessages activations path)
    (hsaid : ∀ e ∈ said, e.concernsActivation = false) : Queued activations' path (record ++ said) := by
  have hnone : said.filterMap (Event.queuedRequest path) = [] ∧ said.filterMap (Event.resolvedRequest path) = [] ∧
      said.filterMap (Event.queuedMessage path) = [] ∧ said.filterMap (Event.resolvedMessage path) = [] := by
    refine ⟨?_, ?_, ?_, ?_⟩ <;> refine filterMap_eq_nil (fun e he => ?_) hsaid <;> cases e <;> first | rfl | cases he
  refine ⟨?_, ?_, ?_⟩
  · rw [List.filterMap_append, List.filterMap_append, hnone.1, hnone.2.1, List.append_nil, List.append_nil, h.requests,
      hsame.1]
  · rw [List.filterMap_append, List.filterMap_append, hnone.2.2.1, hnone.2.2.2, List.append_nil, List.append_nil,
      h.messages, hsame.2]
  · rw [List.filterMap_append, hnone.1, List.append_nil]
    exact h.answerable

/-- A request is queued. -/
theorem Queued.queueRequest (h : Queued activations path record) (hfind : activations.find? p = some a)
    {request : ActivationRequest} (hserial : request.serial ≠ 0) :
    Queued (activations.insert p { a with requests := a.requests ++ [request] }) path
      (record ++ [.requestQueued p request.senderId request.serial]) := by
  have hmessages : waitingMessages (activations.insert p { a with requests := a.requests ++ [request] }) path =
      waitingMessages activations path := by
    rw [waitingMessages_insert]
    split
    · next hpath => rw [waitingMessages, hpath, hfind, Option.elim_some]
    · rfl
  by_cases hpath : p = path
  · have hwaiting : waitingRequests activations path = a.requests.map fun r => (r.senderId, r.serial) := by
      rw [waitingRequests, ← hpath, hfind, Option.elim_some]
    refine ⟨?_, ?_, fun r hr => ?_⟩
    · rw [waitingRequests_insert, if_pos hpath.symm, List.map_append, ← hwaiting]
      simp [Event.queuedRequest, Event.resolvedRequest, hpath, h.requests]
    · rw [hmessages]
      simp [List.filterMap_cons, Event.queuedMessage, Event.resolvedMessage, h.messages]
    · rw [List.filterMap_append] at hr
      rcases List.mem_append.mp hr with hr | hr
      · exact h.answerable r hr
      · simp only [List.filterMap_cons, Event.queuedRequest, if_pos hpath, List.filterMap_nil, List.mem_singleton] at hr
        rw [hr]
        exact hserial
  · refine ⟨?_, ?_, ?_⟩
    · rw [waitingRequests_insert, if_neg fun heq => hpath heq.symm]
      simp [Event.queuedRequest, Event.resolvedRequest, hpath, h.requests]
    · rw [hmessages]
      simp [List.filterMap_cons, Event.queuedMessage, Event.resolvedMessage, h.messages]
    · simpa [Event.queuedRequest, hpath] using h.answerable

/-- A message is queued. -/
theorem Queued.queueMessage (h : Queued activations path record) (hfind : activations.find? p = some a)
    (message : ActivationMessage) :
    Queued (activations.insert p { a with messages := a.messages ++ [message] }) path
      (record ++ [.messageQueued p message.message]) := by
  have hrequests : waitingRequests (activations.insert p { a with messages := a.messages ++ [message] }) path =
      waitingRequests activations path := by
    rw [waitingRequests_insert]
    split
    · next hpath => rw [waitingRequests, hpath, hfind, Option.elim_some]
    · rfl
  refine ⟨?_, ?_, ?_⟩
  · rw [hrequests]
    simp [List.filterMap_cons, Event.queuedRequest, Event.resolvedRequest, h.requests]
  · rw [waitingMessages_insert]
    by_cases hpath : p = path
    · have hwaiting : waitingMessages activations path = a.messages.map (·.message) := by
        rw [waitingMessages, ← hpath, hfind, Option.elim_some]
      rw [if_pos hpath.symm, List.map_append, ← hwaiting]
      simp [Event.queuedMessage, Event.resolvedMessage, hpath, h.messages]
    · rw [if_neg fun heq => hpath heq.symm]
      simp [Event.queuedMessage, Event.resolvedMessage, hpath, h.messages]
  · simpa [Event.queuedRequest] using h.answerable

/-- The first request is resolved. -/
theorem Queued.resolveRequest (h : Queued activations path record) (hfind : activations.find? p = some a)
    {request : ActivationRequest} {rest : List ActivationRequest} (hrequests : a.requests = request :: rest)
    (outcome : Outcome) :
    Queued (activations.insert p { a with requests := rest }) path
      (record ++ [.requestResolved p a.name request.senderId request.serial outcome]) := by
  have hmessages : waitingMessages (activations.insert p { a with requests := rest }) path =
      waitingMessages activations path := by
    rw [waitingMessages_insert]
    split
    · next hpath => rw [waitingMessages, hpath, hfind, Option.elim_some]
    · rfl
  refine ⟨?_, ?_, ?_⟩
  · rw [waitingRequests_insert]
    by_cases hpath : p = path
    · have hwaiting : waitingRequests activations path =
          (request.senderId, request.serial) :: rest.map fun r => (r.senderId, r.serial) := by
        rw [waitingRequests, ← hpath, hfind, Option.elim_some, hrequests, List.map_cons]
      rw [if_pos hpath.symm]
      simp [Event.queuedRequest, Event.resolvedRequest, hpath, h.requests, hwaiting]
    · rw [if_neg fun heq => hpath heq.symm]
      simp [Event.queuedRequest, Event.resolvedRequest, hpath, h.requests]
  · rw [hmessages]
    simp [List.filterMap_cons, Event.queuedMessage, Event.resolvedMessage, h.messages]
  · simpa [Event.queuedRequest] using h.answerable

/-- The first message is resolved. -/
theorem Queued.resolveMessage (h : Queued activations path record) (hfind : activations.find? p = some a)
    {message : ActivationMessage} {rest : List ActivationMessage} (hmessages : a.messages = message :: rest)
    (attempt : Option (ℕ × PeerResult)) (error : Bool) :
    Queued (activations.insert p { a with messages := rest }) path
      (record ++ [.messageResolved p a.name message.message attempt error]) := by
  have hrequests : waitingRequests (activations.insert p { a with messages := rest }) path =
      waitingRequests activations path := by
    rw [waitingRequests_insert]
    split
    · next hpath => rw [waitingRequests, hpath, hfind, Option.elim_some]
    · rfl
  refine ⟨?_, ?_, ?_⟩
  · rw [hrequests]
    simp [List.filterMap_cons, Event.queuedRequest, Event.resolvedRequest, h.requests]
  · rw [waitingMessages_insert]
    by_cases hpath : p = path
    · have hwaiting : waitingMessages activations path = message.message :: rest.map (·.message) := by
        rw [waitingMessages, ← hpath, hfind, Option.elim_some, hmessages, List.map_cons]
      rw [if_pos hpath.symm]
      simp [Event.queuedMessage, Event.resolvedMessage, hpath, h.messages, hwaiting]
    · rw [if_neg fun heq => hpath heq.symm]
      simp [Event.queuedMessage, Event.resolvedMessage, hpath, h.messages]
  · simpa [Event.queuedRequest] using h.answerable

end Queues

section Steps

variable {ok : Core → Leave → Prop} {x x' : Aux} {c c' : Core} {record said : List Event} {path : Bytes}

/-- Nothing in the announcement of a name concerns an activation. -/
theorem concernsActivation_announce {n : Bytes} {old new : Option ℕ} :
    ∀ e ∈ announce n old new, e.concernsActivation = false := by
  intro e he
  rcases List.mem_append.mp he with hlost | hrest
  · obtain ⟨peer, -, rfl⟩ := List.mem_map.mp hlost
    rfl
  · rcases List.mem_cons.mp hrest with rfl | hacquired
    · rfl
    · obtain ⟨peer, -, rfl⟩ := List.mem_map.mp hacquired
      rfl

/-- An event that concerns no activation. -/
theorem concernsActivation_singleton {e : Event} (he : e.concernsActivation = false) :
    ∀ e' ∈ [e], e'.concernsActivation = false := by
  intro e' he'
  rw [List.mem_singleton.mp he']
  exact he

/-- Nothing was said. -/
theorem concernsActivation_nil : ∀ e ∈ ([] : List Event), e.concernsActivation = false :=
  fun _ he => absurd he List.not_mem_nil

/-- Every step keeps the queues. -/
theorem Queued.change (h : Queued c.activations path record) (hchange : Change ok x c x' c' said) :
    Queued c'.activations path (record ++ said) := by
  cases hchange with
  | queueRequest p a request hfind hpending hserial hbusy => exact h.queueRequest hfind hserial
  | queueMessage p a message held hfind hpending hheld hbusy => exact h.queueMessage hfind message
  | resolveRequest p a request rest outcome hfind hrequests => exact h.resolveRequest hfind hrequests outcome
  | resolveMessage p a message rest attempt error hfind hmessages => exact h.resolveMessage hfind hmessages attempt error
  | addActivation p n user held hnone => exact h.keep (waiting_insert_new hnone rfl rfl) concernsActivation_nil
  | removeActivation p a hfind hrequests hmessages =>
    exact h.keep (waiting_erase hfind hrequests hmessages) concernsActivation_nil
  | pend p a pending hfind => exact h.keep (waiting_insert_same hfind rfl rfl) concernsActivation_nil
  | settle p a hfind => exact h.keep (waiting_insert_same hfind rfl rfl) concernsActivation_nil
  | announceUnique id old new => exact h.keep ⟨rfl, rfl⟩ concernsActivation_announce
  | drop id keys rule said hrule hsaid =>
    rw [Core.dropRule_eq]
    refine h.keep ⟨rfl, rfl⟩ ?_
    obtain ⟨rfl, -⟩ | ⟨rfl, -⟩ := hsaid
    · exact concernsActivation_singleton rfl
    · exact concernsActivation_nil
  | names w' n q pins busy said heffect hpatient hkept howners hbusy hactivated hsaid =>
    refine h.keep ⟨rfl, rfl⟩ ?_
    obtain rfl | ⟨rfl, -⟩ := hsaid
    · rw [announceChange_nameChangeOf]
      split
      · exact concernsActivation_nil
      · exact concernsActivation_announce
    · exact concernsActivation_nil
  | endReply callee caller slot serial event hfind hevent =>
    refine h.keep ⟨rfl, rfl⟩ (concernsActivation_singleton ?_)
    cases event <;> first | rfl | exact absurd hevent id
  | _ => exact h.keep ⟨rfl, rfl⟩ (by simp [Event.concernsActivation])

end Steps

section Justified

/-- The owner of a name after what was recorded. -/
def ownerIn (n : Bytes) (record : List Event) : Option ℕ := valueAfter none (nameChanges n record)

/-- Whether the sender of a message was registered and expects a reply. -/
def expectsReplyIn (record : List Event) (m : Message) : Bool :=
  (m.metadata.senderId.any (registeredIn record)) && messageReadSerial m ≠ 0

/-- How the end of a wait is justified by what was recorded before it. A request was answered with a reply if the name
had an owner and with an error if it had none, but not at all if its sender was gone. A message was handed to the
owner if there was one, and its sender got an error if it was not or if it was refused, unless the sender was gone or
expects no reply. A call waits for a reply only if its caller was registered. -/
def Justified (pre : List Event) : Event → Prop
  | .requestResolved _ name sender _ outcome => name.head? ≠ some (byte ':') →
    outcome = if registeredIn pre sender then if (ownerIn name pre).isSome then .replied else .failed else .silent
  | .messageResolved _ name m attempt error => name.head? ≠ some (byte ':') →
    attempt.map Prod.fst = ownerIn name pre ∧
      error = ((attempt.all fun a => (activatedError a.2).isSome) && expectsReplyIn pre m)
  | .called _ caller _ => registeredIn pre caller = true
  | _ => True

variable {ok : Core → Leave → Prop} {x x' : Aux} {c c' : Core} {record said : List Event} {n : Bytes}

/-- The log of a name ends with its owner. -/
theorem NameLogged.ownerIn_eq {owner : Option ℕ} (h : NameLogged n record owner) : ownerIn n record = owner :=
  h.chain.eq_valueAfter.symm

/-- Whether a sender expects a reply can be read from the record. -/
theorem Roll.expectsReply (h : Roll x c record) (hleaving : x.leaving = none) (m : Message) :
    c.expectsReply m = expectsReplyIn record m := by
  have hsame : c.isRegistered = registeredIn record := funext fun id => h.isRegistered hleaving id
  rw [Core.expectsReply, expectsReplyIn, hsame]

/-- Something that needs no justification. -/
def Event.plain : Event → Bool
  | .requestResolved _ _ _ _ _ | .messageResolved _ _ _ _ _ | .called _ _ _ => false
  | _ => true

/-- Plain events are justified. -/
theorem justified_of_plain {e : Event} (he : e.plain = true) (pre : List Event) : Justified pre e := by
  cases e <;> first | exact Bool.noConfusion he | trivial

/-- Only plain events follow. -/
theorem explained_plain (h : Explained Justified record) (hsaid : ∀ e ∈ said, e.plain = true) :
    Explained Justified (record ++ said) :=
  h.append fun e he pre => justified_of_plain (hsaid e he) pre

/-- The announcement of a name is plain. -/
theorem plain_announce {old new : Option ℕ} : ∀ e ∈ announce n old new, e.plain = true := by
  intro e he
  rcases List.mem_append.mp he with hlost | hrest
  · obtain ⟨peer, -, rfl⟩ := List.mem_map.mp hlost
    rfl
  · rcases List.mem_cons.mp hrest with rfl | hacquired
    · rfl
    · obtain ⟨peer, -, rfl⟩ := List.mem_map.mp hacquired
      rfl

/-- Every step says what is justified. -/
theorem explained_change (h : Explained Justified record) (hroll : Roll x c record)
    (hnames : ∀ n, n.head? ≠ some (byte ':') → NameLogged n record (nameQueue c.names n).primary)
    (hchange : Change ok x c x' c' said) : Explained Justified (record ++ said) := by
  have hnil : ∀ e ∈ ([] : List Event), e.plain = true := fun _ he => absurd he List.not_mem_nil
  have hone {e : Event} (he : e.plain = true) : ∀ e' ∈ [e], e'.plain = true := by
    intro e' he'
    rw [List.mem_singleton.mp he']
    exact he
  cases hchange with
  | resolveRequest p a request rest outcome hfind hrequests hpending hbusy houtcome hreplied hfailed hgiveUp hleaving =>
    refine h.concat fun hname => ?_
    rw [← hroll.isRegistered hleaving, (hnames a.name hname).ownerIn_eq]
    cases hregistered : c.isRegistered request.senderId with
    | false => exact houtcome.mpr hregistered
    | true =>
      rw [if_pos rfl]
      cases outcome with
      | replied => rw [if_pos (Option.isSome_iff_ne_none.mpr (hreplied rfl))]
      | failed => rw [if_neg (by rw [hfailed rfl]; exact Bool.false_ne_true)]
      | silent =>
        rw [houtcome.mp rfl] at hregistered
        cases hregistered
  | resolveMessage p a message rest attempt error hfind hmessages hpending hbusy hresolves hgiveUp hleaving =>
    refine h.concat fun hname => ?_
    rw [← hroll.expectsReply hleaving, (hnames a.name hname).ownerIn_eq]
    obtain ⟨rfl, hprimary, rfl⟩ | ⟨receiver, r, rfl, hprimary, rfl⟩ := hresolves
    · exact ⟨hprimary.symm, (Bool.true_and _).symm⟩
    · exact ⟨hprimary.symm, rfl⟩
  | call callee caller serial charge hnone hcallee hcaller hserial hleaving =>
    refine h.concat ?_
    show registeredIn record caller = true
    rw [← hroll.isRegistered hleaving]
    exact hcaller
  | announceUnique id old new => exact explained_plain h plain_announce
  | drop id keys rule said hrule hsaid =>
    refine explained_plain h ?_
    obtain ⟨rfl, -⟩ | ⟨rfl, -⟩ := hsaid
    · exact hone rfl
    · exact hnil
  | names w' n q pins busy said heffect hpatient hkept howners hbusy hactivated hsaid =>
    refine explained_plain h ?_
    obtain rfl | ⟨rfl, -⟩ := hsaid
    · rw [announceChange_nameChangeOf]
      split
      · exact hnil
      · exact plain_announce
    · exact hnil
  | endReply callee caller slot serial event hfind hevent =>
    refine explained_plain h (hone ?_)
    cases event <;> first | rfl | exact absurd hevent id
  | _ => exact explained_plain h (by simp [Event.plain])

end Justified

section GivingUp

variable {x x' : Aux} {c c' : Core} {said : List Event} {path : Bytes}

/-- Something that waited at a path ended because the activation was given up. -/
def Event.gaveUp (path : Bytes) : Event → Bool
  | .requestResolved p _ _ _ outcome => p == path && outcome == .failed
  | .messageResolved p _ _ attempt _ => p == path && attempt.isNone
  | _ => false

/-- The activation at a path is not given up. -/
def keepsOn (path : Bytes) (_ : Core) (l : Leave) : Prop := l ≠ .giveUp path

/-- Nothing in the announcement of a name is given up. -/
theorem gaveUp_announce {n : Bytes} {old new : Option ℕ} : (announce n old new).filter (Event.gaveUp path) = [] := by
  cases old <;> cases new <;> rfl

/-- Without leave to give up a step does not. -/
theorem Change.filter_gaveUp (hchange : Change (keepsOn path) x c x' c' said) : said.filter (Event.gaveUp path) = [] := by
  cases hchange with
  | resolveRequest p a request rest outcome hfind hrequests hpending hbusy houtcome hreplied hfailed hgiveUp =>
    have hno : (p == path && outcome == .failed) = false := by
      rw [Bool.and_eq_false_iff, beq_eq_false_iff_ne, beq_eq_false_iff_ne]
      by_cases hp : p = path
      · exact .inr fun houtcome => hgiveUp houtcome (congrArg Leave.giveUp hp)
      · exact .inl hp
    exact List.filter_cons_of_neg (by rw [Event.gaveUp, hno]; exact Bool.false_ne_true)
  | resolveMessage p a message rest attempt error hfind hmessages hpending hbusy hresolves hgiveUp =>
    have hno : (p == path && attempt.isNone) = false := by
      rw [Bool.and_eq_false_iff, beq_eq_false_iff_ne]
      by_cases hp : p = path
      · refine .inr (Bool.eq_false_iff.mpr fun hnone => ?_)
        exact hgiveUp (Option.isNone_iff_eq_none.mp hnone) (congrArg Leave.giveUp hp)
      · exact .inl hp
    exact List.filter_cons_of_neg (by rw [Event.gaveUp, hno]; exact Bool.false_ne_true)
  | announceUnique => exact gaveUp_announce
  | drop id keys rule said hrule hsaid =>
    obtain ⟨rfl, -⟩ | ⟨rfl, -⟩ := hsaid
    · rfl
    · rfl
  | names w' n q pins busy said heffect hpatient hkept howners hbusy hactivated hsaid =>
    obtain rfl | ⟨rfl, -⟩ := hsaid
    · rw [announceChange_nameChangeOf]
      split
      · rfl
      · exact gaveUp_announce
    · rfl
  | endReply callee caller slot serial event hfind hevent => cases event <;> first | rfl | exact absurd hevent id
  | _ => rfl

/-- An event that ends the activation at a path without an owner: its release, or a reset with its number. -/
def BrokerOp.endsActivation (b : Bus) (path : Bytes) : BrokerOp → Prop
  | .releaseName p _ => p = path
  | .resetName p serial _ => p = path ∧ ∃ a, b.activations.find? path = some a ∧ a.pending ≠ 0 ∧ serial = a.pending
  | _ => False

/-- All other events keep on. -/
theorem brokerMeets_keepsOn {s : Broker} {op : BrokerOp} (hop : ¬ op.endsActivation s.bus path) :
    BrokerMeets (keepsOn path) s op := by
  cases op with
  | message => exact ⟨fun _ _ _ _ _ _ _ => Leave.noConfusion, fun _ _ _ _ _ _ _ _ _ _ _ _ => Leave.noConfusion⟩
  | releaseName p reason => exact fun _ heq => hop (Leave.giveUp.inj heq)
  | resetName p serial reason =>
    intro a hfind hpending hserial _ heq
    cases heq
    exact hop ⟨rfl, a, hfind, hpending, hserial⟩
  | _ => trivial

end GivingUp

section Answers

variable (sizes : Sizes) {b b' b'' : Bus} {said said' signals signals' : List Event} {path : Bytes} {a : Activation}

/-- What was done from one state to another: what was said, and which messages were sent. -/
def Tells (b : Bus) (said signals : List Event) (b' : Bus) : Prop :=
  ∃ events, b'.trace = b.trace ++ events ∧ (events.filter fun e => !e.isEmission) = said ∧
    events.filter Event.isSignal = signals

/-- One thing is done after the other. -/
theorem Tells.trans (h : Tells b said signals b') (h' : Tells b' said' signals' b'') :
    Tells b (said ++ said') (signals ++ signals') b'' := by
  obtain ⟨events, htrace, hsaid, hsignals⟩ := h
  obtain ⟨events', htrace', hsaid', hsignals'⟩ := h'
  refine ⟨events ++ events', ?_, ?_, ?_⟩
  · rw [htrace', htrace, List.append_assoc]
  · rw [List.filter_append, hsaid, hsaid']
  · rw [List.filter_append, hsignals, hsignals']

/-- Nothing that is recorded is done. -/
theorem tells_nil (htrace : b'.trace = b.trace) : Tells b [] [] b' :=
  ⟨[], htrace.trans (List.append_nil _).symm, rfl, rfl⟩

/-- One thing is said. -/
theorem tells_one {e : Event} (htrace : b'.trace = b.trace ++ [e]) (he : e.isEmission = false) (hsignal : e.isSignal = false) :
    Tells b [e] [] b' :=
  ⟨[e], htrace, by rw [List.filter_cons_of_pos (by rw [he]; rfl), List.filter_nil],
    List.filter_cons_of_neg (by rw [hsignal]; exact Bool.false_ne_true)⟩

/-- What was sent and what was said come from the same events. -/
theorem Signals.tells (h : Signals b signals b') (hsent : Bus.Sent b said b') : Tells b said signals b' := by
  obtain ⟨events, htrace, hsignals⟩ := h
  obtain ⟨users, connections, events', hsays, -, rfl⟩ := hsent
  have hsame : events = events' := List.append_cancel_left htrace.symm
  exact ⟨events, htrace, hsame ▸ hsays.said, hsignals⟩

/-- `driver_send_error` to a caller that expects a reply sends one message. -/
theorem tells_driverSendError (b : Bus) (receiver : ℕ) {serial : UInt32} (error text : Bytes) (hserial : serial ≠ 0) :
    Tells b [] [.sent receiver (driverErrorMetadata receiver serial error text) [.s text]]
      (driverSendError sizes b receiver serial error text) := by
  have hsent := sent_driverSendError sizes b receiver serial error text
  rw [driverSendError, if_neg hserial] at hsent ⊢
  exact (signals_driverSendUnicast sizes b receiver [.s text] 0 rfl).tells hsent

/-- `driver_send_reply` to a caller that expects a reply sends one message. -/
theorem tells_driverSendReply (b : Bus) (receiver : ℕ) {serial : UInt32} (body : List DriverArg) (hserial : serial ≠ 0) :
    Tells b [] [.sent receiver (driverReply receiver serial body) body] (driverSendReply sizes b receiver serial body) := by
  have hsent := sent_driverSendReply sizes b receiver serial body
  rw [driverSendReply, driverSendReplyWithFds, if_neg hserial] at hsent ⊢
  exact (signals_driverSendUnicast sizes b receiver body 0 rfl).tells hsent

/-- The answer to a request that waited. -/
def requestAnswer (request : ActivationRequest) (text : Bytes) : Outcome → List Event
  | .replied => [.sent request.senderId (driverReply request.senderId request.serial [.u 1]) [.u 1]]
  | .failed =>
    [.sent request.senderId (driverErrorMetadata request.senderId request.serial
      (lit "org.freedesktop.DBus.Error.ServiceUnknown") text) [.s text]]
  | .silent => []

/-- An error to the sender of a message that waited. -/
def messageError (message : ActivationMessage) (error text : Bytes) : Event :=
  .sent (message.message.metadata.senderId.getD 0) (driverErrorMetadata (message.message.metadata.senderId.getD 0)
    (messageReadSerial message.message) error text) [.s text]

/-- What the sender of a message that waited is told, if it hears anything: that the name has no owner, or why the
owner did not get the message. -/
def messageAnswer (message : ActivationMessage) (text : Bytes) : Option (ℕ × PeerResult) → List Event
  | none => [messageError message (lit "org.freedesktop.DBus.Error.NameHasNoOwner") text]
  | some attempt => (activatedError attempt.2).toList.map fun e => messageError message e.1 (lit (driverErrorToString e.2))

/-- The end of a request is said. -/
theorem tells_busActivationRequestFree (hfind : b.activations.find? path = some a) (request : ActivationRequest)
    (outcome : Outcome) :
    Tells b [.requestResolved path a.name request.senderId request.serial outcome] []
      (busActivationRequestFree b path request outcome) :=
  tells_one (trace_busActivationRequestFree hfind request outcome) rfl rfl

/-- The end of a message is said. -/
theorem tells_busActivationMessageFree (hfind : b.activations.find? path = some a) (message : ActivationMessage)
    (attempt : Option (ℕ × PeerResult)) (error : Bool) :
    Tells b [.messageResolved path a.name message.message attempt error] []
      (busActivationMessageFree b path message attempt error) := by
  refine tells_one ?_ rfl rfl
  rw [busActivationMessageFree, hfind]
  rfl

/-- What is sent leaves the activations. -/
theorem Bus.Sent.activations_eq (h : Bus.Sent b said b') : b'.activations = b.activations :=
  congrArg Core.activations h.core_eq

/-- A request that is replied to. -/
theorem tells_driverReplyRequest (hfind : b.activations.find? path = some a) {request : ActivationRequest}
    (hserial : request.serial ≠ 0) (text : Bytes) :
    ∃ outcome, Tells b [.requestResolved path a.name request.senderId request.serial outcome]
      (requestAnswer request text outcome) (driverReplyRequest sizes path b request) := by
  rw [driverReplyRequest, peerRegistryFindPeer]
  cases b.isRegistered request.senderId with
  | false => exact ⟨.silent, tells_busActivationRequestFree hfind request .silent⟩
  | true =>
    refine ⟨.replied, (tells_driverSendReply sizes b request.senderId [.u 1] hserial).trans
      (tells_busActivationRequestFree ?_ request .replied)⟩
    rw [(sent_driverSendReply sizes b request.senderId request.serial [.u 1]).activations_eq]
    exact hfind

/-- A request that failed. -/
theorem tells_driverFailRequest (hfind : b.activations.find? path = some a) {request : ActivationRequest}
    (hserial : request.serial ≠ 0) (text : Bytes) :
    ∃ outcome, Tells b [.requestResolved path a.name request.senderId request.serial outcome]
      (requestAnswer request text outcome) (driverFailRequest sizes path text b request) := by
  rw [driverFailRequest, peerRegistryFindPeer]
  cases b.isRegistered request.senderId with
  | false => exact ⟨.silent, tells_busActivationRequestFree hfind request .silent⟩
  | true =>
    refine ⟨.failed, (tells_driverSendError sizes b request.senderId _ text hserial).trans
      (tells_busActivationRequestFree ?_ request .failed)⟩
    rw [(sent_driverSendError sizes b request.senderId request.serial _ text).activations_eq]
    exact hfind

/-- The sender of a message that is refused is told, if it hears it. -/
theorem tells_driverRefuseMessage (b : Bus) (message : ActivationMessage) (error text : Bytes) :
    Tells b [] (if refusalHeard b message then [messageError message error text] else [])
      (driverRefuseMessage sizes b message error text) := by
  rw [driverRefuseMessage, refusalHeard]
  cases hsender : activationMessageSender b message with
  | none => exact tells_nil rfl
  | some sender =>
    have hid : message.message.metadata.senderId.getD 0 = sender := by
      rw [activationMessageSender] at hsender
      obtain ⟨id, hid, hfind⟩ := Option.bind_eq_some_iff.mp hsender
      rw [peerRegistryFindPeer] at hfind
      split at hfind
      · rw [hid]
        exact Option.some.inj hfind
      · cases hfind
    by_cases hserial : messageReadSerial message.message = 0
    · rw [if_neg (by simp [hserial])]
      dsimp only
      rw [driverSendError, if_pos hserial]
      exact tells_nil rfl
    · rw [if_pos (by simp [hserial]), messageError, hid]
      exact tells_driverSendError sizes b sender error text hserial

/-- A message that failed. -/
theorem tells_driverFailMessage (hfind : b.activations.find? path = some a) (message : ActivationMessage) (text : Bytes) :
    ∃ error, Tells b [.messageResolved path a.name message.message none error]
      (if error then messageAnswer message text none else []) (driverFailMessage sizes path text b message) := by
  have hfind' : (driverRefuseMessage sizes b message (lit "org.freedesktop.DBus.Error.NameHasNoOwner") text).activations.find?
      path = some a := by
    rw [(sent_driverRefuseMessage sizes b message _ text).activations_eq]
    exact hfind
  have htold := (tells_driverRefuseMessage sizes b message _ text).trans
    (tells_busActivationMessageFree hfind' message none (refusalHeard b message))
  rw [List.append_nil] at htold
  exact ⟨_, htold⟩

/-- The part of `peer_queue_unicast` behind the reply slot changes only accounts and connections. -/
theorem peerQueueMessage_eq (policy : Policy) (b : Bus) (senderUser : Uid) (receiver : ℕ) (m : Message) :
    ∃ users connections, (peerQueueMessage sizes policy b senderUser receiver m).1 =
      { b with users := users, connections := connections } := by
  rw [peerQueueMessage]
  split
  · exact ⟨b.users, b.connections, rfl⟩
  · split
    · exact ⟨b.users, b.connections, rfl⟩
    · have hqueue : ∃ users connections, (peerConnectionQueue sizes b receiver (some senderUser) m).1 =
          { b with users := users, connections := connections } := ⟨_, _, rfl⟩
      cases hresult : peerConnectionQueue sizes b receiver (some senderUser) m with
      | mk b₁ r =>
        rw [hresult] at hqueue
        cases r <;> exact hqueue

/-- `peer_queue_unicast` changes accounts, connections and reply slots, and says at most that a call was queued. -/
theorem peerQueueUnicast_eq (policy : Policy) (b : Bus) (tracked : Bool) (senderUser : Uid) (senderId receiver : ℕ)
    (m : Message) : ∃ users connections replies said,
      (said = [] ∨ said = [.called receiver senderId (messageReadSerial m)]) ∧
      (peerQueueUnicast sizes policy b tracked senderUser senderId receiver m).1 =
        { b with users := users, connections := connections, replies := replies, trace := b.trace ++ said } := by
  rw [peerQueueUnicast]
  split
  · obtain ⟨users, replies, slot, r⟩ := replySlotNew b.users b.replies receiver senderId (b.userOf receiver) (some senderUser)
      senderId (messageReadSerial m)
    cases slot with
    | none => exact ⟨users, b.connections, replies, [], .inl rfl, by simp⟩
    | some slot =>
      obtain ⟨users', connections, hqueue⟩ :=
        peerQueueMessage_eq sizes policy { b with users := users, replies := replies } senderUser receiver m
      dsimp only
      cases hresult : peerQueueMessage sizes policy { b with users := users, replies := replies } senderUser receiver m with
      | mk b₁ r =>
        rw [hresult] at hqueue
        cases hqueue
        cases r with
        | success => exact ⟨users', connections, replies, _, .inr rfl, rfl⟩
        | _ =>
          refine ⟨(replySlotFree users' replies slot).1, connections, (replySlotFree users' replies slot).2, [], .inl rfl, ?_⟩
          rw [List.append_nil]
          rfl
  · obtain ⟨users, connections, hqueue⟩ := peerQueueMessage_eq sizes policy b senderUser receiver m
    exact ⟨users, connections, b.replies, [], .inl rfl, by simp [hqueue]⟩

/-- A message that is delivered to the new owner. -/
theorem tells_driverDeliverMessage (hfind : b.activations.find? path = some a) (policy : Policy) (receiver : ℕ)
    (message : ActivationMessage) (text : Bytes) : ∃ said r error,
      (said = [] ∨ said = [.called receiver (message.message.metadata.senderId.getD 0) (messageReadSerial message.message)]) ∧
      r = (peerQueueUnicast sizes policy b (activationMessageSender b message).isSome message.user
        (message.message.metadata.senderId.getD 0) receiver message.message).2 ∧
      Tells b (said ++ [.messageResolved path a.name message.message (some (receiver, r)) error])
        (if error then messageAnswer message text (some (receiver, r)) else [])
        (driverDeliverMessage sizes policy path receiver b message) := by
  obtain ⟨users, connections, replies, said, hsaid, hqueue⟩ := peerQueueUnicast_eq sizes policy b
    (activationMessageSender b message).isSome message.user (message.message.metadata.senderId.getD 0) receiver message.message
  rw [driverDeliverMessage]
  cases hresult : peerQueueUnicast sizes policy b (activationMessageSender b message).isSome message.user
      (message.message.metadata.senderId.getD 0) receiver message.message with
  | mk b₁ r =>
    rw [hresult] at hqueue
    have hqueued : Tells b said [] b₁ := by
      rw [show b₁ = _ from hqueue]
      obtain rfl | rfl := hsaid
      · exact tells_nil (List.append_nil _)
      · exact tells_one rfl rfl rfl
    have hfind₁ : b₁.activations.find? path = some a := by
      rw [show b₁ = _ from hqueue]
      exact hfind
    dsimp only
    cases herror : activatedError r with
    | none =>
      refine ⟨said, r, false, hsaid, rfl, ?_⟩
      exact hqueued.trans (tells_busActivationMessageFree hfind₁ message (some (receiver, r)) false)
    | some e =>
      refine ⟨said, r, refusalHeard b₁ message, hsaid, rfl, ?_⟩
      have hfind₂ : (driverRefuseMessage sizes b₁ message e.1 (lit (driverErrorToString e.2))).activations.find? path =
          some a := by
        rw [(sent_driverRefuseMessage sizes b₁ message _ _).activations_eq]
        exact hfind₁
      have htold := (hqueued.trans (tells_driverRefuseMessage sizes b₁ message e.1 (lit (driverErrorToString e.2)))).trans
        (tells_busActivationMessageFree hfind₂ message (some (receiver, r)) (refusalHeard b₁ message))
      rw [List.append_nil, List.append_nil, List.nil_append] at htold
      rw [messageAnswer, herror]
      exact htold

/-- Everything that is resolved is answered as it is recorded: a request with one reply or error, or not at all, a
message with one error if it says so. -/
def AnswersWaiting (b : Bus) : Prop :=
  ∀ path a, b.activations.find? path = some a →
    (∀ request text, request.serial ≠ 0 →
      (∃ outcome, Tells b [.requestResolved path a.name request.senderId request.serial outcome]
        (requestAnswer request text outcome) (driverReplyRequest sizes path b request)) ∧
      ∃ outcome, Tells b [.requestResolved path a.name request.senderId request.serial outcome]
        (requestAnswer request text outcome) (driverFailRequest sizes path text b request)) ∧
    ∀ message text,
      (∃ error, Tells b [.messageResolved path a.name message.message none error]
        (if error then messageAnswer message text none else []) (driverFailMessage sizes path text b message)) ∧
      ∀ policy receiver, ∃ said r error,
        (said = [] ∨
          said = [.called receiver (message.message.metadata.senderId.getD 0) (messageReadSerial message.message)]) ∧
        r = (peerQueueUnicast sizes policy b (activationMessageSender b message).isSome message.user
          (message.message.metadata.senderId.getD 0) receiver message.message).2 ∧
        Tells b (said ++ [.messageResolved path a.name message.message (some (receiver, r)) error])
          (if error then messageAnswer message text (some (receiver, r)) else [])
          (driverDeliverMessage sizes policy path receiver b message)

/-- Every bus answers so. -/
theorem answersWaiting (b : Bus) : AnswersWaiting sizes b := by
  intro path a hfind
  refine ⟨fun request text hserial => ⟨?_, ?_⟩, fun message text => ⟨?_, fun policy receiver => ?_⟩⟩
  · exact tells_driverReplyRequest sizes hfind hserial text
  · exact tells_driverFailRequest sizes hfind hserial text
  · exact tells_driverFailMessage sizes hfind message text
  · exact tells_driverDeliverMessage sizes hfind policy receiver message text

/-- `activation_queue_request` of a caller that expects a reply puts one request behind those that wait. -/
theorem requests_activationQueueRequest (users : UserRegistry) (activationIds : ℕ) (user : Uid) (senderId : ℕ)
    {serial : UInt32} (hserial : serial ≠ 0)
    (hqueued : (activationQueueRequest sizes users a activationIds user senderId serial).2.2.2 = .success) :
    ∃ charge, (activationQueueRequest sizes users a activationIds user senderId serial).2.1.requests =
      a.requests ++ [⟨charge, senderId, serial⟩] := by
  have hrequests : (activationRequest a activationIds).1.requests = a.requests := by
    rw [activationRequest]
    split <;> rfl
  rw [activationQueueRequest] at hqueued ⊢
  dsimp only at hqueued ⊢
  rw [if_neg hserial] at hqueued ⊢
  cases hcharge : userCharge users (some (activationRequest a activationIds).1.user) .init (some user) userSlotBytes
      (UInt32.ofNat sizes.activationRequest) with
  | mk users' rest =>
    obtain ⟨charge, r⟩ := rest
    rw [hcharge] at hqueued
    cases r with
    | quota => cases hqueued
    | success => exact ⟨charge, by rw [← hrequests]⟩

/-- A call that `activation_queue_request` accepts is recorded once, and waits behind the others. -/
theorem tells_busActivationQueueRequest {id : ℕ} {user : Uid} {serial : UInt32} (hserial : serial ≠ 0)
    (hqueued : (busActivationQueueRequest sizes b path id user serial).2 = none) :
    Tells b [.requestQueued path id serial] [] (busActivationQueueRequest sizes b path id user serial).1 ∧
      waitingRequests (busActivationQueueRequest sizes b path id user serial).1.activations path =
        waitingRequests b.activations path ++ [(id, serial)] := by
  rw [busActivationQueueRequest] at hqueued ⊢
  cases hfind : b.activations.find? path with
  | none => rw [hfind] at hqueued; cases hqueued
  | some a =>
    rw [hfind] at hqueued
    dsimp only at hqueued ⊢
    have hasked : Tells b [] [] (busActivationRequest sizes b path a).1 := by
      rw [busActivationRequest]
      split
      · exact tells_nil rfl
      · exact ⟨[.activate path (b.activationIds + 1)], rfl, rfl, rfl⟩
    have hwait : waitingRequests b.activations path = a.requests.map fun r => (r.senderId, r.serial) := by
      rw [waitingRequests, hfind]
      rfl
    cases hrequest : busActivationRequest sizes b path a with
    | mk b₁ r =>
      rw [hrequest] at hasked hqueued
      cases r with
      | quota => cases hqueued
      | unexpectedFds => cases hqueued
      | success =>
        have hrequests := requests_activationQueueRequest sizes (a := a) b₁.users b₁.activationIds user id hserial
        dsimp only at hqueued ⊢
        cases hqueue : activationQueueRequest sizes b₁.users a b₁.activationIds user id serial with
        | mk users rest =>
          obtain ⟨a₁, activationIds, r⟩ := rest
          rw [hqueue] at hqueued hrequests
          cases r with
          | quota => cases hqueued
          | alreadyActivatable => cases hqueued
          | success =>
            obtain ⟨charge, happend⟩ := hrequests rfl
            dsimp only at happend ⊢
            rw [if_neg hserial]
            refine ⟨hasked.trans (tells_one rfl rfl rfl), ?_⟩
            show waitingRequests (b₁.activations.insert path a₁) path = _
            rw [waitingRequests_insert, if_pos rfl, happend, hwait, List.map_append]
            rfl

/-- A call of StartServiceByName that expects a reply and is not refused gets its reply at once, or waits behind
everything that was queued before it, and is recorded as queued just once. -/
def AnswersOrWaits (b : Bus) : Prop :=
  ∀ id serial service, serial ≠ 0 → (driverMethodStartServiceByName sizes b id serial service).2 = none →
    let b' := (driverMethodStartServiceByName sizes b id serial service).1
    ∃ path, (b.names.nameTree.find? service).bind (·.activation) = some path ∧
      if (namePrimary b.names service).isSome then
        Tells b [] [.sent id (driverReply id serial [.u 2]) [.u 2]] b'
      else
        Tells b [.requestQueued path id serial] [] b' ∧
          waitingRequests b'.activations path = waitingRequests b.activations path ++ [(id, serial)]

/-- No bus loses a call. -/
theorem answersOrWaits (b : Bus) : AnswersOrWaits sizes b := by
  intro id serial service hserial hnone
  rw [driverMethodStartServiceByName] at hnone ⊢
  cases hactivation : (b.names.nameTree.find? service).bind (·.activation) with
  | none => rw [hactivation] at hnone; cases hnone
  | some path =>
    cases huser : b.userOf id with
    | none => rw [hactivation, huser] at hnone; cases hnone
    | some user =>
      rw [hactivation, huser] at hnone
      refine ⟨path, rfl, ?_⟩
      dsimp only at hnone ⊢
      by_cases howned : (namePrimary b.names service).isSome = true
      · rw [if_pos howned, if_pos howned]
        exact tells_driverSendReply sizes b id [.u 2] hserial
      · rw [if_neg howned] at hnone
        rw [if_neg howned, if_neg howned]
        exact tells_busActivationQueueRequest sizes hserial hnone

end Answers

section Run

variable (sizes : Sizes)

/-- Emissions are no matter for the queues. -/
theorem filterMap_record {α : Type} {f : Event → Option α} (hf : ∀ e : Event, e.concernsActivation = false → f e = none)
    (b : Bus) : b.trace.filterMap f = b.record.filterMap f := by
  rw [Bus.record, List.filterMap_filter]
  congr 1
  funext e
  cases hemission : e.isEmission with
  | false => rfl
  | true =>
    have hnone : f e = none := hf e (by cases e <;> first | rfl | exact Bool.noConfusion hemission)
    rw [hnone]
    rfl

/-- The queues can be read from the whole trace. -/
theorem Queued.of_record {b : Bus} {activations : StringTree Activation} {path : Bytes}
    (h : Queued activations path b.record) : Queued activations path b.trace := by
  have hqueued := filterMap_record (f := Event.queuedRequest path) (fun e he => by cases e <;> first | rfl | cases he) b
  have hresolved := filterMap_record (f := Event.resolvedRequest path) (fun e he => by cases e <;> first | rfl | cases he) b
  have hqueuedMessage := filterMap_record (f := Event.queuedMessage path)
    (fun e he => by cases e <;> first | rfl | cases he) b
  have hresolvedMessage := filterMap_record (f := Event.resolvedMessage path)
    (fun e he => by cases e <;> first | rfl | cases he) b
  refine ⟨?_, ?_, ?_⟩
  · rw [hqueued, hresolved]
    exact h.requests
  · rw [hqueuedMessage, hresolvedMessage]
    exact h.messages
  · rw [hqueued]
    exact h.answerable

/-- Moves justify what they say, until the broker ends. -/
theorem Moves.explained {ok : Core → Leave → Prop} {s s' : Aux × Bus} (hmoves : Moves ok s s') (h : Good s.1 s.2.core)
    (hroll : Roll s.1 s.2.core s.2.record)
    (hnames : ∀ n, n.head? ≠ some (byte ':') → NameLogged n s.2.record (nameQueue s.2.names n).primary)
    (hexplained : Explained Justified s.2.record) (hsilent : s'.1.silent = false) : Explained Justified s'.2.record := by
  have hledger := hmoves.ledger_running (L := fun x c record => Roll x c record ∧
      (∀ n, n.head? ≠ some (byte ':') → NameLogged n record (nameQueue c.names n).primary) ∧ Explained Justified record)
    ?_ h ⟨hroll, hnames, hexplained⟩ hsilent
  · exact hledger.2.2
  · intro x c x' c' said record hgood hchange hrunning hbefore
    obtain ⟨hroll, hnames, hexplained⟩ := hbefore
    refine ⟨hroll.change hgood hchange, fun n hn => ?_, explained_change hexplained hroll hnames hchange⟩
    exact (hnames n hn).append (hchange.filter_about hgood hrunning hn)

/-- An activation is over at a path: nothing is pending, and nothing waits. -/
def Activation.Over (a : Activation) : Prop := a.pending = 0 ∧ a.requests = [] ∧ a.messages = []

/-- What is given up by an event that does not end an activation: nothing. -/
theorem Good.filter_gaveUp_step {held : Bytes → ℕ} {s : Broker} (h : Good (.rest held (!s.running)) s.bus.core) (path : Bytes)
    {op : BrokerOp} (hop : ¬ op.endsActivation s.bus path) :
    (Broker.step sizes s op).bus.record.filter (Event.gaveUp path) = s.bus.record.filter (Event.gaveUp path) := by
  obtain ⟨held', hmoves, -⟩ := moves_step sizes h (brokerMeets_keepsOn hop)
  refine hmoves.ledger (L := fun _ _ record => record.filter (Event.gaveUp path) = s.bus.record.filter (Event.gaveUp path))
    ?_ h rfl
  intro x c x' c' said record _ hchange hbefore
  rw [List.filter_append, hchange.filter_gaveUp, List.append_nil, hbefore]

/-- A reset that does not carry the number of the pending activation does nothing. -/
theorem Broker.step_resetName_stale {s : Broker} {path : Bytes} {serial : ℕ} (reason : Bytes)
    (hstale : ∀ a, s.bus.activations.find? path = some a → a.pending = 0 ∨ serial ≠ a.pending) :
    Broker.step sizes s (.resetName path serial reason) = s := by
  obtain ⟨b, running⟩ := s
  cases running with
  | false => rfl
  | true =>
    show (⟨driverNameActivationFailed sizes b path serial reason, true⟩ : Broker) = ⟨b, true⟩
    rw [driverNameActivationFailed]
    cases hfind : b.activations.find? path with
    | none => rfl
    | some a =>
      dsimp only
      rw [if_pos (by simpa using hstale a hfind)]

/-- A reset with the number of the pending activation ends it. -/
theorem Good.resetName_current {held : Bytes → ℕ} {b : Bus} (h : Good (.rest held false) b.core) {path : Bytes}
    {a : Activation} (hfind : b.activations.find? path = some a) (reason : Bytes) :
    ∃ a', (Broker.step sizes ⟨b, true⟩ (.resetName path a.pending reason)).bus.activations.find? path = some a' ∧ a'.Over := by
  obtain ⟨-, hdone⟩ : Moves anyRule _ _ ∧ _ :=
    moves_driverNameActivationFailed sizes h path a.pending reason rfl rfl rfl rfl fun _ _ _ _ _ => trivial
  exact ⟨_, hdone a hfind rfl, rfl, rfl, rfl⟩

/-- A name that is released has no activation any more. -/
theorem find?_controllerMethodNameRelease (b : Bus) (path reason : Bytes) :
    (controllerMethodNameRelease sizes b path reason).activations.find? path = none := by
  rw [controllerMethodNameRelease]
  cases hfind : b.activations.find? path with
  | none => exact hfind
  | some a =>
    dsimp only
    rw [controllerNameFree]
    cases hfind' : (driverNameActivationFailed sizes b path a.pending reason).activations.find? path with
    | none => exact hfind'
    | some a' =>
      show ((driverNameActivationFailed sizes b path a.pending reason).activations.erase path).find? path = none
      rw [SearchTree.find?_erase, if_pos rfl]

/-- In every state of every run of a broker: while a name has an owner its activation is not pending, and what is not
pending has nothing that waits; everything that was queued at a path was resolved exactly once and in this order, or
still waits; until the broker ends, how it was resolved is justified by the owner of the name and by whether its
sender was there; nothing is given up but by a release or a reset with the pending number, which leave nothing
waiting, and any other reset does nothing; a call that expects a reply and gets neither it nor an error at once is
queued just once; and everything that is resolved is answered as it is recorded. -/
theorem Broker.run_activationLog (users : UserRegistry) (user : Uid) (controller : Connection) (ops : List BrokerOp) :
    let s := run (Broker.step sizes) (.init users user controller) ops
    (∀ path a, s.bus.activations.find? path = some a →
      (nameOwnerOf s.bus.names a.name ≠ none → a.pending = 0) ∧ (a.pending = 0 → a.Over)) ∧
    (∀ path, Queued s.bus.activations path s.bus.trace) ∧
    (s.running = true → Explained Justified s.bus.record) ∧
    (∀ path op, ¬ op.endsActivation s.bus path →
      (Broker.step sizes s op).bus.record.filter (Event.gaveUp path) = s.bus.record.filter (Event.gaveUp path)) ∧
    (∀ path serial reason,
      (∀ a, s.bus.activations.find? path = some a → a.pending = 0 ∨ serial ≠ a.pending) →
        Broker.step sizes s (.resetName path serial reason) = s) ∧
    (s.running = true → ∀ path reason,
      (∀ a, s.bus.activations.find? path = some a → ∃ a',
        (Broker.step sizes s (.resetName path a.pending reason)).bus.activations.find? path = some a' ∧ a'.Over) ∧
      (Broker.step sizes s (.releaseName path reason)).bus.activations.find? path = none) ∧
    ∀ b, AnswersOrWaits sizes b ∧ AnswersWaiting sizes b := by
  intro s
  have hinit : Good (.rest (fun _ => 0) (!(Broker.init users user controller).running))
      (Broker.init users user controller).bus.core := good_init users user controller
  obtain ⟨held, hmoves⟩ := moves_anyRun sizes hinit ops
  have hgood : Good (.rest held (!s.running)) s.bus.core := hinit.moves hmoves
  have hbooks : NameBooks s.bus.names (s.bus.core.pins held) := hgood.names
  refine ⟨fun path a hfind => ⟨fun howned => ?_, fun hpending => ?_⟩, fun path => ?_, fun hrunning => ?_,
    fun path op => hgood.filter_gaveUp_step sizes path, fun path serial reason => Broker.step_resetName_stale sizes reason,
    fun hrunning path reason => ⟨fun a hfind => ?_, ?_⟩, fun b => ⟨answersOrWaits sizes b, answersWaiting sizes b⟩⟩
  · rw [hbooks.nameOwnerOf_eq] at howned
    exact hgood.activations.owned path a hfind howned (Option.some_ne_none path).symm
  · exact ⟨hpending, hgood.activations.calm path a hfind hpending (Option.some_ne_none path).symm⟩
  · refine Queued.of_record (hmoves.ledger (L := fun _ c record => Queued c.activations path record)
      (fun _ _ _ _ _ _ _ hchange hqueued => hqueued.change hchange) hinit ⟨rfl, rfl, fun _ hr => ?_⟩)
    exact absurd hr List.not_mem_nil
  · exact hmoves.explained hinit ⟨fun _ _ => rfl, fun _ ha => by cases ha⟩ (fun _ _ => ⟨rfl, rfl⟩) (explained_nil _)
      (by rw [Aux.rest, show _ = true from hrunning]; rfl)
  · have hs : s = ⟨s.bus, true⟩ := by rw [← hrunning]
    rw [hs]
    rw [show s.running = true from hrunning] at hgood
    exact hgood.resetName_current sizes hfind reason
  · have hs : s = ⟨s.bus, true⟩ := by rw [← hrunning]
    rw [hs]
    exact find?_controllerMethodNameRelease sizes s.bus path reason

end Run

end DbusBroker
