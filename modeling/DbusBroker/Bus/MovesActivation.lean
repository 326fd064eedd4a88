import DbusBroker.Bus.MovesNames
import DbusBroker.Bus.MovesReplies

/-!
# The moves of the activations

What waits for an activation is queued while it is pending, and resolved in order when the
name gets an owner or when the controller gives up.
-/

namespace DbusBroker

open Std

variable {ok : Core → Leave → Prop} {x : Aux} {b : Bus} {path : Bytes} {a : Activation}

section Requests

/-- The core after the first request was freed. -/
theorem core_busActivationRequestFree (hfind : b.activations.find? path = some a) (request : ActivationRequest)
    (outcome : Outcome) : (busActivationRequestFree b path request outcome).core =
      b.core.setActivation path { a with requests := a.requests.tail } := by
  rw [busActivationRequestFree, hfind]
  rfl

/-- The trace after the first request was freed. -/
theorem trace_busActivationRequestFree (hfind : b.activations.find? path = some a) (request : ActivationRequest)
    (outcome : Outcome) : (busActivationRequestFree b path request outcome).trace =
      b.trace ++ [.requestResolved path a.name request.senderId request.serial outcome] := by
  rw [busActivationRequestFree, hfind]
  rfl

/-- A way to end requests: something is sent, and the request is freed as answered if its sender is there. -/
def EndsRequests (path : Bytes) (answer : Outcome) (f : Bus → ActivationRequest → Bus) : Prop :=
  ∀ b request, ∃ b₁, Bus.Sent b [] b₁ ∧ f b request = busActivationRequestFree b₁ path request
    (if b.core.isRegistered request.senderId then answer else .silent)

/-- The requests that failed. -/
theorem endsRequests_driverFailRequest (sizes : Sizes) (path text : Bytes) :
    EndsRequests path .failed (driverFailRequest sizes path text) := by
  intro b request
  rw [driverFailRequest, peerRegistryFindPeer]
  show ∃ b₁, _ ∧ _ = busActivationRequestFree b₁ path request (if b.isRegistered request.senderId then _ else _)
  cases b.isRegistered request.senderId with
  | true => exact ⟨_, sent_driverSendError sizes b request.senderId request.serial _ text, rfl⟩
  | false => exact ⟨b, .refl b, rfl⟩

/-- The requests that are replied to. -/
theorem endsRequests_driverReplyRequest (sizes : Sizes) (path : Bytes) :
    EndsRequests path .replied (driverReplyRequest sizes path) := by
  intro b request
  rw [driverReplyRequest, peerRegistryFindPeer]
  show ∃ b₁, _ ∧ _ = busActivationRequestFree b₁ path request (if b.isRegistered request.senderId then _ else _)
  cases b.isRegistered request.senderId with
  | true => exact ⟨_, sent_driverSendReply sizes b request.senderId request.serial [.u 1], rfl⟩
  | false => exact ⟨b, .refl b, rfl⟩

/-- The requests that wait for an activation are resolved one after the other. -/
theorem moves_requests {answer : Outcome} {f : Bus → ActivationRequest → Bus} (hf : EndsRequests path answer f)
    (h : Good x b.core) {requests : List ActivationRequest} (hfind : b.activations.find? path = some a)
    (hrequests : a.requests = requests) (hpending : a.pending = 0) (hbusy : x.busy = some path)
    (hleaving : x.leaving = none) (hflushing : x.flushing = false) (harming : x.arming = none) (hanswer : answer ≠ .silent)
    (hreplied : answer = .replied → (nameQueue b.names a.name).primary ≠ none)
    (hfailed : answer = .failed → (nameQueue b.names a.name).primary = none)
    (hgiveUp : answer = .failed → ∀ c, ok c (.giveUp path)) :
    Moves ok (x, b) (x, requests.foldl f b) ∧ ∃ activations,
      (requests.foldl f b).core = { b.core with activations := activations } ∧
        activations.find? path = some { a with requests := [] } := by
  induction requests generalizing b a with
  | nil =>
    refine ⟨.refl, b.activations, rfl, ?_⟩
    rw [hfind, ← hrequests]
  | cons request rest ih =>
    obtain ⟨b₁, hsent, hfree⟩ := hf b request
    have hcore₁ := hsent.core_eq
    have hfind₁ : b₁.activations.find? path = some a := by
      rw [show b₁.activations = b.activations from congrArg Core.activations hcore₁]
      exact hfind
    have hcore : (f b request).core = b.core.setActivation path { a with requests := rest } := by
      rw [hfree, core_busActivationRequestFree hfind₁, hcore₁, hrequests]
      rfl
    have htrace : (f b request).trace = b₁.trace ++ [.requestResolved path a.name request.senderId request.serial
        (if b.core.isRegistered request.senderId then answer else .silent)] := by
      rw [hfree, trace_busActivationRequestFree hfind₁]
    have hchange : Change ok x b₁.core x (f b request).core [.requestResolved path a.name request.senderId request.serial
        (if b.core.isRegistered request.senderId then answer else .silent)] := by
      rw [hcore, hcore₁]
      refine .resolveRequest x b.core path a request rest _ hfind hrequests hpending hbusy ?_ ?_ ?_ ?_ hleaving
      · cases b.core.isRegistered request.senderId with
        | true => exact iff_of_false hanswer (fun hfalse => nomatch hfalse)
        | false => exact iff_of_true rfl rfl
      · intro houtcome
        refine hreplied ?_
        split at houtcome
        · exact houtcome
        · cases houtcome
      · intro houtcome
        refine hfailed ?_
        split at houtcome
        · exact houtcome
        · cases houtcome
      · intro houtcome
        refine hgiveUp ?_ b.core
        split at houtcome
        · exact houtcome
        · cases houtcome
    have hmoves : Moves ok (x, b) (x, f b request) := by
      exact (moves_sent hsent hflushing harming).tail (hchange.move_one rfl htrace)
    have hfind' : (f b request).activations.find? path = some { a with requests := rest } := by
      rw [show (f b request).activations = b.activations.insert path { a with requests := rest } from
        congrArg Core.activations hcore, SearchTree.find?_insert_self]
    have hnames : (f b request).names = b.names := congrArg Core.names hcore
    rw [← hnames] at hreplied hfailed
    obtain ⟨hrest, activations, hcore', hdone⟩ := ih (h.moves hmoves) hfind' rfl hpending hreplied hfailed
    refine ⟨hmoves.trans hrest, activations, ?_, hdone⟩
    rw [List.foldl_cons, hcore', hcore]
    rfl

end Requests

section Messages

/-- Whether an error to the sender of a message is heard. -/
theorem refusalHeard_eq (b : Bus) (message : ActivationMessage) :
    refusalHeard b message = b.core.expectsReply message.message := by
  rw [refusalHeard, activationMessageSender, Core.expectsReply]
  cases message.message.metadata.senderId with
  | none => rfl
  | some sender =>
    show ((peerRegistryFindPeer b sender).isSome && _) = (b.isRegistered sender && _)
    rw [peerRegistryFindPeer]
    cases b.isRegistered sender with
    | true => rfl
    | false => rfl

/-- The sender of a message is told that it was refused, if it is there. -/
theorem sent_driverRefuseMessage (sizes : Sizes) (b : Bus) (message : ActivationMessage) (error text : Bytes) :
    Bus.Sent b [] (driverRefuseMessage sizes b message error text) := by
  rw [driverRefuseMessage]
  split
  · exact sent_driverSendError sizes b _ _ error text
  · exact .refl b

/-- The first message that waits is resolved and freed. -/
theorem moves_busActivationMessageFree (h : Good x b.core) {message : ActivationMessage} {rest : List ActivationMessage}
    {attempt : Option (ℕ × PeerResult)} {error : Bool} (hfind : b.activations.find? path = some a)
    (hmessages : a.messages = message :: rest) (hpending : a.pending = 0) (hbusy : x.busy = some path)
    (hresolves : b.core.Resolves a.name message.message attempt error)
    (hgiveUp : attempt = none → ok b.core (.giveUp path)) (hleaving : x.leaving = none) :
    Moves ok (x, b) (x, busActivationMessageFree b path message attempt error) ∧ ∃ w',
      (busActivationMessageFree b path message attempt error).core =
        { b.core.setActivation path { a with messages := rest } with names := w' } ∧ nameQueue w' = nameQueue b.names := by
  obtain ⟨b₁, hb₁⟩ : ∃ b₁ : Bus, b₁ = ({ b with users := activationMessageDischarge b.users message }.setActivation path
    { a with messages := rest }).log [.messageResolved path a.name message.message attempt error] := ⟨_, rfl⟩
  have hchange : Change ok x b.core { x with held := fun n => x.held n + message.sendersNames.count n } b₁.core
      [.messageResolved path a.name message.message attempt error] := by
    rw [hb₁]
    exact .resolveMessage x b.core path a message rest attempt error hfind hmessages hpending hbusy hresolves hgiveUp hleaving
  have hmoves : Moves ok (x, b) ({ x with held := fun n => x.held n + message.sendersNames.count n }, b₁) := by
    refine .single (hchange.move (fun e he => ?_) ?_)
    · rw [List.mem_singleton.mp he]
      rfl
    · rw [hb₁]
      rfl
  obtain ⟨hfree, hqueue⟩ : Moves ok _ _ ∧ _ := moves_nameSnapshotFree (h.moves hmoves) (fun n => rfl) b.idle
  have hresult : busActivationMessageFree b path message attempt error =
      { b₁ with names := nameSnapshotFree b.idle b₁.names message.sendersNames } := by
    rw [busActivationMessageFree, hfind, hb₁]
    dsimp only
    rw [hmessages]
    rfl
  rw [hresult]
  refine ⟨hmoves.trans hfree, _, ?_, hqueue.trans ?_⟩
  · rw [hb₁]
    rfl
  · rw [hb₁]
    rfl

/-- A way to end messages: the bus goes on, and the message is freed as it was resolved. -/
def EndsMessages (ok : Core → Leave → Prop) (path name : Bytes) (primary : Option ℕ)
    (f : Bus → ActivationMessage → Bus) : Prop :=
  ∀ x b message, Good x b.core → (nameQueue b.names name).primary = primary → x.leaving = none → x.flushing = false →
    x.arming = none → ∃ b₁ attempt error, Moves ok (x, b) (x, b₁) ∧ (∃ w', b₁.core = { b.core with replies := w' }) ∧
      b₁.core.Resolves name message.message attempt error ∧
      f b message = busActivationMessageFree b₁ path message attempt error

/-- The messages that failed. -/
theorem endsMessages_driverFailMessage (sizes : Sizes) (path text name : Bytes) :
    EndsMessages ok path name none (driverFailMessage sizes path text) := by
  intro x b message _ hprimary _ hflushing harming
  have hsent := sent_driverRefuseMessage sizes b message (lit "org.freedesktop.DBus.Error.NameHasNoOwner") text
  have hcore := hsent.core_eq
  refine ⟨_, none, refusalHeard b message, moves_sent hsent hflushing harming, ⟨b.replies, hcore⟩, ?_, rfl⟩
  rw [hcore, refusalHeard_eq]
  exact .inl ⟨rfl, hprimary, rfl⟩

/-- The messages that are delivered. -/
theorem endsMessages_driverDeliverMessage (sizes : Sizes) (policy : Policy) (path name : Bytes) (receiver : ℕ) :
    EndsMessages ok path name (some receiver) (driverDeliverMessage sizes policy path receiver) := by
  intro x b message h hprimary hleaving hflushing harming
  have hreceiver : b.core.isRegistered receiver = true := by
    refine h.owners name receiver ?_
    show receiver ∈ (nameQueue b.names name).owners
    rw [OwnerQueue.primary] at hprimary
    obtain ⟨e, he, rfl⟩ := Option.map_eq_some_iff.mp hprimary
    exact List.mem_map.mpr ⟨e, List.mem_of_mem_head? he, rfl⟩
  have hsender : (activationMessageSender b message).isSome = true →
      b.core.isRegistered (message.message.metadata.senderId.getD 0) = true := by
    rw [activationMessageSender]
    cases message.message.metadata.senderId with
    | none => exact fun hsome => by cases hsome
    | some sender =>
      show (peerRegistryFindPeer b sender).isSome = true → b.isRegistered sender = true
      rw [peerRegistryFindPeer]
      cases b.isRegistered sender with
      | true => exact fun _ => rfl
      | false => exact fun hsome => by cases hsome
  obtain ⟨hmoves, w', hcore⟩ : Moves ok (x, b) _ ∧ _ :=
    moves_peerQueueUnicast sizes policy h message.user message.message hreceiver hsender hleaving hflushing harming
  rw [driverDeliverMessage]
  cases hresult : peerQueueUnicast sizes policy b (activationMessageSender b message).isSome message.user
      (message.message.metadata.senderId.getD 0) receiver message.message with
  | mk b₁ r =>
    rw [hresult] at hmoves hcore
    have hqueue : ∀ b₂ : Bus, b₂.core = b₁.core → (nameQueue b₂.core.names name).primary = some receiver := by
      intro b₂ hcore₂
      rw [hcore₂, hcore]
      exact hprimary
    dsimp only
    cases herror : activatedError r with
    | none =>
      refine ⟨b₁, some (receiver, r), false, hmoves, ⟨w', hcore⟩, .inr ⟨receiver, r, rfl, hqueue b₁ rfl, ?_⟩, rfl⟩
      rw [herror]
      rfl
    | some e =>
      have hsent := sent_driverRefuseMessage sizes b₁ message e.1 (lit (driverErrorToString e.2))
      have hcore₂ := hsent.core_eq
      refine ⟨_, some (receiver, r), refusalHeard b₁ message, hmoves.trans (moves_sent hsent hflushing harming), ⟨w', ?_⟩,
        .inr ⟨receiver, r, rfl, hqueue _ hcore₂, ?_⟩, rfl⟩
      · rw [hcore₂, hcore]
      · rw [herror, hcore₂, refusalHeard_eq]
        rfl

/-- The messages that wait for an activation are resolved one after the other. -/
theorem moves_messages {f : Bus → ActivationMessage → Bus} {primary : Option ℕ}
    (hf : EndsMessages ok path a.name primary f) (h : Good x b.core) {messages : List ActivationMessage}
    (hfind : b.activations.find? path = some a) (hmessages : a.messages = messages) (hpending : a.pending = 0)
    (hbusy : x.busy = some path) (hleaving : x.leaving = none) (hflushing : x.flushing = false) (harming : x.arming = none)
    (hprimary : (nameQueue b.names a.name).primary = primary) (hgiveUp : primary = none → ∀ c, ok c (.giveUp path)) :
    Moves ok (x, b) (x, messages.foldl f b) ∧
      (messages.foldl f b).activations.find? path = some { a with messages := [] } := by
  induction messages generalizing b a with
  | nil =>
    refine ⟨.refl, ?_⟩
    rw [List.foldl_nil, hfind, ← hmessages]
  | cons message rest ih =>
    obtain ⟨b₁, attempt, error, hmoves₁, ⟨replies, hcore₁⟩, hresolves, hfree⟩ :=
      hf x b message h hprimary hleaving hflushing harming
    have hfind₁ : b₁.activations.find? path = some a := by
      rw [show b₁.activations = b.activations from congrArg Core.activations hcore₁]
      exact hfind
    have hnames₁ : b₁.core.names = b.names := congrArg Core.names hcore₁
    have hgiveUp₁ : attempt = none → ok b₁.core (.giveUp path) := by
      intro hattempt
      obtain ⟨-, hnone, -⟩ | ⟨receiver, r, hsome, -⟩ := hresolves
      · rw [hnames₁, hprimary] at hnone
        exact hgiveUp hnone b₁.core
      · rw [hattempt] at hsome
        cases hsome
    obtain ⟨hmoves, w', hcore, hqueue⟩ : Moves ok (x, b₁) _ ∧ _ := moves_busActivationMessageFree (h.moves hmoves₁)
      hfind₁ hmessages hpending hbusy hresolves hgiveUp₁ hleaving
    rw [← hfree] at hmoves hcore
    have hfind' : (f b message).activations.find? path = some { a with messages := rest } := by
      rw [show (f b message).activations = b₁.activations.insert path { a with messages := rest } from
        congrArg Core.activations hcore, SearchTree.find?_insert_self]
    have hprimary' : (nameQueue (f b message).names a.name).primary = primary := by
      rw [show (f b message).names = w' from congrArg Core.names hcore, hqueue,
        show b₁.names = b.names from congrArg Core.names hcore₁]
      exact hprimary
    have hboth := hmoves₁.trans hmoves
    obtain ⟨hrest, hdone⟩ := ih (a := { a with messages := rest }) hf (h.moves hboth) hfind' rfl hpending hprimary'
    exact ⟨hboth.trans hrest, hdone⟩

end Messages

section Settle

variable (sizes : Sizes) (policy : Policy)

/-- An activation ends, and everything that waited for it is resolved. -/
theorem moves_settle {answer : Outcome} {f : Bus → ActivationRequest → Bus} {g : Bus → ActivationMessage → Bus}
    {primary : Option ℕ} (hf : EndsRequests path answer f) (hg : EndsMessages ok path a.name primary g)
    (h : Good x b.core) (hfind : b.activations.find? path = some a) (hbusy : x.busy = none ∨ x.busy = some path)
    (hleaving : x.leaving = none) (hflushing : x.flushing = false) (harming : x.arming = none)
    (hanswer : answer ≠ .silent) (hreplied : answer = .replied → primary ≠ none) (hfailed : answer = .failed → primary = none)
    (hprimary : (nameQueue b.names a.name).primary = primary) (hgiveUp : primary = none → ∀ c, ok c (.giveUp path)) :
    Moves ok (x, b) ({ x with busy := none },
      a.messages.foldl g (a.requests.foldl f (b.setActivation path { a with pending := 0 }))) ∧
      (a.messages.foldl g (a.requests.foldl f (b.setActivation path { a with pending := 0 }))).activations.find? path =
        some { a with pending := 0, requests := [], messages := [] } := by
  have hsettle : Moves ok (x, b) ({ x with busy := some path }, b.setActivation path { a with pending := 0 }) := by
    have hchange : Change ok x b.core { x with busy := some path }
        (b.setActivation path { a with pending := 0 }).core [] := .settle x b.core path a hfind hbusy
    exact .single (hchange.move_nil rfl)
  have hfind₁ : (b.setActivation path { a with pending := 0 }).activations.find? path =
      some { a with pending := 0 } := SearchTree.find?_insert_self _ _ _
  obtain ⟨hrequests, activations, hcore₂, hfind₂⟩ : Moves ok _ _ ∧ _ :=
    moves_requests hf (h.moves hsettle) hfind₁ rfl rfl rfl hleaving hflushing harming hanswer
      (fun heq => hprimary.symm ▸ hreplied heq) (fun heq => hprimary.trans (hfailed heq)) (fun heq => hgiveUp (hfailed heq))
  obtain ⟨b₂, hb₂⟩ : ∃ b₂, b₂ = a.requests.foldl f (b.setActivation path { a with pending := 0 }) := ⟨_, rfl⟩
  rw [← hb₂] at hcore₂ hrequests ⊢
  have hboth := hsettle.trans hrequests
  have hprimary₂ : (nameQueue b₂.names a.name).primary = primary := by
    rw [show b₂.names = b.names from congrArg Core.names hcore₂]
    exact hprimary
  have hfind₃ : b₂.activations.find? path = some { a with pending := 0, requests := [] } := by
    rw [show b₂.activations = activations from congrArg Core.activations hcore₂]
    exact hfind₂
  obtain ⟨hmessages, hdone⟩ : Moves ok _ _ ∧ _ :=
    moves_messages (a := { a with pending := 0, requests := [] }) hg (h.moves hboth) hfind₃ rfl rfl rfl hleaving
      hflushing harming hprimary₂ hgiveUp
  obtain ⟨b₃, hb₃⟩ : ∃ b₃, b₃ = a.messages.foldl g b₂ := ⟨_, rfl⟩
  have hmessages : Moves ok ({ x with busy := some path }, b₂) ({ x with busy := some path }, b₃) := hb₃ ▸ hmessages
  have hdone : b₃.activations.find? path = some { a with pending := 0, requests := [], messages := [] } := hb₃ ▸ hdone
  rw [← hb₃]
  have hchange : Change ok { x with busy := some path } b₃.core { x with busy := none } b₃.core [] := by
    refine .settled { x with busy := some path } b₃.core path rfl fun a' ha' => ?_
    have ha' : b₃.activations.find? path = some a' := ha'
    rw [hdone] at ha'
    cases ha'
    exact ⟨rfl, rfl, rfl⟩
  exact ⟨(hboth.trans hmessages).tail (hchange.move_nil rfl), hdone⟩

/-- `driver_name_activated`. -/
theorem moves_driverNameActivated (h : Good x b.core) {receiver : ℕ} (hbusy : x.busy = none ∨ x.busy = some path)
    (hreceiver : ∀ a, b.activations.find? path = some a → (nameQueue b.names a.name).primary = some receiver)
    (hleaving : x.leaving = none) (hflushing : x.flushing = false) (harming : x.arming = none) :
    Moves ok (x, b) ({ x with busy := none }, driverNameActivated sizes policy b path receiver) := by
  rw [driverNameActivated]
  cases hfind : b.activations.find? path with
  | some a =>
    exact (moves_settle (endsRequests_driverReplyRequest sizes path)
      (endsMessages_driverDeliverMessage sizes policy path a.name receiver) h hfind hbusy hleaving hflushing harming
      (fun heq => nomatch heq) (fun _ heq => nomatch heq) (fun heq => nomatch heq) (hreceiver a hfind)
      (fun heq => nomatch heq)).1
  | none =>
    obtain hnone | hsome := hbusy
    · rw [← hnone]
      exact .refl
    · have hchange : Change ok x b.core { x with busy := none } b.core [] := by
        refine .settled x b.core path hsome fun a ha => ?_
        rw [show b.activations.find? path = some a from ha] at hfind
        cases hfind
      exact .single (hchange.move_nil rfl)

/-- `driver_name_activation_failed`. What waits for an activation that is not pending is nothing. -/
theorem moves_driverNameActivationFailed (h : Good x b.core) (path : Bytes) (serial : ℕ) (reason : Bytes)
    (hbusy : x.busy = none) (hleaving : x.leaving = none) (hflushing : x.flushing = false) (harming : x.arming = none)
    (hgiveUp : ∀ a, b.activations.find? path = some a → a.pending ≠ 0 → serial = a.pending → ∀ c, ok c (.giveUp path)) :
    Moves ok (x, b) (x, driverNameActivationFailed sizes b path serial reason) ∧
      ∀ a, b.activations.find? path = some a → serial = a.pending →
        (driverNameActivationFailed sizes b path serial reason).activations.find? path =
          some { a with pending := 0, requests := [], messages := [] } := by
  rw [driverNameActivationFailed]
  cases hfind : b.activations.find? path with
  | none => exact ⟨.refl, nofun⟩
  | some a =>
    dsimp only
    split
    · next hstale =>
      refine ⟨.refl, fun a' ha' hserial => ?_⟩
      cases ha'
      have hpending : a.pending = 0 := by
        by_contra hpending
        simp [hpending, hserial] at hstale
      obtain ⟨hrequests, hmessages⟩ := h.activations.calm path a hfind hpending
        (by rw [hbusy]; exact (Option.some_ne_none path).symm)
      rw [hfind, ← hpending, ← hrequests, ← hmessages]
    · next hcurrent =>
      have hpending : a.pending ≠ 0 ∧ serial = a.pending := by simpa using hcurrent
      have hprimary : (nameQueue b.names a.name).primary = none := by
        by_contra howned
        exact hpending.1 (h.activations.owned path a hfind howned (by rw [hbusy]; exact (Option.some_ne_none path).symm))
      obtain ⟨text, htext⟩ : ∃ text, text = lit "Could not activate remote peer '" ++ a.name ++ lit "': " ++ reason :=
        ⟨_, rfl⟩
      rw [← htext]
      obtain ⟨hmoves, hdone⟩ : Moves ok (x, b) ({ x with busy := none }, _) ∧ _ :=
        moves_settle (endsRequests_driverFailRequest sizes path text)
          (endsMessages_driverFailMessage sizes path text a.name) h hfind (.inl hbusy) hleaving hflushing harming
          (fun heq => nomatch heq) (fun heq => nomatch heq) (fun _ => rfl) hprimary fun _ => hgiveUp a hfind hpending.1 hpending.2
      rw [← hbusy] at hmoves
      refine ⟨hmoves, fun a' ha' _ => ?_⟩
      cases ha'
      exact hdone

end Settle

section Queue

variable (sizes : Sizes)

/-- An activation that is written twice. -/
theorem Core.setActivation_setActivation (c : Core) (path : Bytes) (a a' : Activation) :
    (c.setActivation path a).setActivation path a' = c.setActivation path a' := by
  show { c with activations := (c.activations.insert path a).insert path a' } = _
  rw [SearchTree.insert_insert]
  rfl

/-- The message to the controller touches nothing but its connection. -/
theorem moves_busActivationRequest (x : Aux) (b : Bus) (path : Bytes) (a : Activation) (hflushing : x.flushing = false)
    (harming : x.arming = none) :
    Moves ok (x, b) (x, (busActivationRequest sizes b path a).1) ∧ (busActivationRequest sizes b path a).1.core = b.core := by
  rw [busActivationRequest]
  split
  · exact ⟨.refl, rfl⟩
  · refine ⟨.single ⟨[], [.activate path (b.activationIds + 1)], .idle x b.core, ⟨rfl, ?_⟩, rfl, fun hmute => ?_⟩, rfl⟩
    · intro e he
      rw [List.mem_singleton.mp he]
      trivial
    · obtain hmute | hmute := hmute
      · rw [show x.flushing = true from hmute] at hflushing
        cases hflushing
      · exact absurd harming hmute

/-- The controller is asked for an activation, unless it was already. -/
theorem moves_pend (hfind : b.activations.find? path = some a)
    (hprimary : (nameQueue b.names a.name).primary = none) (hbusy : x.busy = none) (users : UserRegistry) :
    ∃ pending, (activationRequest a b.activationIds).1 = { a with pending := pending } ∧ pending ≠ 0 ∧
      Moves ok (x, b) (x, { b with
        users := users, activationIds := (activationRequest a b.activationIds).2 }.setActivation path
          { a with pending := pending }) := by
  have hsame : b.activations.insert path a = b.activations := SearchTree.insert_of_find?_some _ hfind
  rw [activationRequest]
  split
  · next hpending =>
    refine ⟨a.pending, rfl, hpending, Moves.congr .refl ?_ rfl⟩
    show { b.core with activations := b.activations.insert path a } = b.core
    rw [hsame]
    rfl
  · refine ⟨b.activationIds + 1, rfl, Nat.succ_ne_zero _, ?_⟩
    have hchange : Change ok x b.core x (b.core.setActivation path { a with pending := b.activationIds + 1 }) [] :=
      .pend x b.core path a (b.activationIds + 1) hfind (Nat.succ_ne_zero _) hprimary hbusy
    exact .single (hchange.move_nil rfl)

/-- `activation_queue_message`. -/
theorem moves_busActivationQueueMessage (h : Good x b.core) (hfind : b.activations.find? path = some a)
    (hprimary : (nameQueue b.names a.name).primary = none) (hbusy : x.busy = none) (hflushing : x.flushing = false)
    (harming : x.arming = none) (sender : ℕ) (user : Uid) (m : Message) :
    Moves ok (x, b) (x, (busActivationQueueMessage sizes b path sender user m).1) := by
  rw [busActivationQueueMessage, hfind]
  dsimp only
  obtain ⟨hmoves, hcore⟩ : Moves ok (x, b) _ ∧ _ := moves_busActivationRequest sizes x b path a hflushing harming
  cases hrequest : busActivationRequest sizes b path a with
  | mk b₁ r =>
    rw [hrequest] at hmoves hcore
    have hfind₁ : b₁.activations.find? path = some a := by
      rw [show b₁.activations = b.activations from congrArg Core.activations hcore]
      exact hfind
    have hprimary₁ : (nameQueue b₁.names a.name).primary = none := by
      rw [show b₁.names = b.names from congrArg Core.names hcore]
      exact hprimary
    cases r with
    | quota => exact Moves.congr hmoves rfl rfl
    | unexpectedFds => exact Moves.congr hmoves rfl rfl
    | success =>
      dsimp only
      rw [activationQueueMessage]
      obtain ⟨pending, hactivation, hpending, hpend⟩ : ∃ pending, _ ∧ _ ∧ Moves ok (x, b₁) _ :=
        moves_pend hfind₁ hprimary₁ hbusy b₁.users
      have hboth := hmoves.trans hpend
      dsimp only
      rw [hactivation]
      obtain ⟨users', charges, r⟩ :=
        activationMessageCharge sizes (userRef b₁.users user) { a with pending := pending } user m
      cases r with
      | quota => exact Moves.congr hboth rfl rfl
      | success =>
        -- the names that the sender wants are referred to, and handed to the message
        obtain ⟨b₂, hb₂⟩ : ∃ b₂, b₂ = { b₁ with
          users := b₁.users, activationIds := (activationRequest a b₁.activationIds).2 }.setActivation path
            { a with pending := pending } := ⟨_, rfl⟩
        rw [← hb₂] at hboth
        have hgood := h.moves hboth
        have hnames : b₂.names = b₁.names := by rw [hb₂]; rfl
        have hthere : ∀ n ∈ (b₂.names.owners sender).ownershipTree.keys, (b₂.names.nameTree.find? n).isSome := by
          intro n hn
          obtain ⟨i, hi⟩ := ((b₂.names.owners sender).ownershipTree.mem_keys_iff n).mp hn
          exact hgood.isSome_of_ownershipOf hi
        have hsnapshot := hboth.trans (moves_nameSnapshot hgood hthere)
        rw [hnames] at hsnapshot
        obtain ⟨c, hc⟩ : ∃ c : Core, c = { b₁.core with
          names := (b₁.names.owners sender).ownershipTree.keys.foldl nameRef b₁.names } := ⟨_, rfl⟩
        have hchange : Change ok _ _ _ _ _ := Change.queueMessage
          { x with held := fun n => x.held n + (b₁.names.owners sender).ownershipTree.keys.count n }
          (c.setActivation path { a with pending := pending }) path { a with pending := pending }
          ⟨user, charges, m, (b₁.names.owners sender).ownershipTree.keys⟩ x.held (SearchTree.find?_insert_self _ _ _)
          hpending (fun _ => rfl) hbusy
        rw [Core.setActivation_setActivation, hc] at hchange
        rw [hb₂] at hsnapshot
        exact hsnapshot.tail (hchange.move_one rfl rfl)

/-- `activation_queue_request`. -/
theorem moves_busActivationQueueRequest (hfind : b.activations.find? path = some a)
    (hprimary : (nameQueue b.names a.name).primary = none) (hbusy : x.busy = none) (hflushing : x.flushing = false)
    (harming : x.arming = none) (sender : ℕ) (user : Uid) (serial : UInt32) :
    Moves ok (x, b) (x, (busActivationQueueRequest sizes b path sender user serial).1) := by
  rw [busActivationQueueRequest, hfind]
  dsimp only
  obtain ⟨hmoves, hcore⟩ : Moves ok (x, b) _ ∧ _ := moves_busActivationRequest sizes x b path a hflushing harming
  cases hrequest : busActivationRequest sizes b path a with
  | mk b₁ r =>
    rw [hrequest] at hmoves hcore
    have hfind₁ : b₁.activations.find? path = some a := by
      rw [show b₁.activations = b.activations from congrArg Core.activations hcore]
      exact hfind
    have hprimary₁ : (nameQueue b₁.names a.name).primary = none := by
      rw [show b₁.names = b.names from congrArg Core.names hcore]
      exact hprimary
    cases r with
    | quota => exact Moves.congr hmoves rfl rfl
    | unexpectedFds => exact Moves.congr hmoves rfl rfl
    | success =>
      dsimp only
      rw [activationQueueRequest]
      obtain ⟨pending, hactivation, hpending, hpend⟩ : ∃ pending, _ ∧ _ ∧ Moves ok (x, b₁) _ :=
        moves_pend hfind₁ hprimary₁ hbusy b₁.users
      have hboth := hmoves.trans hpend
      dsimp only
      rw [hactivation]
      by_cases hserial : serial = 0
      · rw [if_pos hserial]
        dsimp only
        rw [if_pos hserial]
        exact Moves.congr hboth rfl rfl
      · rw [if_neg hserial]
        obtain ⟨users', charge, r⟩ := userCharge b₁.users (some a.user) .init (some user) userSlotBytes
          (UInt32.ofNat sizes.activationRequest)
        cases r with
        | quota => exact Moves.congr hboth rfl rfl
        | success =>
          dsimp only
          rw [if_neg hserial]
          have hchange : Change ok _ _ _ _ _ := Change.queueRequest x
            (b₁.core.setActivation path { a with pending := pending }) path { a with pending := pending }
            ⟨charge, sender, serial⟩ (SearchTree.find?_insert_self _ _ _) hpending hserial hbusy
          rw [Core.setActivation_setActivation] at hchange
          exact hboth.tail (hchange.move_one rfl rfl)

end Queue

end DbusBroker
