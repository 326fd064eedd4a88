import DbusBroker.Broker.ActivationLog

/-!
# The log of the replies

Which replies a peer owes can be read from the record: a call that was queued on it opens a wait, and an answer, an
error on behalf of a callee that left, or the departure of the caller closes it. Only what is open is closed, so a
caller gets at most one of the three for each of its calls.
-/

namespace DbusBroker

open Std Machine Record

section Waits

/-- A reply that is waited for: the callee, the caller and the serial of the call. -/
structure Wait where
  callee : ℕ
  caller : ℕ
  serial : UInt32
  deriving DecidableEq

/-- A call opens a wait. -/
def Event.calls (w : Wait) : Event → Bool
  | .called callee caller serial => w == ⟨callee, caller, serial⟩
  | _ => false

/-- The end of a wait. -/
def Event.endsWait (w : Wait) : Event → Bool
  | .answered callee caller serial | .noReply callee caller serial | .cancelled callee caller serial =>
    w == ⟨callee, caller, serial⟩
  | _ => false

/-- Whether a reply is waited for after what was recorded. -/
def awaits (record : List Event) (w : Wait) : Bool := isOpen (Event.calls w) (Event.endsWait w) record

/-- How the begin and the end of a wait are justified by what was recorded before it. A call is queued for a callee
that does not owe this reply yet. A callee that is registered may answer, one that left is answered for if the caller is
still there, and a wait is dropped without an answer only if the caller left. -/
def ReplyJustified (pre : List Event) : Event → Prop
  | .called callee caller serial => awaits pre ⟨callee, caller, serial⟩ = false ∧ registeredIn pre callee = true ∧
    registeredIn pre caller = true ∧ serial ≠ 0
  | .answered callee caller serial => awaits pre ⟨callee, caller, serial⟩ = true ∧ registeredIn pre callee = true ∧
    registeredIn pre caller = true
  | .noReply callee caller serial => awaits pre ⟨callee, caller, serial⟩ = true ∧ registeredIn pre callee = false ∧
    registeredIn pre caller = true
  | .cancelled callee caller serial => awaits pre ⟨callee, caller, serial⟩ = true ∧ registeredIn pre caller = false
  | _ => True

variable {record said : List Event} {w : Wait}

/-- Justified waits are brackets. -/
theorem ReplyJustified.bracket {pre : List Event} {e : Event} (h : ReplyJustified pre e) (w : Wait) :
    Bracket (Event.calls w) (Event.endsWait w) pre e := by
  constructor
  · intro hcalls
    cases e with
    | called callee caller serial =>
      rw [show w = _ from eq_of_beq hcalls]
      exact h.1
    | _ => cases hcalls
  · intro hends
    cases e with
    | answered callee caller serial =>
      rw [show w = _ from eq_of_beq hends]
      exact h.1
    | noReply callee caller serial =>
      rw [show w = _ from eq_of_beq hends]
      exact h.1
    | cancelled callee caller serial =>
      rw [show w = _ from eq_of_beq hends]
      exact h.1
    | _ => cases hends

/-- An event that is about no reply. -/
def Event.isQuiet : Event → Bool
  | .called _ _ _ | .answered _ _ _ | .noReply _ _ _ | .cancelled _ _ _ => false
  | _ => true

/-- Quiet events begin and end no wait. -/
theorem awaits_quiet (hsaid : ∀ e ∈ said, e.isQuiet = true) (record : List Event) (w : Wait) :
    awaits (record ++ said) w = awaits record w := by
  refine isOpen_append (fun e he => ?_) (fun e he => ?_) record
  · have hquiet := hsaid e he
    cases e <;> first | rfl | cases hquiet
  · have hquiet := hsaid e he
    cases e <;> first | rfl | cases hquiet

/-- Quiet events are justified. -/
theorem explained_quiet (h : Explained ReplyJustified record) (hsaid : ∀ e ∈ said, e.isQuiet = true) :
    Explained ReplyJustified (record ++ said) := by
  refine h.append fun e he pre => ?_
  have hquiet := hsaid e he
  cases e <;> first | exact Bool.noConfusion hquiet | trivial

/-- The announcement of a name is quiet. -/
theorem isQuiet_announce {n : Bytes} {old new : Option ℕ} : ∀ e ∈ announce n old new, e.isQuiet = true := by
  intro e he
  rcases List.mem_append.mp he with hlost | hrest
  · obtain ⟨peer, -, rfl⟩ := List.mem_map.mp hlost
    rfl
  · rcases List.mem_cons.mp hrest with rfl | hacquired
    · rfl
    · obtain ⟨peer, -, rfl⟩ := List.mem_map.mp hacquired
      rfl

end Waits

section Steps

variable {ok : Core → Leave → Prop} {x x' : Aux} {c c' : Core} {record said : List Event}

/-- The waits that can be read from a record are those of the reply slots, and they are justified. -/
structure RepliesLogged (replies : ReplyWorld ℕ) (record : List Event) : Prop where
  waits : ∀ callee caller serial, replies.Outstanding callee caller serial ↔ awaits record ⟨callee, caller, serial⟩ = true
  justified : Explained ReplyJustified record

/-- A step that is about no reply. -/
theorem RepliesLogged.keep {replies replies' : ReplyWorld ℕ} (h : RepliesLogged replies record)
    (htree : replies'.replyTree = replies.replyTree) (hsaid : ∀ e ∈ said, e.isQuiet = true) :
    RepliesLogged replies' (record ++ said) := by
  refine ⟨fun callee caller serial => ?_, explained_quiet h.justified hsaid⟩
  rw [ReplyWorld.Outstanding, htree, awaits_quiet hsaid]
  exact h.waits callee caller serial

/-- A call is queued. -/
theorem RepliesLogged.file {replies : ReplyWorld ℕ} (h : RepliesLogged replies record) {callee caller : ℕ}
    {serial : UInt32} (charge : UserCharge) (hjustified : ReplyJustified record (.called callee caller serial)) :
    RepliesLogged (replies.file callee caller serial charge) (record ++ [.called callee caller serial]) := by
  refine ⟨fun callee' caller' serial' => ?_, h.justified.concat hjustified⟩
  rw [ReplyWorld.Outstanding, ReplyWorld.find?_file, awaits, isOpen_concat]
  by_cases hsame : callee' = callee ∧ (caller', serial') = (caller, serial)
  · obtain ⟨rfl, heq⟩ := hsame
    cases heq
    have hcalls : Event.calls ⟨callee', caller, serial⟩ (.called callee' caller serial) = true := beq_self_eq_true _
    rw [if_pos ⟨rfl, rfl⟩, if_pos hcalls]
    exact iff_of_true rfl rfl
  · have hcalls : ¬ Event.calls ⟨callee', caller', serial'⟩ (.called callee caller serial) = true := by
      intro hcalls
      cases eq_of_beq hcalls
      exact hsame ⟨rfl, rfl⟩
    have hends : ¬ Event.endsWait ⟨callee', caller', serial'⟩ (.called callee caller serial) = true := Bool.false_ne_true
    rw [if_neg hsame, if_neg hcalls, if_neg hends]
    exact h.waits callee' caller' serial'

/-- A wait ends. -/
theorem RepliesLogged.drop {replies : ReplyWorld ℕ} (h : RepliesLogged replies record) {callee caller slot : ℕ}
    {serial : UInt32} {e : Event} (hends : ∀ w, e.endsWait w = (w == ⟨callee, caller, serial⟩))
    (hcalls : ∀ w, e.calls w = false) (hjustified : ReplyJustified record e) :
    RepliesLogged (replies.drop callee caller serial slot) (record ++ [e]) := by
  refine ⟨fun callee' caller' serial' => ?_, h.justified.concat hjustified⟩
  rw [ReplyWorld.Outstanding, ReplyWorld.find?_drop, awaits, isOpen_concat, hcalls, if_neg Bool.false_ne_true, hends]
  by_cases hsame : callee' = callee ∧ (caller', serial') = (caller, serial)
  · obtain ⟨rfl, heq⟩ := hsame
    cases heq
    rw [if_pos ⟨rfl, rfl⟩, if_pos (beq_self_eq_true _)]
    exact iff_of_false Bool.false_ne_true Bool.false_ne_true
  · have hne : ¬ (Wait.mk callee' caller' serial' == ⟨callee, caller, serial⟩) = true := by
      intro heq
      cases eq_of_beq heq
      exact hsame ⟨rfl, rfl⟩
    rw [if_neg hsame, if_neg hne]
    exact h.waits callee' caller' serial'

/-- Every step before the end of the broker keeps the log of the replies. -/
theorem RepliesLogged.change (h : RepliesLogged c.replies record) (hgood : Good x c) (hroll : Roll x c record)
    (hsilent : x.silent = false) (hchange : Change ok x c x' c' said) : RepliesLogged c'.replies (record ++ said) := by
  cases hchange with
  | call callee caller serial charge hnone hcallee hcaller hserial hleaving =>
    have hclosed : awaits record ⟨callee, caller, serial⟩ = false := by
      refine Bool.eq_false_iff.mpr fun hopen => ?_
      have hout := (h.waits callee caller serial).mpr hopen
      rw [ReplyWorld.Outstanding, hnone] at hout
      cases hout
    rw [hroll.isRegistered hleaving] at hcallee hcaller
    exact h.file charge ⟨hclosed, hcallee, hcaller, hserial⟩
  | endReply callee caller slot serial event hfind hevent hflushing =>
    have hout : c.replies.Outstanding callee caller serial := Option.isSome_of_eq_some hfind
    have hopen := (h.waits callee caller serial).mp hout
    have hcaller : c.isRegistered caller = true := hgood.replies.caller callee caller serial hout
    cases event with
    | answered callee' caller' serial' =>
      obtain ⟨rfl, rfl, rfl, hleaving⟩ := hevent
      refine h.drop (fun _ => rfl) (fun _ => rfl) ⟨hopen, ?_, ?_⟩
      · rw [← hroll.isRegistered hleaving]
        refine (hgood.replies.callee callee' caller' serial' hout).resolve_right fun hgone => ?_
        rw [hleaving] at hgone
        cases hgone
      · rw [← hroll.isRegistered hleaving]
        exact hcaller
    | noReply callee' caller' serial' =>
      obtain ⟨rfl, rfl, rfl, hleaving, hparting, -, hother⟩ := hevent
      refine h.drop (fun _ => rfl) (fun _ => rfl) ⟨hopen, hroll.parted callee' hleaving hparting, ?_⟩
      rw [← hroll.known caller' (.inl fun heq => hother (Option.some.inj (heq.symm.trans hleaving)))]
      exact hcaller
    | cancelled callee' caller' serial' =>
      obtain ⟨rfl, rfl, rfl, hparting, hleaving⟩ := hevent
      refine h.drop (fun _ => rfl) (fun _ => rfl) ⟨hopen, hroll.parted caller' ?_ hparting⟩
      refine hleaving.resolve_right fun hgone => ?_
      rw [hsilent] at hgone
      cases hgone.2
    | _ => exact hevent.elim
  | announceUnique => exact h.keep rfl isQuiet_announce
  | drop id keys rule said hrule hsaid =>
    rw [Core.dropRule_eq]
    refine h.keep rfl ?_
    obtain ⟨rfl, -⟩ | ⟨rfl, -⟩ := hsaid
    · simp [Event.isQuiet]
    · simp
  | names w' n q pins busy said heffect hpatient hkept howners hbusy hactivated hsaid =>
    refine h.keep rfl ?_
    obtain rfl | ⟨rfl, -⟩ := hsaid
    · rw [announceChange_nameChangeOf]
      split
      · simp
      · exact isQuiet_announce
    · simp
  | _ => exact h.keep rfl (by simp [Event.isQuiet])

/-- The log of the replies along some moves. -/
theorem RepliesLogged.moves {s s' : Aux × Bus} (hmoves : Moves ok s s') (h : Good s.1 s.2.core)
    (hroll : Roll s.1 s.2.core s.2.record) (hlog : RepliesLogged s.2.replies s.2.record) (hsilent : s'.1.silent = false) :
    RepliesLogged s'.2.replies s'.2.record := by
  have hledger := hmoves.ledger_running (L := fun x c record => Roll x c record ∧ RepliesLogged c.replies record) ?_ h
    ⟨hroll, hlog⟩ hsilent
  · exact hledger.2
  · intro x c x' c' said record hgood hchange hrunning hbefore
    exact ⟨hbefore.1.change hgood hchange, hbefore.2.change hgood hbefore.1 hrunning hchange⟩

end Steps

section Once

variable {record pre mid post : List Event} {w : Wait}

/-- A wait that begins once ends at most once. -/
theorem countP_endsWait_le (h : Explained ReplyJustified (pre ++ mid ++ post)) (hcalls : mid.countP (Event.calls w) = 0) :
    mid.countP (Event.endsWait w) ≤ 1 := by
  have hbrackets : Explained (Bracket (Event.calls w) (Event.endsWait w)) (pre ++ mid) :=
    h.of_append.imp fun pre e he => he.bracket w
  have hcount := countP_closes hbrackets hcalls
  have hle : (isOpen (Event.calls w) (Event.endsWait w) pre).toNat ≤ 1 := Bool.toNat_le _
  omega

/-- Whoever does not say hello is not registered. -/
theorem registeredIn_of_hello {id : ℕ} (hhello : Event.hello id ∉ mid) (h : registeredIn pre id = false) :
    registeredIn (pre ++ mid) id = false := by
  induction mid generalizing pre with
  | nil => rwa [List.append_nil]
  | cons e rest ih =>
    rw [List.append_cons]
    refine ih (fun hmem => hhello (List.mem_cons_of_mem e hmem)) ?_
    rw [registeredIn_concat]
    cases e with
    | hello peer =>
      have hne : peer ≠ id := fun heq => hhello (heq ▸ List.mem_cons_self)
      rw [Event.registers, if_neg hne, h]
    | goodbye peer =>
      rw [Event.registers, h]
      split <;> rfl
    | _ => exact h

/-- Whoever does not say goodbye stays registered. -/
theorem registeredIn_of_goodbye {id : ℕ} (hgoodbye : Event.goodbye id ∉ mid) (h : registeredIn pre id = true) :
    registeredIn (pre ++ mid) id = true := by
  induction mid generalizing pre with
  | nil => rwa [List.append_nil]
  | cons e rest ih =>
    rw [List.append_cons]
    refine ih (fun hmem => hgoodbye (List.mem_cons_of_mem e hmem)) ?_
    rw [registeredIn_concat]
    cases e with
    | hello peer =>
      rw [Event.registers, h]
      split <;> rfl
    | goodbye peer =>
      have hne : peer ≠ id := fun heq => hgoodbye (heq ▸ List.mem_cons_self)
      rw [Event.registers, if_neg hne, h]
    | _ => exact h

/-- A peer leaves, and somebody who stays waits for its reply: that one error is all that comes of it. -/
theorem filter_noReply (h : Explained ReplyJustified (pre ++ .goodbye w.callee :: post)) (hopen : awaits pre w = true)
    (hclosed : awaits (pre ++ .goodbye w.callee :: post) w = false) (hother : w.caller ≠ w.callee)
    (hcaller : registeredIn pre w.caller = true) (hstays : Event.goodbye w.caller ∉ post)
    (hgone : Event.hello w.callee ∉ post) :
    (post.filter fun e => e.calls w || e.endsWait w) = [.noReply w.callee w.caller w.serial] := by
  rw [List.append_cons] at h hclosed
  have hcallee' : registeredIn (pre ++ [.goodbye w.callee]) w.callee = false := by
    rw [registeredIn_concat, Event.registers, if_pos rfl]
  have hcaller' : registeredIn (pre ++ [.goodbye w.callee]) w.caller = true := by
    rw [registeredIn_concat, Event.registers, if_neg fun heq => hother heq.symm, hcaller]
  have hopen' : awaits (pre ++ [.goodbye w.callee]) w = true := by
    rw [awaits_quiet (by simp [Event.isQuiet]), hopen]
  have hjustified : ∀ e ∈ post, ∃ l, ReplyJustified l e ∧ registeredIn l w.callee = false ∧ registeredIn l w.caller = true := by
    intro e he
    obtain ⟨first, rest, rfl⟩ := List.append_of_mem he
    refine ⟨pre ++ [.goodbye w.callee] ++ first, h _ e rest (List.append_assoc _ first (e :: rest)).symm, ?_, ?_⟩
    · exact registeredIn_of_hello (fun hmem => hgone (List.mem_append_left _ hmem)) hcallee'
    · exact registeredIn_of_goodbye (fun hmem => hstays (List.mem_append_left _ hmem)) hcaller'
  have hcalls : post.countP (Event.calls w) = 0 := by
    refine List.countP_eq_zero.mpr fun e he hcalls => ?_
    obtain ⟨l, hl, hcallee, -⟩ := hjustified e he
    cases e with
    | called callee caller serial =>
      rw [show w = _ from eq_of_beq hcalls, hl.2.1] at hcallee
      cases hcallee
    | _ => cases hcalls
  have hends : ∀ e ∈ post, (e.calls w || e.endsWait w) = true → e = .noReply w.callee w.caller w.serial := by
    intro e he hconcerns
    obtain ⟨l, hl, hcallee, hcaller⟩ := hjustified e he
    have hno := List.countP_eq_zero.mp hcalls e he
    rw [Bool.not_eq_true] at hno
    rw [hno, Bool.false_or] at hconcerns
    cases e with
    | answered callee caller serial =>
      rw [show w = _ from eq_of_beq hconcerns, hl.2.1] at hcallee
      cases hcallee
    | noReply callee caller serial => rw [show w = _ from eq_of_beq hconcerns]
    | cancelled callee caller serial =>
      rw [show w = _ from eq_of_beq hconcerns, hl.2] at hcaller
      cases hcaller
    | _ => cases hconcerns
  have hbrackets : Explained (Bracket (Event.calls w) (Event.endsWait w)) (pre ++ [.goodbye w.callee] ++ post) :=
    h.imp fun pre e he => he.bracket w
  have hcount := countP_closes hbrackets hcalls
  rw [show isOpen _ _ (pre ++ [.goodbye w.callee]) = true from hopen',
    show isOpen _ _ (pre ++ [.goodbye w.callee] ++ post) = false from hclosed] at hcount
  have hone : (post.filter fun e => e.calls w || e.endsWait w).length = 1 := by
    rw [← List.countP_eq_length_filter, ← show post.countP (Event.endsWait w) = 1 from hcount]
    refine List.countP_congr fun e he => ?_
    rw [Bool.eq_false_iff.mpr (List.countP_eq_zero.mp hcalls e he), Bool.false_or]
  have hall := List.eq_replicate_of_mem (fun e he => hends e (List.mem_filter.mp he).1 (List.mem_filter.mp he).2)
  rw [hall, hone]
  rfl

end Once

section Queueing

variable (sizes : Sizes) {x : Aux} {b : Bus}

/-- What becomes of a reply: a caller that cannot take its descriptors is disconnected, a connection that takes nothing
any more or has no quota left stays as it is, and otherwise the reply is queued behind what is there. -/
def Handed (b b' : Bus) (caller : ℕ) (m : Message) : Prop :=
  (∀ a, a ≠ caller → b'.connections a = b.connections a) ∧
    if 0 < m.nFds ∧ (b.connections caller).fdsAllowed = false then
      b'.connections caller = connectionShutdown (b.connections caller)
    else if (b.connections caller).hupOut || (b.connections caller).shutdown then
      b'.connections caller = b.connections caller
    else if (socketBufferCharge sizes b.users (b.connections caller).user none m).2.2 = .quota then
      b'.connections caller = b.connections caller
    else ∃ charges, b'.connections caller =
      { b.connections caller with queue := (b.connections caller).queue ++ [⟨m, charges⟩] }

/-- The reply slots are the same but for one, which is used up. -/
def UsesUp (replies replies' : ReplyWorld ℕ) (w : Wait) : Prop :=
  ∀ callee caller serial, replies'.Outstanding callee caller serial ↔
    replies.Outstanding callee caller serial ∧ w ≠ ⟨callee, caller, serial⟩

/-- A connection is written back. -/
theorem connections_setConnection (b : Bus) (id a : ℕ) (c : Connection) :
    (b.setConnection id c).connections a = if a = id then c else b.connections a := Function.update_apply _ _ _ _

/-- The connections after a reply was queued, and its caller disconnected if it cannot take it. -/
theorem handed_peerConnectionQueue (b : Bus) (caller : ℕ) (m : Message) {b' : Bus}
    (hb' : b' = match peerConnectionQueue sizes b caller none m with
      | (b, .unexpectedFds) => b.setConnection caller (connectionShutdown (b.connections caller))
      | (b, _) => b) : Handed sizes b b' caller m := by
  rw [peerConnectionQueue, connectionQueue] at hb'
  by_cases hfds : 0 < m.nFds ∧ (b.connections caller).fdsAllowed = false
  · rw [if_pos (by simpa using hfds)] at hb'
    dsimp only at hb'
    subst hb'
    refine ⟨fun a ha => ?_, ?_⟩
    · rw [connections_setConnection, if_neg ha, connections_setConnection, if_neg ha]
    · rw [if_pos hfds, connections_setConnection, if_pos rfl, connections_setConnection, if_pos rfl]
  · rw [if_neg (by simpa using hfds)] at hb'
    by_cases hclosed : ((b.connections caller).hupOut || (b.connections caller).shutdown) = true
    · rw [if_pos hclosed] at hb'
      dsimp only at hb'
      subst hb'
      refine ⟨fun a ha => ?_, ?_⟩
      · rw [connections_setConnection, if_neg ha]
      · rw [if_neg hfds, if_pos hclosed, connections_setConnection, if_pos rfl]
    · rw [if_neg hclosed] at hb'
      cases hcharge : socketBufferCharge sizes b.users (b.connections caller).user none m with
      | mk users rest =>
        obtain ⟨charges, r⟩ := rest
        rw [hcharge] at hb'
        cases r with
        | quota =>
          dsimp only at hb'
          subst hb'
          refine ⟨fun a ha => ?_, ?_⟩
          · rw [connections_setConnection, if_neg ha]
          · rw [if_neg hfds, if_neg hclosed, hcharge, if_pos rfl, connections_setConnection, if_pos rfl]
        | success =>
          dsimp only at hb'
          subst hb'
          refine ⟨fun a ha => ?_, ?_⟩
          · rw [connections_setConnection, if_neg ha]
          · rw [if_neg hfds, if_neg hclosed, hcharge, if_neg UserResult.noConfusion, connections_setConnection, if_pos rfl]
            exact ⟨charges, rfl⟩

/-- Nothing but accounts and connections change when a reply is queued. -/
theorem peerConnectionQueue_eq (b : Bus) (caller : ℕ) (m : Message) {b' : Bus}
    (hb' : b' = match peerConnectionQueue sizes b caller none m with
      | (b, .unexpectedFds) => b.setConnection caller (connectionShutdown (b.connections caller))
      | (b, _) => b) : ∃ users connections, b' = { b with users := users, connections := connections } := by
  have hqueue : ∃ users connections, (peerConnectionQueue sizes b caller none m).1 =
      { b with users := users, connections := connections } := ⟨_, _, rfl⟩
  cases hresult : peerConnectionQueue sizes b caller none m with
  | mk b₁ r =>
    rw [hresult] at hb' hqueue
    obtain ⟨users, connections, hb₁⟩ := hqueue
    have hb₁ : b₁ = { b with users := users, connections := connections } := hb₁
    rw [hb', hb₁]
    cases r with
    | unexpectedFds => exact ⟨users, _, rfl⟩
    | success => exact ⟨users, connections, rfl⟩
    | quota => exact ⟨users, connections, rfl⟩

/-- The slot of a wait is freed. -/
theorem usesUp_drop (replies : ReplyWorld ℕ) (w : Wait) (slot : ℕ) :
    UsesUp replies (replies.drop w.callee w.caller w.serial slot) w := by
  intro callee caller serial
  rw [ReplyWorld.Outstanding, ReplyWorld.find?_drop]
  by_cases hsame : callee = w.callee ∧ (caller, serial) = (w.caller, w.serial)
  · rw [if_pos hsame]
    obtain ⟨rfl, heq⟩ := hsame
    cases heq
    exact iff_of_false Bool.false_ne_true fun h => h.2 rfl
  · rw [if_neg hsame]
    refine (and_iff_left ?_).symm
    rintro rfl
    exact hsame ⟨rfl, rfl⟩

/-- A reply that is waited for is accepted, whatever becomes of it, and uses up its slot. -/
theorem Good.peerQueueReply_accepts (h : Good x b.core) {sender caller : ℕ} {destination : Bytes} {replySerial : UInt32}
    (m : Message) (haddress : addressFromString destination = .id caller)
    (hout : b.replies.Outstanding sender caller replySerial) :
    (peerQueueReply sizes b sender destination replySerial m).2 = .success ∧
      Handed sizes b (peerQueueReply sizes b sender destination replySerial m).1 caller m ∧
      Tells b [.answered sender caller replySerial] [] (peerQueueReply sizes b sender destination replySerial m).1 ∧
      UsesUp b.replies (peerQueueReply sizes b sender destination replySerial m).1.replies ⟨sender, caller, replySerial⟩ := by
  have hbooks : ReplyBooks b.replies := h.replies.books
  obtain ⟨slot, hslot⟩ := Option.isSome_iff_exists.mp hout
  obtain ⟨s, hread, -, howner, -⟩ := hbooks.slot_of_find? hslot
  have hid : s.owner = caller := howner
  obtain ⟨b₁, hb₁⟩ : ∃ b₁ : Bus, b₁ = match peerConnectionQueue sizes b caller none m with
    | (b, .unexpectedFds) => b.setConnection caller (connectionShutdown (b.connections caller))
    | (b, _) => b := ⟨_, rfl⟩
  have hresult : peerQueueReply sizes b sender destination replySerial m =
      (busReplySlotFree (b₁.log [.answered sender caller replySerial]) slot, .success) := by
    rw [peerQueueReply, haddress, hb₁]
    dsimp only
    rw [replySlotGetById, hslot]
    dsimp only
    rw [hread]
    subst hid
    rfl
  have hhanded := handed_peerConnectionQueue sizes b caller m hb₁
  obtain ⟨users, connections, hsame⟩ := peerConnectionQueue_eq sizes b caller m hb₁
  rw [hresult]
  refine ⟨rfl, hhanded, ?_, ?_⟩
  · refine tells_one ?_ rfl rfl
    show b₁.trace ++ _ = _
    rw [hsame]
  · have hreplies : (busReplySlotFree (b₁.log [.answered sender caller replySerial]) slot).replies =
        b.replies.drop sender caller replySerial slot := by
      show (replySlotFree b₁.users b₁.replies slot).2 = _
      rw [show b₁.replies = b.replies from by rw [hsame], hbooks.replySlotFree_eq hslot]
    rw [hreplies]
    exact usesUp_drop b.replies ⟨sender, caller, replySerial⟩ slot

/-- Any other reply is refused, and nothing happens. -/
theorem peerQueueReply_refuses {sender : ℕ} {destination : Bytes} {replySerial : UInt32} (m : Message)
    (hnone : ∀ caller, addressFromString destination = .id caller → ¬ b.replies.Outstanding sender caller replySerial) :
    peerQueueReply sizes b sender destination replySerial m = (b, .unexpectedReply) := by
  rw [peerQueueReply]
  cases haddress : addressFromString destination with
  | id caller =>
    have hslot : (b.replies.replyTree sender).find? (caller, replySerial) = none :=
      Option.not_isSome_iff_eq_none.mp (hnone caller haddress)
    dsimp only
    rw [replySlotGetById, hslot]
  | _ => rfl

/-- A message that is not queued leaves no slot behind. -/
theorem Good.peerQueueUnicast_failed (h : Good x b.core) (policy : Policy) (tracked : Bool) (senderUser : Uid)
    (senderId receiver : ℕ) (m : Message)
    (hfailed : (peerQueueUnicast sizes policy b tracked senderUser senderId receiver m).2 ≠ .success) :
    Tells b [] [] (peerQueueUnicast sizes policy b tracked senderUser senderId receiver m).1 ∧
      ∀ callee caller serial,
        (peerQueueUnicast sizes policy b tracked senderUser senderId receiver m).1.replies.Outstanding callee caller serial ↔
          b.replies.Outstanding callee caller serial := by
  have hbooks : ReplyBooks b.replies := h.replies.books
  revert hfailed
  rw [peerQueueUnicast]
  split
  · obtain ⟨hexists, -⟩ | ⟨hnone, hrest⟩ := replySlotNew_cases b.users b.replies receiver senderId (b.userOf receiver)
      (some senderUser) (messageReadSerial m)
    · rw [hexists]
      exact fun _ => ⟨tells_nil rfl, fun _ _ _ => Iff.rfl⟩
    · obtain ⟨users', s, hquota⟩ | ⟨users', charge, hfiled⟩ := hrest
      · rw [hquota]
        exact fun _ => ⟨tells_nil rfl, fun _ _ _ => Iff.rfl⟩
      · rw [hfiled]
        dsimp only
        obtain ⟨w, hw⟩ : ∃ w, w = b.replies.file receiver senderId (messageReadSerial m) charge := ⟨_, rfl⟩
        have hfile : ReplyBooks w := hw ▸ hbooks.file hnone charge
        have hfind : (w.replyTree receiver).find? (senderId, messageReadSerial m) = some b.replies.slots.next := by
          rw [hw, ReplyWorld.find?_file, if_pos ⟨rfl, rfl⟩]
        obtain ⟨users, connections, hqueue⟩ :=
          peerQueueMessage_eq sizes policy { b with users := users', replies := w } senderUser receiver m
        rw [← hw]
        cases hresult : peerQueueMessage sizes policy { b with users := users', replies := w } senderUser receiver m with
        | mk b₁ r =>
          rw [hresult] at hqueue
          have hb₁ : b₁ = { b with users := users, connections := connections, replies := w } := hqueue
          have hfree : Tells b [] [] (busReplySlotFree b₁ b.replies.slots.next) ∧ ∀ callee caller serial,
              (busReplySlotFree b₁ b.replies.slots.next).replies.Outstanding callee caller serial ↔
                b.replies.Outstanding callee caller serial := by
            refine ⟨tells_nil (by rw [hb₁]; rfl), fun callee caller serial => ?_⟩
            have hreplies : (busReplySlotFree b₁ b.replies.slots.next).replies =
                w.drop receiver senderId (messageReadSerial m) b.replies.slots.next := by
              show (replySlotFree b₁.users b₁.replies _).2 = _
              rw [show b₁.replies = w by rw [hb₁], hfile.replySlotFree_eq hfind]
            rw [hreplies, hw, ReplyWorld.Outstanding, (hbooks.drop_file hnone charge).1]
            exact Iff.rfl
          cases r with
          | success => exact fun hfailed => absurd rfl hfailed
          | _ => exact fun _ => hfree
  · obtain ⟨users, connections, hqueue⟩ := peerQueueMessage_eq sizes policy b senderUser receiver m
    rw [hqueue]
    exact fun _ => ⟨tells_nil rfl, fun _ _ _ => Iff.rfl⟩

/-- A message that is queued and expects a reply of a sender that is there is recorded as a call. -/
theorem peerQueueUnicast_queued (policy : Policy) (b : Bus) (tracked : Bool) (senderUser : Uid) (senderId receiver : ℕ)
    (m : Message) (hqueued : (peerQueueUnicast sizes policy b tracked senderUser senderId receiver m).2 = .success) :
    Tells b (if tracked && messageReadSerial m ≠ 0 then [.called receiver senderId (messageReadSerial m)] else []) []
      (peerQueueUnicast sizes policy b tracked senderUser senderId receiver m).1 := by
  revert hqueued
  rw [peerQueueUnicast]
  split
  · obtain ⟨hexists, -⟩ | ⟨-, hrest⟩ := replySlotNew_cases b.users b.replies receiver senderId (b.userOf receiver)
      (some senderUser) (messageReadSerial m)
    · rw [hexists]
      exact fun hqueued => by cases hqueued
    · obtain ⟨users', s, hquota⟩ | ⟨users', charge, hfiled⟩ := hrest
      · rw [hquota]
        exact fun hqueued => by cases hqueued
      · rw [hfiled]
        dsimp only
        obtain ⟨users, connections, hqueue⟩ := peerQueueMessage_eq sizes policy
          { b with users := users', replies := b.replies.file receiver senderId (messageReadSerial m) charge } senderUser
          receiver m
        cases hresult : peerQueueMessage sizes policy { b with
            users := users', replies := b.replies.file receiver senderId (messageReadSerial m) charge } senderUser receiver m with
        | mk b₁ r =>
          rw [hresult] at hqueue
          have hb₁ : b₁ = { b with
            users := users, connections := connections
            replies := b.replies.file receiver senderId (messageReadSerial m) charge } := hqueue
          cases r with
          | success => exact fun _ => tells_one (by rw [hb₁]; rfl) rfl rfl
          | _ => exact fun hqueued => by cases hqueued
  · obtain ⟨users, connections, hqueue⟩ := peerQueueMessage_eq sizes policy b senderUser receiver m
    rw [hqueue]
    exact fun _ => tells_nil rfl

/-- The error on behalf of a callee that left goes to the caller once. -/
theorem tells_driverExpireReply (b : Bus) {slot : ℕ} {s : ReplySlot ℕ} (hread : b.replies.slots.read slot = some s)
    (hserial : s.serial ≠ 0) :
    Tells b [.noReply s.registry s.owner s.serial]
      [.sent s.owner (driverErrorMetadata s.owner s.serial (lit "org.freedesktop.DBus.Error.NoReply")
        (lit "Remote peer disconnected")) [.s (lit "Remote peer disconnected")]] (driverExpireReply sizes false b slot) := by
  rw [driverExpireReply, hread]
  have hsaid : Tells b [.noReply s.registry s.owner s.serial] [] (b.log [.noReply s.registry s.owner s.serial]) :=
    tells_one rfl rfl rfl
  exact hsaid.trans (tells_driverSendError sizes _ s.owner _ _ hserial)

/-- How a bus treats replies when it is known which are waited for: these are accepted, whatever becomes of them, and
use up their slot; any other reply is refused and changes nothing. -/
def RoutesReplies (b : Bus) (awaited : Wait → Bool) : Prop :=
  ∀ sender destination replySerial m,
    (∀ caller, addressFromString destination = .id caller → awaited ⟨sender, caller, replySerial⟩ = true →
      (peerQueueReply sizes b sender destination replySerial m).2 = .success ∧
        Handed sizes b (peerQueueReply sizes b sender destination replySerial m).1 caller m ∧
        Tells b [.answered sender caller replySerial] [] (peerQueueReply sizes b sender destination replySerial m).1 ∧
        UsesUp b.replies (peerQueueReply sizes b sender destination replySerial m).1.replies ⟨sender, caller, replySerial⟩) ∧
    ((∀ caller, addressFromString destination = .id caller → awaited ⟨sender, caller, replySerial⟩ = false) →
      peerQueueReply sizes b sender destination replySerial m = (b, .unexpectedReply))

/-- How a bus treats messages that may expect a reply: one that is queued begins a wait if it expects a reply and its
sender is there, and one that is not queued leaves no slot behind. -/
def QueuesCalls (b : Bus) : Prop :=
  ∀ policy tracked senderUser senderId receiver m,
    ((peerQueueUnicast sizes policy b tracked senderUser senderId receiver m).2 = .success →
      Tells b (if tracked && messageReadSerial m ≠ 0 then [.called receiver senderId (messageReadSerial m)] else []) []
        (peerQueueUnicast sizes policy b tracked senderUser senderId receiver m).1) ∧
    ((peerQueueUnicast sizes policy b tracked senderUser senderId receiver m).2 ≠ .success →
      Tells b [] [] (peerQueueUnicast sizes policy b tracked senderUser senderId receiver m).1 ∧
        ∀ callee caller serial,
          (peerQueueUnicast sizes policy b tracked senderUser senderId receiver m).1.replies.Outstanding callee caller serial ↔
            b.replies.Outstanding callee caller serial)

end Queueing

section Run

variable (sizes : Sizes)

/-- In every state of every run of a broker that has not ended: which replies are owed can be read from the record, and
each is owed by a registered peer to a registered peer; calls and their ends are justified; a call ends at most once; a
peer that leaves is answered for once to everybody else who waits and stays; a reply is accepted if and only if it is
owed; and a message that is not queued leaves no slot behind. -/
theorem Broker.run_replyLog (users : UserRegistry) (user : Uid) (controller : Connection) (ops : List BrokerOp) :
    let s := run (Broker.step sizes) (.init users user controller) ops
    (s.running = true →
      (∀ w, s.bus.replies.Outstanding w.callee w.caller w.serial ↔ awaits s.bus.record w = true) ∧
      (∀ w, awaits s.bus.record w = true → s.bus.isRegistered w.callee = true ∧ s.bus.isRegistered w.caller = true) ∧
      Explained ReplyJustified s.bus.record ∧
      (∀ pre mid post w, s.bus.record = pre ++ mid ++ post → mid.countP (Event.calls w) = 0 →
        mid.countP (Event.endsWait w) ≤ 1) ∧
      (∀ pre post w, s.bus.record = pre ++ .goodbye w.callee :: post → awaits pre w = true → w.caller ≠ w.callee →
        registeredIn pre w.caller = true → Event.goodbye w.caller ∉ post → Event.hello w.callee ∉ post →
        (post.filter fun e => e.calls w || e.endsWait w) = [.noReply w.callee w.caller w.serial]) ∧
      (∀ b, Bus.Sent s.bus [] b → RoutesReplies sizes b (awaits s.bus.record)) ∧
      QueuesCalls sizes s.bus) ∧
    ∀ (b : Bus) slot r, b.replies.slots.read slot = some r → r.serial ≠ 0 →
      Tells b [.noReply r.registry r.owner r.serial]
        [.sent r.owner (driverErrorMetadata r.owner r.serial (lit "org.freedesktop.DBus.Error.NoReply")
          (lit "Remote peer disconnected")) [.s (lit "Remote peer disconnected")]]
        (driverExpireReply sizes false b slot) := by
  intro s
  refine ⟨fun hrunning => ?_, fun b slot r hread hserial => tells_driverExpireReply sizes b hread hserial⟩
  have hinit : Good (.rest (fun _ => 0) (!(Broker.init users user controller).running))
      (Broker.init users user controller).bus.core := good_init users user controller
  obtain ⟨held, hmoves⟩ := moves_anyRun sizes hinit ops
  have hgood : Good (.rest held (!s.running)) s.bus.core := hinit.moves hmoves
  have hrest : (Aux.rest held (!s.running)).silent = false := by
    rw [hrunning]
    rfl
  have hroll : Roll _ s.bus.core s.bus.record := hmoves.ledger (L := Roll)
    (fun _ _ _ _ _ _ hgood hchange hroll => hroll.change hgood hchange) hinit ⟨fun _ _ => rfl, fun _ ha => by cases ha⟩
  have hlog : RepliesLogged s.bus.replies s.bus.record :=
    RepliesLogged.moves hmoves hinit ⟨fun _ _ => rfl, fun _ ha => by cases ha⟩
      ⟨fun _ _ _ => iff_of_false Bool.false_ne_true Bool.false_ne_true, explained_nil _⟩ hrest
  have hparties : ∀ w, awaits s.bus.record w = true →
      s.bus.isRegistered w.callee = true ∧ s.bus.isRegistered w.caller = true := by
    intro w hw
    have hout := (hlog.waits w.callee w.caller w.serial).mpr hw
    refine ⟨(hgood.replies.callee w.callee w.caller w.serial hout).resolve_right (Option.some_ne_none w.callee).symm, ?_⟩
    exact hgood.replies.caller w.callee w.caller w.serial hout
  refine ⟨fun w => hlog.waits w.callee w.caller w.serial, hparties, hlog.justified, fun pre mid post w hsplit hcalls => ?_,
    fun pre post w hsplit hopen hother hcaller hstays hgone => ?_, fun b hsent sender destination replySerial m => ?_,
    fun policy tracked senderUser senderId receiver m => ⟨fun hqueued => ?_, fun hfailed => ?_⟩⟩
  · exact countP_endsWait_le (hsplit ▸ hlog.justified) hcalls
  · have hclosed : awaits s.bus.record w = false := by
      refine Bool.eq_false_iff.mpr fun hwaits => ?_
      have hleft : registeredIn s.bus.record w.callee = false := by
        rw [hsplit, List.append_cons]
        refine registeredIn_of_hello hgone ?_
        rw [registeredIn_concat, Event.registers, if_pos rfl]
      rw [← hroll.isRegistered rfl] at hleft
      exact Bool.noConfusion ((hparties w hwaits).1.symm.trans hleft)
    exact filter_noReply (hsplit ▸ hlog.justified) hopen (hsplit ▸ hclosed) hother hcaller hstays hgone
  · have hcore : b.core = s.bus.core := hsent.core_eq
    have hreplies : b.replies = s.bus.replies := congrArg Core.replies hcore
    refine ⟨fun caller haddress hwaits => ?_, fun hnone => peerQueueReply_refuses sizes m fun caller haddress hout => ?_⟩
    · refine Good.peerQueueReply_accepts sizes (hcore ▸ hgood) m haddress ?_
      rw [hreplies]
      exact (hlog.waits sender caller replySerial).mpr hwaits
    · rw [hreplies] at hout
      exact Bool.noConfusion (((hlog.waits sender caller replySerial).mp hout).symm.trans (hnone caller haddress))
  · exact peerQueueUnicast_queued sizes policy s.bus tracked senderUser senderId receiver m hqueued
  · exact hgood.peerQueueUnicast_failed sizes policy tracked senderUser senderId receiver m hfailed

/-- A reply with a descriptor is accepted and lost, though the caller has quota and its connection is open; and a call
that is queued without expecting a reply gets none. -/
theorem reply_lost_for_fds :
    (let s := run (Broker.step Broker.noSizes) .roomy (Broker.twoPeers 0)
      let reply := Broker.peerMessage dbusMessageTypeMethodReturn 0 6 5 0 1
      let r := peerQueueReply Broker.noSizes s.bus 1 (addressIdToString 0) 5 reply
      s.running = true ∧ awaits s.bus.record ⟨1, 0, 5⟩ = true ∧ r.2 = .success ∧
        (s.bus.connections 0).hupOut = false ∧ (s.bus.connections 0).shutdown = false ∧
        (socketBufferCharge Broker.noSizes s.bus.users (s.bus.connections 0).user none reply).2.2 = .success ∧
        ((r.1.connections 0).queue.all fun buffer => buffer.message.nFds = 0) = true) ∧
    (let s := run (Broker.step Broker.noSizes) .roomy (Broker.twoPeers dbusHeaderFlagNoReplyExpected)
      let reply := Broker.peerMessage dbusMessageTypeMethodReturn 0 6 5 0 0
      ((s.bus.connections 1).queue.any fun buffer =>
          buffer.message.metadata.serial = 5 && buffer.message.metadata.type = dbusMessageTypeMethodCall) = true ∧
        (peerQueueReply Broker.noSizes s.bus 1 (addressIdToString 0) 5 reply).2 = .unexpectedReply) := by
  decide

end Run

end DbusBroker
