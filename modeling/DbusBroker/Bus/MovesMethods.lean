import DbusBroker.Bus.Dispatch
import DbusBroker.Bus.MovesActivation
import DbusBroker.Bus.MovesGoodbye

/-!
# The moves of the methods of the driver

The methods of the driver as moves of the bus. Every one of them starts and ends with no
operation under way. All it can leave behind is references on names that nobody drops, and
only rules that are classified in two ways do that.
-/

namespace DbusBroker

open Std

/-- No rule that may be added leaves a reference behind. -/
def NoLeaks (ok : Core → Leave → Prop) : Prop :=
  ∀ c id keys monitor, ok c (.rule id keys monitor) → ruleLeak keys = none

/-- An operation runs from its start to its end. -/
def Performs (ok : Core → Leave → Prop) (held : Bytes → ℕ) (b b' : Bus) : Prop :=
  ∃ held', Moves ok (.rest held false, b) (.rest held' false, b') ∧ (NoLeaks ok → held' = held)

/-- A peer that is connected and can send messages. -/
structure Calling (held : Bytes → ℕ) (b : Bus) (id : ℕ) : Prop where
  good : Good (.rest held false) b.core
  peer : (b.peers.find? id).isSome
  hup : b.core.hup id = false
  monitor : b.core.isMonitor id = false

variable {ok : Core → Leave → Prop} {held : Bytes → ℕ} {b b' : Bus} {id : ℕ}

section Performs

/-- Some moves without a trace in the references. -/
theorem Moves.performs (h : Moves ok (.rest held false, b) (.rest held false, b')) : Performs ok held b b' :=
  ⟨held, h, fun _ => rfl⟩

/-- Nothing is done. -/
theorem performs_refl (b : Bus) : Performs ok held b b := Moves.performs .refl

/-- Something is sent. -/
theorem Bus.Sent.performs (h : Bus.Sent b [] b') : Performs ok held b b' := Moves.performs (moves_sent h rfl rfl)

/-- Something is done, and then something is sent. -/
theorem Performs.sent {b'' : Bus} (h : Performs ok held b b') (h' : Bus.Sent b' [] b'') : Performs ok held b b'' := by
  obtain ⟨held', hmoves, hleaks⟩ := h
  exact ⟨held', hmoves.trans (moves_sent h' rfl rfl), hleaks⟩

/-- Something is sent, and then something is done. -/
theorem Bus.Sent.then_performs {b'' : Bus} (h : Bus.Sent b [] b') (h' : Performs ok held b' b'') :
    Performs ok held b b'' := by
  obtain ⟨held', hmoves, hleaks⟩ := h'
  exact ⟨held', (moves_sent h rfl rfl).trans hmoves, hleaks⟩

/-- The core and the trace are all that matters. -/
theorem Performs.congr {b'' : Bus} (h : Performs ok held b b') (hcore : b''.core = b'.core) (htrace : b''.trace = b'.trace) :
    Performs ok held b b'' := by
  obtain ⟨held', hmoves, hleaks⟩ := h
  exact ⟨held', hmoves.congr hcore htrace, hleaks⟩

/-- Nothing that matters is done. -/
theorem performs_congr (hcore : b'.core = b.core) (htrace : b'.trace = b.trace) : Performs ok held b b' :=
  (performs_refl b).congr hcore htrace

/-- Somebody who could send messages still can. -/
theorem Calling.sent (h : Calling held b id) (hsent : Bus.Sent b [] b') : Calling held b' id := by
  have hcore := hsent.core_eq
  refine ⟨hcore ▸ h.good, ?_, hcore ▸ h.hup, hcore ▸ h.monitor⟩
  rw [show b'.peers = b.peers from congrArg Core.peers hcore]
  exact h.peer

end Performs

section Names

variable (sizes : Sizes) (outside : Outside) (serial : UInt32)

/-- `driver_method_hello`. -/
theorem Calling.performs_driverMethodHello (h : Calling held b id) :
    Performs ok held b (driverMethodHello sizes outside b id serial).1 := by
  rw [driverMethodHello]
  split
  · exact performs_refl b
  · next hregistered =>
    obtain ⟨peer, hpeer⟩ := Option.isSome_iff_exists.mp h.peer
    have hreg : peer.registered = false :=
      (Core.isRegistered_of_find? (c := b.core) hpeer).symm.trans (Bool.eq_false_iff.mpr hregistered)
    have hmon : peer.monitor = false := (Core.isMonitor_of_find? (c := b.core) hpeer).symm.trans h.monitor
    have hcore : ((peerRegister b id).log [.hello id]).core = b.core.setPeer id { peer with registered := true } := by
      have hcheck : b.check (!peer.registered && !peer.monitor) = b := by
        rw [hreg, hmon]
        exact b.check_true
      rw [peerRegister, hpeer]
      dsimp only
      rw [hcheck]
      rfl
    have htrace : ((peerRegister b id).log [.hello id]).trace = b.trace ++ [.hello id] := by
      rw [peerRegister, hpeer]
      rfl
    have hchange : Change ok (.rest held false) b.core (.rest held false) ((peerRegister b id).log [.hello id]).core
        [.hello id] := by
      rw [hcore]
      exact .register _ b.core id peer hpeer hreg hmon h.hup rfl
    have hreply := sent_driverSendReply sizes ((peerRegister b id).log [.hello id]) id serial [.s (addressIdToString id)]
    have hmoves : Moves ok (.rest held false, b) (.rest held false, _) :=
      (Relation.ReflTransGen.single (hchange.move_one rfl htrace)).trans (moves_sent hreply rfl rfl)
    have hannounce : ∀ b : Bus, Change ok (.rest held false) b.core (.rest held false) b.core
        (announce (addressIdToString id) none (some id)) := fun b => .announceUnique _ b.core id none (some id) rfl
    exact Moves.performs (hmoves.tail ((hannounce _).move_sent rfl
      (sent_driverNameOwnerChanged sizes _ outside.policy (.peerNameOwnerChanged id) _ none (some id)) rfl rfl))

/-- `driver_method_release_name`. -/
theorem Calling.performs_driverMethodReleaseName (h : Calling held b id) (name : Bytes) :
    Performs ok held b (driverMethodReleaseName sizes outside b id serial name).1 := by
  have hbooks : NameBooks b.names (b.core.pins held) := h.good.names
  obtain ⟨users', w', hrelease, heffect⟩ := nameRegistryReleaseName_spec b.idle b.users id (hbooks.names name)
    fun a ha => hbooks.counted ha
  have hkept : ActivationKept b.names w' := by
    have hfades := fades_nameRegistryReleaseName b.idle b.users b.names id name
    rw [hrelease] at hfades
    exact hfades.kept
  have hmoves : Moves ok (.rest held false, b) (_, _) :=
    moves_driverNameChanged heffect ((hbooks.patient name).release id) hkept
      (fun a ha => .inl (OwnerQueue.mem_owners_of_mem_release ha)) (.inl rfl)
      (fun hprimary => .inl (OwnerQueue.primary_ne_none_of_release hprimary)) rfl rfl sizes outside.policy users'
  have hdeinit := hmoves.trans (moves_busNameChangeDeinit (h.good.moves hmoves) rfl)
  rw [driverMethodReleaseName, peerReleaseName]
  by_cases hvalid : (!dbusValidateName name) = true
  · rw [if_pos hvalid]
    exact performs_refl b
  · rw [if_neg hvalid]
    by_cases hdriver : name = driverName
    · rw [if_pos hdriver]
      exact performs_refl b
    · rw [if_neg hdriver]
      by_cases hunique : name.head? = some (byte ':')
      · rw [if_pos hunique]
        exact performs_refl b
      · rw [if_neg hunique, hrelease]
        dsimp only
        cases hreply : releaseNameReply ((nameQueue b.names name).release id).2.toPeer with
        | ok reply =>
          exact (Moves.performs hdeinit).sent (sent_driverSendReply sizes _ id serial [.u reply])
        | error e =>
          rw [OwnerQueue.release] at hreply
          split_ifs at hreply <;> cases hreply

/-- What waited for a name is delivered to its new owner, if there is one. -/
def driverTellActivation (b : Bus) : Option Bytes → Option ℕ → Bus
  | some path, some owner => driverNameActivated sizes outside.policy b path owner
  | _, _ => b

/-- The end of `driver_method_request_name`. -/
theorem driverAnnounceChange_true (change : NameChange ℕ) (reply : UInt32) {b₁ : Bus}
    (hb₁ : b₁ = driverNameChanged sizes outside.policy b change) :
    driverAnnounceChange sizes outside b id serial change true reply =
      driverSendReply sizes (busNameChangeDeinit (driverTellActivation sizes outside b₁
        (change.name.bind (nameActivation b₁.names)) change.newOwner) change) id serial [.u reply] := by
  unfold driverAnnounceChange driverTellActivation nameActivation
  rw [← hb₁]
  dsimp only
  cases change.name.bind fun name => (b₁.names.nameTree.find? name).bind (·.activation) with
  | none => rfl
  | some path =>
    cases change.newOwner with
    | none => rfl
    | some owner => rfl

/-- What waited for a name is delivered. -/
theorem moves_driverTellActivation {x : Aux} (h : Good x b.core) {activation : Option Bytes} {owner : Option ℕ}
    (hbusy : x.busy = none ∨ x.busy = activation ∧ owner ≠ none)
    (howner : ∀ path receiver, activation = some path → owner = some receiver →
      ∀ a, b.activations.find? path = some a → (nameQueue b.names a.name).primary = some receiver)
    (hleaving : x.leaving = none) (hflushing : x.flushing = false) (harming : x.arming = none) :
    Moves ok (x, b) ({ x with busy := none }, driverTellActivation sizes outside b activation owner) := by
  have hrest : x.busy = none → Moves ok (x, b) ({ x with busy := none }, b) := by
    intro hnone
    rw [← hnone]
    exact .refl
  cases activation with
  | none => exact hrest (hbusy.elim (fun hnone => hnone) And.left)
  | some path =>
    cases owner with
    | none => exact hrest (hbusy.elim (fun hnone => hnone) fun hbusy => absurd rfl hbusy.2)
    | some receiver =>
      exact moves_driverNameActivated sizes outside.policy h (hbusy.imp_right And.left) (howner path receiver rfl rfl)
        hleaving hflushing harming

/-- The activations say which names are activatable. -/
theorem Good.nameActivation_congr {x x' : Aux} {c c' : Core} (h : Good x c) (h' : Good x' c')
    (hsame : c'.activations = c.activations) (n : Bytes) : nameActivation c'.names n = nameActivation c.names n := by
  refine Option.ext fun path => ⟨fun hpath => ?_, fun hpath => ?_⟩
  · obtain ⟨a, ha, rfl⟩ := h'.activations.forth n path hpath
    exact h.activations.back path a (hsame ▸ ha)
  · obtain ⟨a, ha, rfl⟩ := h.activations.forth n path hpath
    exact h'.activations.back path a (hsame.symm ▸ ha)

/-- The queue of a name changes, and everybody concerned is told. -/
theorem moves_nameRequested (h : Good (.rest held false) b.core) {w' : NameRegistry ℕ} {n : Bytes} {q : OwnerQueue ℕ}
    {change : NameChange ℕ} (hchange : change = nameChangeOf n (nameQueue b.names n).primary q.primary)
    (heffect : NameEffect b.names w' n (b.core.pins held n + changePins (nameQueue b.names n).primary q.primary) q)
    (hpatient : q.Patient) (hkept : ActivationKept b.names w')
    (howners : ∀ a ∈ q.owners, a ∈ (nameQueue b.names n).owners ∨ b.core.isRegistered a = true)
    (users : UserRegistry) {b₁ : Bus}
    (hb₁ : b₁ = driverNameChanged sizes outside.policy { b with users := users, names := w' } change) :
    Moves ok (.rest held false, b) (.rest held false, busNameChangeDeinit (driverTellActivation sizes outside b₁
      (change.name.bind (nameActivation b₁.names)) change.newOwner) change) := by
  obtain ⟨busy, hbusy⟩ : ∃ busy, busy = change.newOwner.bind fun _ => nameActivation b.names n := ⟨_, rfl⟩
  -- the activation of the name is busy until it is told
  have hactivated : q.primary ≠ none → (nameQueue b.names n).primary ≠ none ∨ nameActivation b.names n = none ∨
      busy = nameActivation b.names n := by
    intro hprimary
    by_cases hsame : (nameQueue b.names n).primary = q.primary
    · exact .inl (hsame ▸ hprimary)
    · obtain ⟨owner, howner⟩ := Option.ne_none_iff_exists'.mp hprimary
      rw [hbusy, hchange, nameChangeOf, if_neg hsame, howner]
      exact .inr (.inr rfl)
  have hchanged : Moves ok (.rest held false, b)
      ({ Aux.rest held false with held := holdMore held change.name, busy := busy }, b₁) := by
    rw [hb₁, hchange]
    exact moves_driverNameChanged heffect hpatient hkept howners (.inr rfl) hactivated rfl rfl sizes outside.policy users
  have hgood : Good { Aux.rest held false with held := holdMore held change.name, busy := busy } b₁.core :=
    h.moves hchanged
  have hcore : b₁.core = { b.core with names := w' } := by
    rw [hb₁, (sent_driverNameChanged sizes _ outside.policy change).core_eq]
    rfl
  have hnames : b₁.names = w' := congrArg Core.names hcore
  have hactivations : b₁.core.activations = b.core.activations := by rw [hcore]
  have hsame : nameActivation b₁.names n = nameActivation b.names n := h.nameActivation_congr hgood hactivations n
  have htold : Moves ok ({ Aux.rest held false with held := holdMore held change.name, busy := busy }, b₁)
      ({ Aux.rest held false with held := holdMore held change.name }, driverTellActivation sizes outside b₁
        (change.name.bind (nameActivation b₁.names)) change.newOwner) := by
    refine moves_driverTellActivation sizes outside hgood ?_ ?_ rfl rfl rfl
    · by_cases hprimary : (nameQueue b.names n).primary = q.primary
      · left
        rw [hbusy, hchange, nameChangeOf, if_pos hprimary]
        rfl
      · rw [hbusy, hchange, nameChangeOf, if_neg hprimary]
        cases q.primary with
        | none => exact .inl rfl
        | some owner => exact .inr ⟨hsame.symm, Option.some_ne_none owner⟩
    · intro path receiver hpath howner a ha
      by_cases hprimary : (nameQueue b.names n).primary = q.primary
      · rw [hchange, nameChangeOf, if_pos hprimary] at howner
        cases howner
      · rw [hchange, nameChangeOf, if_neg hprimary] at hpath howner
        obtain ⟨a', ha', hname⟩ := hgood.activations.forth n path hpath
        rw [show b₁.activations.find? path = some a' from ha'] at ha
        cases ha
        rw [hname, hnames, heffect.queue]
        exact howner
  exact (hchanged.trans htold).trans (moves_busNameChangeDeinit (hgood.moves htold) rfl)

/-- A request that is not refused by the quota gets a reply. -/
theorem requestNameReply_request (q : OwnerQueue ℕ) (flags : UInt32) (e : DriverError) :
    requestNameReply (q.request id flags).2.toPeer ≠ .error e := by
  cases q with
  | nil =>
    intro heq
    cases heq
  | cons e rest =>
    rw [OwnerQueue.request]
    split_ifs
    all_goals
      intro heq
      cases heq

/-- `driver_method_request_name`. -/
theorem Calling.performs_driverMethodRequestName (h : Calling held b id) (hregistered : b.core.isRegistered id = true)
    (name : Bytes) (flags : UInt32) :
    Performs ok held b (driverMethodRequestName sizes outside b id serial name flags).1 := by
  have hbooks : NameBooks b.names (b.core.pins held) := h.good.names
  obtain ⟨users', w', hrequest, heffect⟩ := nameRegistryRequestName_spec b.idle b.users id (b.userOf id) flags
    (hbooks.names name) hbooks.fresh fun a ha => (hbooks.counted ha).2
  obtain ⟨qr, hqr⟩ : ∃ qr, qr = (nameQueue b.names name).requestWithin (ownershipAdmitted b.users (b.userOf id)) id flags :=
    ⟨_, rfl⟩
  have hpatient := (hbooks.patient name).requestWithin (ownershipAdmitted b.users (b.userOf id)) id flags
  have howners : ∀ a ∈ qr.1.owners, a ∈ (nameQueue b.names name).owners ∨ b.core.isRegistered a = true := by
    intro a ha
    rw [hqr] at ha
    obtain hold | rfl := OwnerQueue.mem_owners_of_mem_requestWithin ha
    · exact .inl hold
    · exact .inr hregistered
  have hkept : ActivationKept b.names w' := by
    have hall := activationKept_nameRegistryRequestName b.idle b.users b.names id (b.userOf id) name flags
    rw [hrequest] at hall
    exact hall
  rw [← hqr] at hrequest heffect hpatient
  have hmoves : Moves ok _ _ := moves_nameRequested sizes outside h.good rfl heffect hpatient hkept howners users' rfl
  rw [driverMethodRequestName, peerRequestName]
  by_cases hvalid : (!dbusValidateName name) = true
  · rw [if_pos hvalid]
    exact performs_refl b
  · rw [if_neg hvalid]
    by_cases hdriver : name = driverName
    · rw [if_pos hdriver]
      exact performs_refl b
    · rw [if_neg hdriver]
      by_cases hunique : name.head? = some (byte ':')
      · rw [if_pos hunique]
        exact performs_refl b
      · rw [if_neg hunique]
        by_cases hown : (!outside.policy.checkOwn id name) = true
        · rw [if_pos hown]
          exact performs_refl b
        · rw [if_neg hown, hrequest]
          dsimp only
          cases hreply : requestNameReply qr.2.toPeer with
          | ok reply =>
            dsimp only
            rw [driverAnnounceChange_true sizes outside serial _ reply rfl]
            exact (Moves.performs hmoves).sent (sent_driverSendReply sizes _ id serial [.u reply])
          | error e =>
            -- only the quota refuses a request here, and then nothing changed
            have hsame : qr.1 = nameQueue b.names name := by
              rw [hqr, OwnerQueue.requestWithin] at hreply ⊢
              split_ifs at hreply ⊢ with hadmitted
              · exact absurd hreply (requestNameReply_request _ flags e)
              · rfl
            rw [hsame, changePins, if_pos rfl, Nat.add_zero] at heffect
            have hrefs : Moves ok (.rest held false, b) _ := moves_refs (x := .rest held false) h.good name (held name)
              (by rw [Aux.rest, Function.update_eq_self]; exact heffect) hkept users'
            rw [Aux.rest, Function.update_eq_self] at hrefs
            exact Moves.performs hrefs

end Names

section Rules

variable (sizes : Sizes) (outside : Outside) (serial : UInt32)

/-- `driver_method_add_match`. -/
theorem Calling.performs_driverMethodAddMatch (h : Calling held b id) (hregistered : b.core.isRegistered id = true)
    (string : Bytes)
    (hok : ∀ keys, matchKeysParse string false = .ok keys → ∀ w, ok { b.core with names := w } (.rule id keys false)) :
    Performs ok held b (driverMethodAddMatch sizes b id serial string).1 := by
  have hadd := moves_peerAddMatch h.good sizes string hregistered rfl rfl hok
  rw [driverMethodAddMatch]
  cases hresult : peerAddMatch sizes b id string with
  | mk b₁ r =>
    rw [hresult] at hadd
    cases r with
    | error e => cases e <;> exact Moves.performs hadd.1
    | ok keys =>
      obtain ⟨hparse, hmoves⟩ := hadd
      have hperforms : Performs ok held b (b₁.log [.matchAdded id keys]) := by
        refine ⟨holdMore held (ruleLeak keys), hmoves, fun hleaks => ?_⟩
        rw [hleaks _ id keys false (hok keys hparse b.names)]
        rfl
      exact hperforms.sent (sent_driverSendReply sizes _ id serial [])

/-- `driver_method_remove_match`. -/
theorem Calling.performs_driverMethodRemoveMatch (h : Calling held b id) (hregistered : b.core.isRegistered id = true)
    (string : Bytes) : Performs ok held b (driverMethodRemoveMatch sizes b id serial string).1 := by
  rw [driverMethodRemoveMatch, peerRemoveMatch, matchOwnerFindRule]
  cases matchKeysNew string false with
  | error e => exact performs_refl b
  | ok keys =>
    dsimp only
    cases hrule : (b.ownedMatches id).find? keys with
    | none => exact performs_refl b
    | some rule =>
      have hremove : Moves ok (.rest held false, b) (.rest held false, (peerRemoveRule b id keys).log [.matchRemoved id keys]) :=
        (moves_peerRemoveRule h.good hrule (.inl ⟨rfl, rfl, rfl, hregistered⟩)).1
      exact (Moves.performs hremove).sent (sent_driverSendReply sizes _ id serial [])

/-- The rules of a monitor: each was parsed from one of the strings. -/
theorem monitorRules_spec {users users' : UserRegistry} {user : Option Uid} {strings : List Bytes} {tree tree' : RuleTree}
    (h : monitorRules sizes users tree user strings = (users', tree', none))
    (hpos : ∀ k rule, tree.find? k = some rule → 0 < rule.nUserRefs) :
    (∀ k rule, tree'.find? k = some rule → 0 < rule.nUserRefs) ∧
      (∀ string ∈ strings, ∃ keys, matchKeysParse string true = .ok keys) ∧
      ∀ keys, (tree'.find? keys).isSome → (tree.find? keys).isSome ∨ ∃ string ∈ strings, matchKeysParse string true = .ok keys := by
  induction strings generalizing users tree with
  | nil =>
    rw [monitorRules] at h
    cases h
    exact ⟨hpos, fun _ hstring => absurd hstring List.not_mem_nil, fun _ hkeys => .inl hkeys⟩
  | cons string rest ih =>
    rw [monitorRules] at h
    obtain ⟨users₁, e, herror⟩ | ⟨users₁, keys, rule, hadded, hrefs, hparse⟩ :=
      matchOwnerRefRule_cases sizes users tree user string true
    · rw [herror] at h
      cases h
    · rw [hadded] at h
      have hpos₁ : ∀ k r, (tree.insert keys rule).find? k = some r → 0 < r.nUserRefs := by
        intro k r hr
        rw [SearchTree.find?_insert] at hr
        split_ifs at hr with hk
        · cases hr
          omega
        · exact hpos k r hr
      obtain ⟨hall, hparsed, hsource⟩ := ih h hpos₁
      refine ⟨hall, fun s hs => ?_, fun k hk => ?_⟩
      · obtain rfl | hs := List.mem_cons.mp hs
        · exact ⟨keys, hparse⟩
        · exact hparsed s hs
      · obtain hold | ⟨s, hs, hparse'⟩ := hsource k hk
        · rw [SearchTree.find?_insert] at hold
          split_ifs at hold with heq
          · exact .inr ⟨string, List.mem_cons_self, heq ▸ hparse⟩
          · exact .inl hold
        · exact .inr ⟨s, List.mem_cons_of_mem _ hs, hparse'⟩

/-- Rules that leave nothing behind. -/
theorem monitorLeaks_eq {tree : RuleTree} (h : ∀ keys ∈ ruleInstances tree, ruleLeak keys = none) :
    monitorLeaks tree held = held := by
  rw [monitorLeaks]
  generalize ruleInstances tree = instances at h
  induction instances with
  | nil => rfl
  | cons keys rest ih =>
    rw [List.foldl_cons, h keys List.mem_cons_self]
    exact ih fun k hk => h k (List.mem_cons_of_mem _ hk)

/-- A core where a peer became a monitor, as far as the peers are concerned. -/
structure Core.Watched (c c' : Core) (id : ℕ) : Prop where
  peers : ∀ a, a ≠ id → c'.peers.find? a = c.peers.find? a
  registered : c'.isRegistered id = false
  monitor : c'.isMonitor id = true
  ids : c'.ids = c.ids
  hup : c'.hup = c.hup

/-- The rules that `driver_method_become_monitor` asks for. -/
def monitorStrings (strings : List Bytes) : List Bytes := if strings = [] then [[]] else strings

/-- The end of `driver_method_become_monitor`: the caller leaves, and comes back as a monitor. -/
theorem Calling.performs_becomeMonitor (h : Calling held b id) {tree : RuleTree} (users : UserRegistry)
    (hpos : ∀ k rule, tree.find? k = some rule → 0 < rule.nUserRefs)
    (hok : ∀ keys, (tree.find? keys).isSome → ∀ c, b.core.Watched c id → ok c (.rule id keys true)) :
    Performs ok held b ((peerBecomeMonitor (driverGoodbye sizes outside.policy
      (driverSendReply sizes { b with users := users } id serial []) id false) id tree).log
        [.becameMonitor id tree.keys]) := by
  obtain ⟨b₁, hb₁⟩ : ∃ b₁, b₁ = driverSendReply sizes { b with users := users } id serial [] := ⟨_, rfl⟩
  have hsent : Bus.Sent b [] b₁ := by
    rw [hb₁]
    exact (Bus.Sent.setUsers b users).then_nil (sent_driverSendReply sizes _ id serial [])
  have hcalling := h.sent hsent
  have hcore := hsent.core_eq
  rw [← hb₁]
  obtain ⟨b₂, hb₂⟩ : ∃ b₂, b₂ = driverGoodbye sizes outside.policy b₁ id false := ⟨_, rfl⟩
  obtain ⟨hgoodbye, hleft⟩ : Moves ok (.rest held false, b₁)
      (.rest held false, driverGoodbye sizes outside.policy b₁ id false) ∧ _ :=
    moves_driverGoodbye sizes outside.policy hcalling.good (.inl rfl) rfl rfl rfl
  rw [← hb₂] at hgoodbye hleft ⊢
  obtain ⟨peer, hpeer⟩ := Option.isSome_iff_exists.mp hcalling.peer
  have hparted : b₂.peers.find? id = some peer.parted := by
    have hfind := hleft.peers id
    rw [if_pos rfl, show b₁.core.peers.find? id = some peer from hpeer] at hfind
    exact hfind
  have hwatched : ∀ c : Core, c.peers = b₂.peers.insert id { peer.parted with monitor := true } → c.ids = b₂.ids →
      c.hup = b₂.core.hup → b.core.Watched c id := by
    intro c hpeers hids hhup
    refine ⟨fun a ha => ?_, ?_, ?_, ?_, ?_⟩
    · rw [hpeers, SearchTree.find?_insert, if_neg ha, ← hcore, show b₂.peers = b₂.core.peers from rfl, hleft.peers a,
        if_neg ha]
    · rw [Core.isRegistered, hpeers, SearchTree.find?_insert_self]
      rfl
    · rw [Core.isMonitor, hpeers, SearchTree.find?_insert_self]
      rfl
    · rw [hids, ← hcore]
      exact hleft.ids
    · rw [hhup, ← hcore]
      exact hleft.hup
  have hbecome := hgoodbye.trans (moves_peerBecomeMonitor (hcalling.good.moves hgoodbye) hparted rfl rfl
    ((congrFun hleft.hup id).trans hcalling.hup) rfl rfl hpos fun keys hkeys c hpeers hids hhup =>
      hok keys hkeys c (hwatched c hpeers hids hhup))
  refine hsent.then_performs ⟨monitorLeaks tree held, hbecome, fun hleaks => monitorLeaks_eq fun keys hkeys => ?_⟩
  have hthere : (tree.find? keys).isSome := by
    rw [← List.count_pos_iff, count_ruleInstances] at hkeys
    by_contra hnone
    rw [Option.not_isSome_iff_eq_none] at hnone
    rw [hnone] at hkeys
    exact absurd hkeys (Nat.lt_irrefl 0)
  exact hleaks _ id keys true (hok keys hthere
    { b₂.core with peers := b₂.peers.insert id { peer.parted with monitor := true } } (hwatched _ rfl rfl rfl))

/-- `driver_method_become_monitor`. -/
theorem Calling.performs_driverMethodBecomeMonitor (h : Calling held b id) (strings : List Bytes) (flags : UInt32)
    (hok : peerIsPrivileged b id = true → flags = 0 →
      (∀ string ∈ monitorStrings strings, ∃ keys, matchKeysParse string true = .ok keys) →
      ∀ string ∈ monitorStrings strings, ∀ keys, matchKeysParse string true = .ok keys →
        ∀ c, b.core.Watched c id → ok c (.rule id keys true)) :
    Performs ok held b (driverMethodBecomeMonitor sizes outside b id serial strings flags).1 := by
  rw [driverMethodBecomeMonitor]
  by_cases hrefused : (!peerIsPrivileged b id || !outside.eavesdrop) = true
  · rw [if_pos hrefused]
    exact performs_refl b
  · rw [if_neg hrefused]
    rw [Bool.not_eq_true, Bool.or_eq_false_iff, Bool.not_eq_false'] at hrefused
    have hprivileged := hrefused.1
    cases hrules : monitorRules sizes b.users .empty (b.userOf id) (monitorStrings strings) with
    | mk users r =>
      obtain ⟨tree, e⟩ := r
      rw [monitorStrings] at hrules
      rw [hrules]
      cases e with
      | some e => exact performs_congr rfl rfl
      | none =>
        dsimp only
        by_cases hflags : flags ≠ 0
        · rw [if_pos hflags]
          exact performs_congr rfl rfl
        · rw [if_neg hflags]
          obtain ⟨hpos, hparsed, hsource⟩ := monitorRules_spec sizes hrules fun k rule hk => by
            rw [SearchTree.find?_empty] at hk
            cases hk
          have hkeys : ∀ keys, (tree.find? keys).isSome → ∀ c, b.core.Watched c id → ok c (.rule id keys true) := by
            intro keys hkeys c hc
            obtain hnone | ⟨string, hstring, hparse⟩ := hsource keys hkeys
            · rw [SearchTree.find?_empty] at hnone
              cases hnone
            · exact hok hprivileged (not_not.mp hflags) hparsed string hstring keys hparse c hc
          exact h.performs_becomeMonitor sizes outside serial users hpos hkeys

end Rules

end DbusBroker
