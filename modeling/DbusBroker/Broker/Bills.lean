import DbusBroker.Broker.Accounted
import DbusBroker.Broker.QuotaFailure
import DbusBroker.Bus.MatchIndex
import DbusBroker.Bus.RuleString
import DbusBroker.Util.Balances

/-!
# What a message costs

A message that is queued on a connection is a bill for the user of the connection, and so are
the rules of a new monitor. The bills follow from the message and from the connections, so the
balances that a message leaves, once its copies are queued on the monitors, follow from those
before it.
-/

namespace DbusBroker

open Std Budget

section Queue

variable (sizes : Sizes)

/-- What a buffer for a message costs. -/
def socketBufferBill (user : Option Uid) (m : Message) : Bill :=
  chargeBill user userSlotBytes (UInt32.ofNat (sizes.socketBuffer + sizes.message + m.nData)) ++
    chargeBill user userSlotFds (UInt32.ofNat m.nFds)

/-- What a message costs the user of a connection: nothing, if the connection does not take it. -/
def connectionBill (c : Connection) (m : Message) : Bill :=
  if (0 < m.nFds && !c.fdsAllowed) || (c.hupOut || c.shutdown) then [] else socketBufferBill sizes c.user m

variable {users users' : UserRegistry} {user actor : Option Uid} {m : Message} {charges : UserCharge × UserCharge}

/-- The charges of a buffer succeed if its user can pay for it. -/
theorem balances_socketBufferCharge {r : UserResult}
    (h : socketBufferCharge sizes users user none m = (users', charges, r)) :
    (r = .success ↔ Covers users.balances (socketBufferBill sizes user m)) ∧
      (r = .success → users'.balances = pay users.balances (socketBufferBill sizes user m)) := by
  rw [socketBufferCharge] at h
  rcases hbytes : userCharge users user .init none userSlotBytes
    (UInt32.ofNat (sizes.socketBuffer + sizes.message + m.nData)) with ⟨users₁, bytes, r₁⟩
  rw [hbytes] at h
  cases r₁ with
  | quota =>
    cases h
    refine ⟨iff_of_false (by decide) fun hcovers => ?_, fun hsuccess => absurd hsuccess (by decide)⟩
    exact absurd ((userCharge_success_iff hbytes).mpr (covers_append.mp hcovers).1) (by decide)
  | success =>
    rcases hfds : userCharge users₁ user .init none userSlotFds (UInt32.ofNat m.nFds) with ⟨users₂, fds, r₂⟩
    simp only [hfds] at h
    cases h
    exact balances_twoCharges hbytes hfds

/-- A buffer that is freed right away returns its charges. -/
theorem accounts_socketBufferDischarge (hlive : users.accounts.Live) {r : UserResult}
    (h : socketBufferCharge sizes users user actor m = (users', charges, r)) :
    (socketBufferDischarge users' charges).accounts = users.accounts := by
  rw [socketBufferCharge] at h
  rcases hbytes : userCharge users user .init actor userSlotBytes
    (UInt32.ofNat (sizes.socketBuffer + sizes.message + m.nData)) with ⟨users₁, bytes, r₁⟩
  rw [hbytes] at h
  cases r₁ with
  | quota =>
    cases h
    exact accounts_charge_deinit hlive hbytes (accounts_userChargeDeinit_init _)
  | success =>
    rcases hfds : userCharge users₁ user .init actor userSlotFds (UInt32.ofNat m.nFds) with ⟨users₂, fds, r₂⟩
    simp only [hfds] at h
    cases h
    exact accounts_charge_deinit hlive hbytes
      (accounts_charge_deinit ((accounted_userCharge hbytes).live hlive) hfds rfl)

/-- A message that is queued is paid for, and one that its user cannot pay for is refused and costs nothing. -/
theorem balances_connectionQueue (hlive : users.accounts.Live) {c c' : Connection} {r : ConnectionResult}
    (h : connectionQueue sizes users c none m = (users', c', r)) :
    users'.balances = settle users.balances (connectionBill sizes c m) ∧
      (r = .quota ↔ ¬ Covers users.balances (connectionBill sizes c m)) := by
  rw [connectionQueue] at h
  rw [connectionBill]
  by_cases hfds : (0 < m.nFds && !c.fdsAllowed) = true
  · rw [if_pos hfds] at h
    cases h
    rw [hfds, Bool.true_or, if_pos rfl]
    exact ⟨settle_nil.symm, iff_of_false (by decide) fun hnot => hnot covers_nil⟩
  · rw [if_neg hfds] at h
    rw [Bool.eq_false_iff.mpr hfds, Bool.false_or]
    by_cases hdown : (c.hupOut || c.shutdown) = true
    · rw [if_pos hdown] at h
      cases h
      rw [if_pos hdown]
      exact ⟨settle_nil.symm, iff_of_false (by decide) fun hnot => hnot covers_nil⟩
    · rw [if_neg hdown] at h
      rw [if_neg hdown]
      rcases hcharge : socketBufferCharge sizes users c.user none m with ⟨users₁, charges, r₁⟩
      obtain ⟨hsuccess, hpaid⟩ := balances_socketBufferCharge sizes hcharge
      rw [hcharge] at h
      cases r₁ with
      | success =>
        cases h
        have hcovers := hsuccess.mp rfl
        exact ⟨(hpaid rfl).trans (settle_of_covers hcovers).symm, iff_of_false (by decide) fun hnot => hnot hcovers⟩
      | quota =>
        cases h
        have hnot : ¬ Covers users.balances (socketBufferBill sizes c.user m) := fun hcovers =>
          absurd (hsuccess.mpr hcovers) (by decide)
        refine ⟨?_, iff_of_true rfl hnot⟩
        rw [settle_of_not_covers hnot]
        exact balances_congr (accounts_socketBufferDischarge sizes hlive hcharge)

end Queue

section Copies

variable (sizes : Sizes) {b : Bus} {m : Message}

/-- The connections of all others stay as they are. -/
theorem connections_peerDeliver {receiver a : ℕ} (ha : a ≠ receiver) :
    (peerDeliver sizes b receiver m).connections a = b.connections a := by
  have hqueue : ∀ c, Function.update b.connections receiver c a = b.connections a := fun c =>
    Function.update_of_ne ha c b.connections
  rw [peerDeliver, peerConnectionQueue]
  obtain ⟨users, c, r⟩ := connectionQueue sizes b.users (b.connections receiver) none m
  cases r with
  | success => exact hqueue c
  | quota => exact (Function.update_of_ne ha _ _).trans (hqueue c)
  | unexpectedFds => exact (Function.update_of_ne ha _ _).trans (hqueue c)

/-- A delivery is paid for by the receiver, if it can. -/
theorem balances_peerDeliver (hlive : b.users.accounts.Live) (receiver : ℕ) :
    (peerDeliver sizes b receiver m).users.balances =
      settle b.users.balances (connectionBill sizes (b.connections receiver) m) := by
  rw [peerDeliver, peerConnectionQueue]
  rcases hqueue : connectionQueue sizes b.users (b.connections receiver) none m with ⟨users, c, r⟩
  have hpaid := (balances_connectionQueue sizes hlive hqueue).1
  cases r <;> exact hpaid

/-- Deliveries to different receivers are paid for one after the other. -/
theorem balances_deliveries {connections : ℕ → Connection} {receivers : List ℕ} (hdistinct : receivers.Nodup)
    (hlive : b.users.accounts.Live) (hconnections : ∀ receiver ∈ receivers, b.connections receiver = connections receiver) :
    (receivers.foldl (fun b receiver => peerDeliver sizes b receiver m) b).users.balances =
      settleAll b.users.balances (receivers.map fun receiver => connectionBill sizes (connections receiver) m) := by
  induction receivers generalizing b with
  | nil => rfl
  | cons receiver rest ih =>
    obtain ⟨hnew, hrest⟩ := List.nodup_cons.mp hdistinct
    rw [List.foldl_cons, ih hrest ((accounted_peerDeliver sizes b receiver m).live hlive) fun a ha => ?_,
      balances_peerDeliver sizes hlive, hconnections receiver List.mem_cons_self]
    · rfl
    · have hne : a ≠ receiver := fun heq => hnew (heq ▸ ha)
      rw [connections_peerDeliver sizes hne]
      exact hconnections a (List.mem_cons_of_mem _ ha)

/-- No monitor gets two copies. -/
theorem nodup_busGetMonitorDestinations (b : Bus) (sender : Option ℕ) (metadata : MessageMetadata) :
    (busGetMonitorDestinations b [] sender metadata).Nodup := by
  have hcollect : ∀ (registry : RegistryRef) (destinations : List ℕ), destinations.Nodup →
      (matchRegistryGetMonitors Prod.fst (b.matchIndex.registries registry) destinations metadata).Nodup :=
    fun registry destinations => ((collects_matchRegistryGetDestinations Prod.fst
      (b.matchIndex.registries registry).monitorTree metadata) destinations).1
  have hnames : ∀ (l : List Bytes) (destinations : List ℕ), destinations.Nodup → (l.foldl (fun destinations name =>
      matchRegistryGetMonitors Prod.fst (b.matchIndex.registries (.nameSender name)) destinations metadata)
        destinations).Nodup := by
    intro l
    induction l with
    | nil => exact fun destinations h => h
    | cons name rest ih => exact fun destinations h => ih _ (hcollect _ _ h)
  rw [busGetMonitorDestinations]
  dsimp only
  split
  · exact List.nodup_nil
  · cases sender with
    | none => exact hcollect _ _ (hcollect _ _ List.nodup_nil)
    | some sender => exact hcollect _ _ (hnames _ _ (hcollect _ _ List.nodup_nil))

/-- What is left of the balances once the copies of a message of a peer are queued on the monitors that want it. -/
def balancesAfterCopies (b : Bus) (id : ℕ) (m : Message) : Uid × ℕ → ℕ :=
  settleAll b.users.balances
    ((busGetMonitorDestinations b [] (some id) m.metadata).map fun receiver => connectionBill sizes (b.connections receiver) m)

/-- The balances after `driver_monitor`. -/
theorem balances_driverMonitor (hlive : b.users.accounts.Live) (id : ℕ) (m : Message) :
    (driverMonitor sizes b (some id) m).users.balances = balancesAfterCopies sizes b id m :=
  balances_deliveries (b := b.log _) sizes (nodup_busGetMonitorDestinations b (some id) m.metadata) hlive fun _ _ => rfl

/-- A message to the controller is refused if its user cannot pay for it. -/
theorem controllerQueue_ne_success_iff (hlive : b.users.accounts.Live) (metadata : MessageMetadata) (nData : ℕ) :
    (controllerQueue sizes b none metadata nData).2 ≠ .success ↔
      ¬ Covers b.users.balances (connectionBill sizes b.controllerConnection ⟨metadata, nData, 0⟩) := by
  rw [controllerQueue]
  rcases hqueue : connectionQueue sizes b.users b.controllerConnection none ⟨metadata, nData, 0⟩ with ⟨users, c, r⟩
  rw [← (balances_connectionQueue sizes hlive hqueue).2]
  cases r with
  | success => exact iff_of_false (fun hne => hne rfl) nofun
  | quota => exact iff_of_true nofun rfl
  | unexpectedFds =>
    rw [connectionQueue] at hqueue
    simp only [Nat.lt_irrefl, decide_false, Bool.false_and, Bool.false_eq_true, if_false] at hqueue
    split at hqueue
    · cases hqueue
    · split at hqueue <;> cases hqueue

end Copies

section Rules

variable (sizes : Sizes) (user : Option Uid)

/-- What a rule costs. -/
def ruleBill (string : Bytes) : Bill :=
  chargeBill user userSlotBytes (UInt32.ofNat (sizes.matchRule + string.length + 1)) ++ chargeBill user userSlotMatches 1

/-- The rules that stay: those that none before them is equal to. -/
def rulesKept (strings : List Bytes) : List Bytes :=
  strings.foldl (fun kept string =>
    if ∃ s ∈ kept, (matchKeysParse s true).toOption = (matchKeysParse string true).toOption then kept
    else kept ++ [string]) []

/-- What the rules cost that stay. -/
def rulesBill (strings : List Bytes) : Bill := (rulesKept strings).flatMap (ruleBill sizes user)

/-- A list of rules exceeds a budget, after some others: all up to one of them can be read, and the budget does not
cover that one on top of those that stay. A rule is paid for before it is read, also where it will not stay. -/
def RulesExceed (budget : Uid × ℕ → ℕ) (before strings : List Bytes) : Prop :=
  ∃ more string rest, strings = more ++ string :: rest ∧ (∀ s ∈ more, ∃ keys, matchKeysNew s true = .ok keys) ∧
    string.length ≤ matchRuleLengthMax ∧ ¬ Covers budget (rulesBill sizes user (before ++ more) ++ ruleBill sizes user string)

/-- The rules before were accepted and paid for, and those that stay are in the tree. -/
structure RulesPaid (budget : Uid × ℕ → ℕ) (before : List Bytes) (users : UserRegistry) (tree : RuleTree) : Prop where
  live : users.accounts.Live
  covered : Covers budget (rulesBill sizes user before)
  balances : users.balances = pay budget (rulesBill sizes user before)
  filed : ∀ keys, (tree.find? keys).isSome = true ↔ ∃ s ∈ rulesKept before, matchKeysParse s true = .ok keys

variable {budget : Uid × ℕ → ℕ} {before strings : List Bytes} {string : Bytes} {keys : MatchKeys}
  {users users' : UserRegistry} {tree : RuleTree}

/-- A list of rules is looked at one after the other. -/
theorem rulesExceed_cons {rest : List Bytes} :
    RulesExceed sizes user budget before (string :: rest) ↔
      (string.length ≤ matchRuleLengthMax ∧ ¬ Covers budget (rulesBill sizes user before ++ ruleBill sizes user string)) ∨
        (∃ keys, matchKeysNew string true = .ok keys) ∧ RulesExceed sizes user budget (before ++ [string]) rest := by
  constructor
  · rintro ⟨more, s, rest', heq, hread, hlength, hexceeds⟩
    cases more with
    | nil =>
      cases heq
      rw [List.append_nil] at hexceeds
      exact .inl ⟨hlength, hexceeds⟩
    | cons first more =>
      cases heq
      refine .inr ⟨hread string List.mem_cons_self, more, s, rest', rfl,
        fun t ht => hread t (List.mem_cons_of_mem _ ht), hlength, ?_⟩
      rwa [List.append_assoc, List.singleton_append]
  · rintro (⟨hlength, hexceeds⟩ | ⟨hfirst, more, s, rest', rfl, hread, hlength, hexceeds⟩)
    · refine ⟨[], string, rest, rfl, fun _ hs => absurd hs List.not_mem_nil, hlength, ?_⟩
      rwa [List.append_nil]
    · refine ⟨string :: more, s, rest', rfl, List.forall_mem_cons.mpr ⟨hfirst, hread⟩, hlength, ?_⟩
      rwa [List.append_assoc, List.singleton_append] at hexceeds

/-- A rule that can be read stays if none with its keys is there. -/
theorem rulesKept_append_singleton (hkeys : matchKeysParse string true = .ok keys) :
    rulesKept (before ++ [string]) =
      if ∃ s ∈ rulesKept before, matchKeysParse s true = .ok keys then rulesKept before
      else rulesKept before ++ [string] := by
  have hsame : ∀ s, (matchKeysParse s true).toOption = (matchKeysParse string true).toOption ↔
      matchKeysParse s true = .ok keys := by
    intro s
    rw [hkeys]
    cases matchKeysParse s true <;> simp [Except.toOption]
  rw [rulesKept, List.foldl_append, List.foldl_cons, List.foldl_nil]
  simp only [hsame]
  rfl

/-- The charges of a rule succeed if its user can pay for it. -/
theorem balances_matchRuleCharge {rule : MatchRule} {r : UserResult}
    (h : matchRuleCharge sizes users user string = (users', rule, r)) :
    (r = .success ↔ Covers users.balances (ruleBill sizes user string)) ∧
      (r = .success → users'.balances = pay users.balances (ruleBill sizes user string)) := by
  rw [matchRuleCharge] at h
  rcases hbytes : userCharge users user .init none userSlotBytes
    (UInt32.ofNat (sizes.matchRule + string.length + 1)) with ⟨users₁, bytes, r₁⟩
  rw [hbytes] at h
  cases r₁ with
  | quota =>
    cases h
    refine ⟨iff_of_false (by decide) fun hcovers => ?_, fun hsuccess => absurd hsuccess (by decide)⟩
    exact absurd ((userCharge_success_iff hbytes).mpr (covers_append.mp hcovers).1) (by decide)
  | success =>
    rcases hcount : userCharge users₁ user .init none userSlotMatches 1 with ⟨users₂, count, r₂⟩
    simp only [hcount] at h
    cases h
    exact balances_twoCharges hbytes hcount

/-- One more rule: it is too long, too much for the budget, cannot be read, or is paid for. -/
theorem RulesPaid.refRule_cases (h : RulesPaid sizes user budget before users tree) (string : Bytes) :
    (¬ string.length ≤ matchRuleLengthMax ∧ (matchOwnerRefRule sizes users tree user string true).2.2 = .error .invalid) ∨
      (string.length ≤ matchRuleLengthMax ∧ ¬ Covers budget (rulesBill sizes user before ++ ruleBill sizes user string) ∧
        (matchOwnerRefRule sizes users tree user string true).2.2 = .error .quota) ∨
      (Covers budget (rulesBill sizes user before ++ ruleBill sizes user string) ∧
        (∀ keys, matchKeysNew string true ≠ .ok keys) ∧
          (matchOwnerRefRule sizes users tree user string true).2.2 = .error .invalid) ∨
      (Covers budget (rulesBill sizes user before ++ ruleBill sizes user string) ∧
        ∃ keys users' tree', matchKeysNew string true = .ok keys ∧
          matchOwnerRefRule sizes users tree user string true = (users', tree', .ok keys) ∧
            RulesPaid sizes user budget (before ++ [string]) users' tree') := by
  rw [matchOwnerRefRule, matchRuleNew, matchKeysNew]
  by_cases hlength : matchRuleLengthMax < string.length
  · rw [if_pos hlength]
    exact .inl ⟨Nat.not_le.mpr hlength, rfl⟩
  rw [if_neg hlength, if_neg hlength]
  rcases hcharge : matchRuleCharge sizes users user string with ⟨users₁, rule, r⟩
  have hback := accounts_matchRuleDischarge h.live sizes user string hcharge
  have hlive₁ : users₁.accounts.Live := by
    have hcharged := accounted_matchRuleCharge sizes users user string
    rw [hcharge] at hcharged
    exact hcharged.live h.live
  obtain ⟨hsuccess, hpaid⟩ := balances_matchRuleCharge sizes user hcharge
  rw [h.balances] at hsuccess hpaid
  have hcovers : Covers budget (rulesBill sizes user before ++ ruleBill sizes user string) ↔ r = .success := by
    rw [covers_append, hsuccess, and_iff_right h.covered]
  cases r with
  | quota => exact .inr (.inl ⟨Nat.not_lt.mp hlength, fun hall => absurd (hcovers.mp hall) (by decide), rfl⟩)
  | success =>
    have hall := hcovers.mpr rfl
    refine .inr (.inr ?_)
    dsimp only
    cases hparse : matchKeysParse string true with
    | error e => exact .inl ⟨hall, fun _ hok => (by cases hok), congrArg Except.error (matchKeysParse_error hparse)⟩
    | ok keys =>
      refine .inr ⟨hall, keys, ?_⟩
      have hkept := @rulesKept_append_singleton before string keys hparse
      dsimp only
      cases hfind : tree.find? keys with
      | some old =>
        -- the rule is there, and the charges of the new one come back
        have hthere := (h.filed keys).mp (Option.isSome_of_eq_some hfind)
        rw [if_pos hthere] at hkept
        have hbill : rulesBill sizes user (before ++ [string]) = rulesBill sizes user before := by
          rw [rulesBill, hkept, rulesBill]
        refine ⟨_, _, rfl, rfl, ⟨hback ▸ h.live, hbill ▸ h.covered, ?_, fun k => ?_⟩⟩
        · rw [hbill, balances_congr hback, h.balances]
        · rw [hkept, SearchTree.find?_insert, ← h.filed k]
          split
          · next heq => rw [heq, hfind]; exact iff_of_true rfl rfl
          · exact Iff.rfl
      | none =>
        have hnew : ¬ ∃ s ∈ rulesKept before, matchKeysParse s true = .ok keys := by
          rw [← h.filed keys, hfind]
          exact Bool.false_ne_true
        rw [if_neg hnew] at hkept
        have hbill : rulesBill sizes user (before ++ [string]) =
            rulesBill sizes user before ++ ruleBill sizes user string := by
          rw [rulesBill, hkept, List.flatMap_append, rulesBill, List.flatMap_singleton]
        refine ⟨_, _, rfl, rfl, ⟨hlive₁, hbill ▸ hall, ?_, fun k => ?_⟩⟩
        · rw [hbill, pay_append, hpaid rfl]
        · rw [hkept, SearchTree.find?_insert]
          simp only [List.mem_append, List.mem_singleton, or_and_right, exists_or, exists_eq_left, ← h.filed k, hparse]
          split
          · next heq => rw [heq]; exact iff_of_true rfl (.inr rfl)
          · next hne => exact (or_iff_left fun heq => hne (Except.ok.inj heq).symm).symm

/-- Rules are refused for another reason than their syntax exactly if they exceed the budget. -/
theorem RulesPaid.monitorRules_iff (h : RulesPaid sizes user budget before users tree) (strings : List Bytes) :
    (∃ e, (monitorRules sizes users tree user strings).2.2 = some e ∧ e ≠ .invalid) ↔
      RulesExceed sizes user budget before strings := by
  induction strings generalizing before users tree with
  | nil =>
    refine iff_of_false ?_ ?_
    · rintro ⟨e, he, -⟩
      cases he
    · rintro ⟨more, s, rest, heq, -⟩
      cases more <;> cases heq
  | cons string rest ih =>
    rw [rulesExceed_cons, monitorRules]
    obtain ⟨hlong, hinvalid⟩ | ⟨hlength, hexceeds, hquota⟩ | ⟨hcovers, hunread, hinvalid⟩ |
      ⟨hcovers, keys, users', tree', hread, hadded, hpaid⟩ := h.refRule_cases sizes user string
    · have hunread : ∀ keys, matchKeysNew string true ≠ .ok keys := by
        intro keys hok
        rw [matchKeysNew, if_pos (Nat.not_le.mp hlong)] at hok
        cases hok
      generalize matchOwnerRefRule sizes users tree user string true = result at hinvalid
      obtain ⟨users', tree', e⟩ := result
      cases hinvalid
      refine iff_of_false ?_ ?_
      · rintro ⟨e, he, hne⟩
        exact hne (Option.some.inj he).symm
      · rintro (⟨hlength, -⟩ | ⟨⟨keys, hok⟩, -⟩)
        · exact hlong hlength
        · exact hunread keys hok
    · generalize matchOwnerRefRule sizes users tree user string true = result at hquota
      obtain ⟨users', tree', e⟩ := result
      cases hquota
      exact iff_of_true ⟨.quota, rfl, by decide⟩ (.inl ⟨hlength, hexceeds⟩)
    · generalize matchOwnerRefRule sizes users tree user string true = result at hinvalid
      obtain ⟨users', tree', e⟩ := result
      cases hinvalid
      refine iff_of_false ?_ ?_
      · rintro ⟨e, he, hne⟩
        exact hne (Option.some.inj he).symm
      · rintro (⟨-, hexceeds⟩ | ⟨⟨keys, hok⟩, -⟩)
        · exact hexceeds hcovers
        · exact hunread keys hok
    · rw [hadded, ih hpaid, or_iff_right fun hfirst => hfirst.2 hcovers, and_iff_right ⟨keys, hread⟩]

/-- The rules of a new monitor are refused for another reason than their syntax exactly if they exceed the balances. -/
theorem monitorRules_exceed_iff (hlive : users.accounts.Live) :
    (∃ e, (monitorRules sizes users .empty user strings).2.2 = some e ∧ e ≠ .invalid) ↔
      RulesExceed sizes user users.balances [] strings := by
  have hpaid : RulesPaid sizes user users.balances [] users .empty := by
    refine ⟨hlive, covers_nil, rfl, fun keys => iff_of_false nofun ?_⟩
    rintro ⟨s, hs, -⟩
    cases hs
  exact hpaid.monitorRules_iff sizes user strings

end Rules

end DbusBroker
