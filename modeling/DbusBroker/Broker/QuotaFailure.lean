import DbusBroker.Broker.Controller
import DbusBroker.Bus.Activation
import DbusBroker.Bus.MatchOwner
import DbusBroker.Bus.NameRun
import DbusBroker.Bus.Reply
import DbusBroker.Util.UserAccounts

/-!
# Operations that exceed a quota

The operations that create an object and charge it to a user. An operation that is refused
should leave the accounts and the objects as they were. The constructors of match rules, name
ownerships and activation requests free the object they could not pay for, and with it the
usage that the refused charge pinned. Those of reply slots and reload requests do not.
-/

namespace DbusBroker

open Std Machine

/-- The registries in which the operations create their objects. -/
structure QuotaState where
  users : UserRegistry
  names : NameRegistry ℕ
  replies : ReplyWorld ℕ
  rules : RuleTree
  activation : Activation
  activationIds : ℕ
  controller : Controller

/-- A call of an operation that can exceed a quota. -/
inductive QuotaCall where
  | replySlotNew (registry owner : ℕ) (user actor : Option Uid) (id : ℕ) (serial : UInt32)
  | controllerReloadNew (broker user : Option Uid)
  | matchOwnerRefRule (user : Option Uid) (string : Bytes) (allowEavesdrop : Bool)
  | nameRegistryRequestName (idle : Bytes → Bool) (owner : ℕ) (user : Option Uid) (name : Bytes) (flags : UInt32)
  | activationQueueRequest (user : Uid) (senderId : ℕ) (serial : UInt32)

/-- All objects that exist. -/
structure QuotaObjects where
  names : StringTree Name
  owners : ℕ → NameOwner
  ownerships : SearchTree (compare : ℕ → ℕ → Ordering) (NameOwnership ℕ)
  slots : SearchTree (compare : ℕ → ℕ → Ordering) (ReplySlot ℕ)
  rules : RuleTree
  activation : Activation
  reloads : SearchTree (compare : ℕ → ℕ → Ordering) ControllerReload

namespace QuotaState

/-- The objects in the registries, linked or not. -/
def objects (s : QuotaState) : QuotaObjects :=
  ⟨s.names.nameTree, s.names.owners, s.names.ownerships, s.replies.slots.cells, s.rules, s.activation,
    s.controller.reloads.cells⟩

variable (sizes : Sizes)

/-- Perform a call: the registries after it, and whether it returned its quota error. -/
def perform (s : QuotaState) : QuotaCall → QuotaState × Bool
  | .replySlotNew registry owner user actor id serial =>
    let (users, replies, _, r) := replySlotNew s.users s.replies registry owner user actor id serial
    ({ s with users := users, replies := replies }, r = .quota)
  | .controllerReloadNew broker user =>
    let (users, controller, _, r) := controllerReloadNew sizes s.users s.controller broker user
    ({ s with users := users, controller := controller }, r = .quota)
  | .matchOwnerRefRule user string allowEavesdrop =>
    let (users, rules, r) := matchOwnerRefRule sizes s.users s.rules user string allowEavesdrop
    ({ s with users := users, rules := rules }, match r with | .error .quota => true | _ => false)
  | .nameRegistryRequestName idle owner user name flags =>
    let (users, names, _, r) := nameRegistryRequestName idle s.users s.names owner user name flags
    ({ s with users := users, names := names }, r = .quota)
  | .activationQueueRequest user senderId serial =>
    let (users, activation, activationIds, r) :=
      activationQueueRequest sizes s.users s.activation s.activationIds user senderId serial
    ({ s with users := users, activation := activation, activationIds := activationIds }, r = .quota)

/-- An activation request is made while the activation is pending. -/
def Pending (s : QuotaState) : QuotaCall → Prop
  | .activationQueueRequest _ _ _ => s.activation.pending ≠ 0
  | _ => True

/-- A call that returns its quota error leaves the accounts and the objects as they were. -/
def Restores (s : QuotaState) (call : QuotaCall) : Prop :=
  s.Pending call → (s.perform sizes call).2 = true →
    (s.perform sizes call).1.users.accounts = s.users.accounts ∧ (s.perform sizes call).1.objects = s.objects

/-- A call of one of the two constructors without a cleanup creates no object, or one that can be paid for. -/
def Affordable (s : QuotaState) : QuotaCall → Prop
  | .replySlotNew registry _ user actor id serial =>
    ((s.replies.replyTree registry).find? (id, serial)).isSome ∨ quotaAdmits s.users user actor userSlotObjects 1
  | .controllerReloadNew broker user =>
    (∀ serial, serial ≠ 0 → serial ≠ s.controller.serial → (s.controller.reloadTree.find? serial).isSome) ∨
      quotaAdmits s.users broker user userSlotBytes (UInt32.ofNat sizes.controllerReload)
  | _ => True

end QuotaState

section Serial

variable {tree : SearchTree (compare : UInt32 → UInt32 → Ordering) ℕ}

/-- The loop fails if it meets no serial that is free. -/
theorem controllerNextSerial_eq_none_iff (n : ℕ) (serial : UInt32) :
    (controllerNextSerial tree n serial).1 = none ↔
      ∀ i, 1 ≤ i → i ≤ n → serial + UInt32.ofNat i = 0 ∨ (tree.find? (serial + UInt32.ofNat i)).isSome := by
  induction n generalizing serial with
  | zero => exact iff_of_true rfl fun i hi hn => absurd (Nat.le_trans hi hn) (Nat.not_succ_le_zero 0)
  | succ n ih =>
    have hshift : ∀ i : ℕ, serial + 1 + UInt32.ofNat i = serial + UInt32.ofNat (i + 1) := by
      intro i
      rw [UInt32.add_assoc, Nat.add_comm i 1, UInt32.ofNat_add]
      rfl
    have hrest : (∀ i, 1 ≤ i → i ≤ n + 1 → serial + UInt32.ofNat i = 0 ∨
        (tree.find? (serial + UInt32.ofNat i)).isSome) ↔ (serial + 1 = 0 ∨ (tree.find? (serial + 1)).isSome) ∧
        ∀ i, 1 ≤ i → i ≤ n → serial + 1 + UInt32.ofNat i = 0 ∨
          (tree.find? (serial + 1 + UInt32.ofNat i)).isSome := by
      constructor
      · intro h
        refine ⟨h 1 (Nat.le_refl 1) (Nat.succ_le_succ (Nat.zero_le n)), fun i _ hn => ?_⟩
        rw [hshift]
        exact h (i + 1) (Nat.succ_le_succ (Nat.zero_le i)) (Nat.succ_le_succ hn)
      · rintro ⟨hone, h⟩ i hi hn
        cases i with
        | zero => exact absurd hi (Nat.not_succ_le_zero 0)
        | succ i =>
          cases i with
          | zero => exact hone
          | succ i =>
            have hstep := h (i + 1) (Nat.succ_le_succ (Nat.zero_le i)) (Nat.le_of_succ_le_succ hn)
            rw [hshift] at hstep
            exact hstep
    rw [hrest, controllerNextSerial]
    by_cases hzero : serial + 1 = 0
    · simp only [hzero, if_true, true_or, true_and]
      exact hzero ▸ ih (serial + 1)
    · simp only [if_neg hzero, or_iff_right hzero]
      cases hfind : tree.find? (serial + 1) with
      | none => simp
      | some reload =>
        simp only [Option.isNone_some, Bool.false_eq_true, if_false, Option.isSome_some, true_and]
        exact ih (serial + 1)

/-- The loop tries every serial but the current one. -/
theorem controllerNextSerial_exhausted_iff (serial : UInt32) :
    (controllerNextSerial tree (2 ^ 32 - 1) serial).1 = none ↔
      ∀ t, t ≠ 0 → t ≠ serial → (tree.find? t).isSome := by
  rw [controllerNextSerial_eq_none_iff]
  constructor
  · intro h t hzero hne
    have hsum : serial + UInt32.ofNat (t - serial).toNat = t := by
      rw [UInt32.ofNat_toNat, UInt32.add_comm, UInt32.sub_add_cancel]
    have hpos : (t - serial).toNat ≠ 0 := by
      intro heq
      rw [heq] at hsum
      exact hne (hsum.symm.trans (UInt32.add_zero serial))
    have hlt := (t - serial).toNat_lt
    have htry := h (t - serial).toNat (Nat.pos_of_ne_zero hpos) (by omega)
    rw [hsum] at htry
    exact htry.resolve_left hzero
  · intro h i hi hn
    by_cases hzero : serial + UInt32.ofNat i = 0
    · exact Or.inl hzero
    · refine Or.inr (h _ hzero fun heq => ?_)
      have hi0 : UInt32.ofNat i = 0 := by
        have hcancel := congrArg (· - serial) heq
        simp only [UInt32.sub_self] at hcancel
        rw [UInt32.add_comm, UInt32.add_sub_cancel] at hcancel
        exact hcancel
      have hnat : (UInt32.ofNat i).toNat = 0 := congrArg UInt32.toNat hi0
      rw [UInt32.toNat_ofNat_of_lt' (Nat.lt_of_le_of_lt hn (by decide))] at hnat
      omega

end Serial

section Restore

variable {users : UserRegistry} (hlive : users.accounts.Live)
include hlive

/-- A rule that is freed right away returns its charges. -/
theorem accounts_matchRuleDischarge (sizes : Sizes) (user : Option Uid) (string : Bytes) {users' : UserRegistry}
    {rule : MatchRule} {r : UserResult} (h : matchRuleCharge sizes users user string = (users', rule, r)) :
    (matchRuleDischarge users' rule).accounts = users.accounts := by
  rw [matchRuleCharge] at h
  rcases hbytes : userCharge users user .init none userSlotBytes
    (UInt32.ofNat (sizes.matchRule + string.length + 1)) with ⟨users₁, bytes, r₁⟩
  rw [hbytes] at h
  cases r₁ with
  | quota =>
    cases h
    exact accounts_charge_deinit hlive hbytes (accounts_userChargeDeinit_init _)
  | success =>
    have hlive₁ : users₁.accounts.Live := by
      have hkept := live_userCharge hlive user .init none userSlotBytes
        (UInt32.ofNat (sizes.matchRule + string.length + 1))
      rw [hbytes] at hkept
      exact hkept
    rcases hcount : userCharge users₁ user .init none userSlotMatches 1 with ⟨users₂, count, r₂⟩
    simp only [hcount] at h
    cases h
    exact accounts_charge_deinit hlive hbytes (accounts_charge_deinit hlive₁ hcount rfl)

/-- `match_owner_ref_rule` that fails leaves the accounts and the rules. -/
theorem matchOwnerRefRule_error (sizes : Sizes) (tree : RuleTree) (user : Option Uid) (string : Bytes)
    (allowEavesdrop : Bool) {e : MatchError}
    (h : (matchOwnerRefRule sizes users tree user string allowEavesdrop).2.2 = .error e) :
    (matchOwnerRefRule sizes users tree user string allowEavesdrop).1.accounts = users.accounts ∧
      (matchOwnerRefRule sizes users tree user string allowEavesdrop).2.1 = tree := by
  have hnew : ∀ users' e, matchRuleNew sizes users user string allowEavesdrop = (users', .error e) →
      users'.accounts = users.accounts := by
    intro users' e heq
    rw [matchRuleNew] at heq
    split at heq
    · cases heq
      rfl
    · rcases hcharge : matchRuleCharge sizes users user string with ⟨users₁, rule, r⟩
      rw [hcharge] at heq
      have hback := accounts_matchRuleDischarge hlive sizes user string hcharge
      cases r with
      | quota =>
        cases heq
        exact hback
      | success =>
        simp only at heq
        split at heq
        · cases heq
          exact hback
        · cases heq
  rw [matchOwnerRefRule] at h ⊢
  rcases hrule : matchRuleNew sizes users user string allowEavesdrop with ⟨users', e' | ⟨keys, rule⟩⟩
  · exact ⟨hnew users' e' hrule, rfl⟩
  · rw [hrule] at h
    simp only at h
    split at h
    · cases h
    · cases h

/-- `activation_queue_request` of a pending activation that fails leaves the accounts and the activation. -/
theorem activationQueueRequest_quota (sizes : Sizes) (activation : Activation) (hpending : activation.pending ≠ 0)
    (activationIds : ℕ) (user : Uid) (senderId : ℕ) (serial : UInt32)
    (h : (activationQueueRequest sizes users activation activationIds user senderId serial).2.2.2 = .quota) :
    (activationQueueRequest sizes users activation activationIds user senderId serial).1.accounts = users.accounts ∧
      (activationQueueRequest sizes users activation activationIds user senderId serial).2.1 = activation := by
  simp only [activationQueueRequest, activationRequest, if_pos hpending] at h ⊢
  by_cases hserial : serial = 0
  · rw [if_pos hserial] at h
    cases h
  · rw [if_neg hserial] at h ⊢
    rcases hcharge : userCharge users (some activation.user) .init (some user) userSlotBytes
      (UInt32.ofNat sizes.activationRequest) with ⟨users', charge, r⟩
    rw [hcharge] at h
    cases r with
    | success => cases h
    | quota => exact ⟨accounts_charge_deinit hlive hcharge rfl, rfl⟩

/-- `name_registry_request_name` that fails leaves the accounts and the names. -/
theorem nameRegistryRequestName_quota {ο : Type} [DecidableEq ο] {w : NameRegistry ο} {held : Bytes → ℕ}
    (hbooks : NameBooks w held) (idle : Bytes → Bool) (a : ο) (user : Option Uid) (n : Bytes) (flags : UInt32)
    (h : (nameRegistryRequestName idle users w a user n flags).2.2.2 = .quota) :
    (nameRegistryRequestName idle users w a user n flags).1.accounts = users.accounts ∧
      (nameRegistryRequestName idle users w a user n flags).2.1.nameTree = w.nameTree ∧
      (nameRegistryRequestName idle users w a user n flags).2.1.owners = w.owners ∧
      (nameRegistryRequestName idle users w a user n flags).2.1.ownerships = w.ownerships := by
  obtain ⟨⟨users', w', change, result⟩, hrequest⟩ : ∃ r, nameRegistryRequestName idle users w a user n flags = r := ⟨_, rfl⟩
  rw [hrequest] at h ⊢
  obtain rfl : result = .quota := h
  obtain ⟨⟨hnames, -⟩, haccounts⟩ := hbooks.request_refused hrequest
  rw [hnames]
  exact ⟨haccounts hlive, rfl, rfl, rfl⟩

end Restore

namespace QuotaState

variable {s : QuotaState} {sizes : Sizes}

/-- A refused reply slot stays. -/
theorem restores_replySlotNew_iff (registry owner : ℕ) (user actor : Option Uid) (id : ℕ) (serial : UInt32) :
    s.Restores sizes (.replySlotNew registry owner user actor id serial) ↔
      s.Affordable sizes (.replySlotNew registry owner user actor id serial) := by
  rw [Restores, Affordable, perform, replySlotNew]
  cases hfind : ((s.replies.replyTree registry).find? (id, serial)).isSome with
  | true => simp
  | false =>
    have hresult := userCharge_result s.users user actor userSlotObjects 1
    rcases hcharge : userCharge s.users user .init actor userSlotObjects 1 with ⟨users', charge, r⟩
    rw [hcharge] at hresult
    cases hadmits : quotaAdmits s.users user actor userSlotObjects 1 with
    | true =>
      rw [hadmits, if_pos rfl] at hresult
      simp only at hresult
      subst hresult
      simp
    | false =>
      rw [hadmits, if_neg Bool.false_ne_true] at hresult
      simp only at hresult
      subst hresult
      refine iff_of_false (fun h => ?_) (by simp)
      have hobjects := (h trivial (by simp)).2
      exact s.replies.slots.cells_alloc_ne _ (congrArg QuotaObjects.slots hobjects)

/-- A refused reload request stays. -/
theorem restores_controllerReloadNew_iff (broker user : Option Uid) :
    s.Restores sizes (.controllerReloadNew broker user) ↔
      s.Affordable sizes (.controllerReloadNew broker user) := by
  rw [Restores, Affordable, perform, controllerReloadNew, ← controllerNextSerial_exhausted_iff]
  rcases hserial : controllerNextSerial s.controller.reloadTree (2 ^ 32 - 1) s.controller.serial with ⟨_ | serial, last⟩
  · simp
  · have hresult := userCharge_result s.users broker user userSlotBytes (UInt32.ofNat sizes.controllerReload)
    rcases hcharge : userCharge s.users broker .init user userSlotBytes (UInt32.ofNat sizes.controllerReload)
      with ⟨users', charge, r⟩
    rw [hcharge] at hresult
    cases hadmits : quotaAdmits s.users broker user userSlotBytes (UInt32.ofNat sizes.controllerReload) with
    | true =>
      rw [hadmits, if_pos rfl] at hresult
      simp only at hresult
      subst hresult
      simp
    | false =>
      rw [hadmits, if_neg Bool.false_ne_true] at hresult
      simp only at hresult
      subst hresult
      refine iff_of_false (fun h => ?_) (by simp)
      have hobjects := (h trivial (by simp)).2
      exact s.controller.reloads.cells_alloc_ne _ (congrArg QuotaObjects.reloads hobjects)

/-- Every reachable accounting and every reachable name registry, with anything else. -/
def Reachable (s : QuotaState) : Prop :=
  (∃ hasLog nSlots maxima ops, s.users = (run Accounting.step (.init hasLog nSlots maxima) ops).registry) ∧
    ∃ users ops, s.names = (run NameWorld.step (.init users) ops).names

/-- A call that exceeds a quota leaves the accounts and the objects of every reachable state as they were,
except when it is a reply slot or a reload request that was to be created and cannot be paid for. -/
theorem restores_iff_affordable (sizes : Sizes) (s : QuotaState) (h : s.Reachable) (call : QuotaCall) :
    s.Restores sizes call ↔ s.Affordable sizes call := by
  obtain ⟨⟨hasLog, nSlots, maxima, ops, husers⟩, users, nameOps, hnames⟩ := h
  have hlive : s.users.accounts.Live := husers ▸ Accounting.live_run hasLog nSlots maxima ops
  cases call with
  | replySlotNew registry owner user actor id serial =>
    exact restores_replySlotNew_iff registry owner user actor id serial
  | controllerReloadNew broker user => exact restores_controllerReloadNew_iff broker user
  | matchOwnerRefRule user string allowEavesdrop =>
    refine iff_of_true (fun _ hquota => ?_) trivial
    have herror : (matchOwnerRefRule sizes s.users s.rules user string allowEavesdrop).2.2 = .error .quota := by
      simp only [perform] at hquota
      split at hquota
      · next heq => exact heq
      · cases hquota
    obtain ⟨haccounts, hrules⟩ := matchOwnerRefRule_error hlive sizes s.rules user string allowEavesdrop herror
    refine ⟨haccounts, ?_⟩
    simp only [perform, objects, hrules]
  | nameRegistryRequestName idle owner user name flags =>
    refine iff_of_true (fun _ hquota => ?_) trivial
    have hbooks : NameBooks s.names (run NameWorld.step (.init users) nameOps).held := by
      rw [hnames]
      exact (NameWorld.books_init users).run nameOps
    have herror : (nameRegistryRequestName idle s.users s.names owner user name flags).2.2.2 = .quota := by
      simpa [perform] using hquota
    obtain ⟨haccounts, htree, howners, hownerships⟩ :=
      nameRegistryRequestName_quota hlive hbooks idle owner user name flags herror
    refine ⟨haccounts, ?_⟩
    simp only [perform, objects, htree, howners, hownerships]
  | activationQueueRequest user senderId serial =>
    refine iff_of_true (fun hpending hquota => ?_) trivial
    have herror : (activationQueueRequest sizes s.users s.activation s.activationIds user senderId serial).2.2.2 =
        .quota := by
      simpa [perform] using hquota
    obtain ⟨haccounts, hactivation⟩ :=
      activationQueueRequest_quota hlive sizes s.activation hpending s.activationIds user senderId serial herror
    refine ⟨haccounts, ?_⟩
    simp only [perform, objects, hactivation]

/-- A user without any quota, and a name whose activation is pending. -/
def poor : QuotaState :=
  ⟨(run Accounting.step (.init false 4 fun _ => 0) [.refUser 0]).registry, .init, .init, .empty,
    ⟨lit "com.example", 0, [], [], 1⟩, 1, .init⟩

/-- Sizes of objects. -/
def wordSizes : Sizes := ⟨8, 8, 8, 8, 8, 8, 8, fun _ => 8⟩

theorem poor_reachable : poor.Reachable :=
  ⟨⟨false, 4, fun _ => 0, [.refUser 0], rfl⟩, poor.users, [], rfl⟩

/-- A request for an activation that is refused and leaves nothing. -/
theorem restores_iff_affordable_poor :
    poor.Reachable ∧ poor.Pending (.activationQueueRequest 0 7 3) ∧
      (poor.perform wordSizes (.activationQueueRequest 0 7 3)).2 = true ∧
      (poor.Restores wordSizes (.activationQueueRequest 0 7 3) ↔
        poor.Affordable wordSizes (.activationQueueRequest 0 7 3)) :=
  ⟨poor_reachable, Nat.one_ne_zero, by decide, restores_iff_affordable wordSizes poor poor_reachable _⟩

/-- A refused reply slot survives the call. -/
theorem not_restores_replySlotNew :
    ¬ ∀ (sizes : Sizes) (s : QuotaState) (call : QuotaCall), s.Reachable → s.Restores sizes call := by
  intro hall
  have hrestores := hall wordSizes poor (.replySlotNew 1 2 (some 0) none 2 9) poor_reachable
  have hobjects := (hrestores trivial rfl).2
  have hsize := congrArg (fun o => o.slots.size) hobjects
  revert hsize
  decide

end QuotaState

end DbusBroker
