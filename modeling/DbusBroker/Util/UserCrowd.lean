import DbusBroker.Util.UserFairness

/-!
# A user with too many usages

The factor `users + 1` of `user_charge_check` is the one sum of that function that is not
checked. Refused charges leave their usage behind, so actors can gather on a user without
being admitted. With one usage for all but one of the uids the factor is zero, the quota of
the last actor is without bound, and the books no longer balance.
-/

namespace DbusBroker

open Std Machine

namespace Accounting

/-- One more actor joins: it asks for more than there is. -/
def crowdJoin (i : ℕ) : List AccountingOp :=
  [.refUser (.ofNat i), .chargeInit i, .charge i (some 0) (some (.ofNat i)) 0 65]

/-- The first actors gather on user zero. -/
def crowd : ℕ → List AccountingOp
  | 0 => [.refUser 0]
  | n + 1 => crowd n ++ crowdJoin n

/-- User zero has untouched balances and a usage for each of the first actors. -/
structure CrowdedUser (n : ℕ) (user : User) : Prop where
  size : user.usageTree.size = n
  fresh : ∀ a : Uid, n ≤ a.toNat → user.usageTree.find? a = none
  slot : user.slots 0 = ⟨64, 64⟩

/-- The state once the first actors have gathered. -/
structure Crowded (n : ℕ) (w : Accounting) : Prop where
  balanced : Balanced w
  nSlots : w.registry.nSlots = 1
  quiet : w.registry.hasLog = false
  objects : ∀ id, n ≤ id → w.charges.find? id = none
  user : ∃ user, w.registry.userTree.find? 0 = some user ∧ CrowdedUser n user

/-- Taking a reference on any user leaves the usages and balances of the others alone. -/
theorem userRegistryRefUser_find? {r : UserRegistry} {u : Uid} {user : User}
    (hu : r.userTree.find? u = some user) (v : Uid) :
    ∃ n, (userRegistryRefUser r v).userTree.find? u = some { user with nRefs := n } := by
  by_cases hv : u = v
  · subst hv
    refine ⟨user.nRefs + 1, ?_⟩
    simp only [userRegistryRefUser, hu, userRef, UserRegistry.setUser, SearchTree.find?_insert_self]
  · refine ⟨user.nRefs, ?_⟩
    rw [userRegistryRefUser, userRef]
    split
    · simp only [UserRegistry.setUser, SearchTree.find?_insert_of_ne _ hv]
      exact hu
    · simp only [UserRegistry.setUser, SearchTree.find?_insert_of_ne _ hv]
      exact hu

/-- A looked up user is live. -/
theorem userRegistryRefUser_isSome (r : UserRegistry) (u : Uid) :
    ((userRegistryRefUser r u).userTree.find? u).isSome := by
  rw [userRegistryRefUser, userRef]
  split
  · simp only [UserRegistry.setUser, SearchTree.find?_insert_self, Option.isSome_some]
  · simp only [UserRegistry.setUser, SearchTree.find?_insert_self, Option.isSome_some]

/-- The flags and sizes of a registry survive a lookup. -/
theorem userRegistryRefUser_keeps (r : UserRegistry) (u : Uid) :
    (userRegistryRefUser r u).nSlots = r.nSlots ∧ (userRegistryRefUser r u).hasLog = r.hasLog := by
  unfold userRegistryRefUser userRef
  split
  · exact ⟨rfl, rfl⟩
  · split
    · exact ⟨rfl, rfl⟩
    · exact ⟨rfl, rfl⟩

/-- The user once a new actor is pinned on it. -/
def joined (user : User) (a : Uid) : User :=
  { user with
    nRefs := user.nRefs + 1
    usageTree := user.usageTree.insert a userUsageNew
    nUsages := user.nUsages + 1 }

/-- The first charge of an actor pins it, and gives it its share if it is admitted. -/
theorem userCharge_fresh {r : UserRegistry} {u a : Uid} {user : User} (slot : ℕ) {amount : UInt32}
    (hquiet : r.hasLog = false) (hamount : amount ≠ 0) (hu : r.userTree.find? u = some user)
    (ha : user.usageTree.find? a = none) :
    ∃ wrapped failed, (userCharge r (some u) .init (some a) slot amount).1 =
      { r with
        userTree := r.userTree.insert u
          (if (if u = a then decide (amount ≤ (user.slots slot).n)
              else userChargeCheck (user.slots slot).n (user.nUsages + 1) 0 amount == .success) then
            (joined user a).booked a userUsageNew slot amount
          else joined user a)
        wrapped := wrapped
        assertFailed := failed } := by
  have hfind : ((r.userTree.insert u (joined user a)).find? u) = some (joined user a) :=
    SearchTree.find?_insert_self _ _ _
  have hfind' : (joined user a).usageTree.find? a = some userUsageNew := SearchTree.find?_insert_self _ _ _
  have hpin : userRefUsage r u a = (r.noteWrap (addWraps user.nUsages 1)).setUser u (joined user a) := by
    rw [userRefUsage, hu]
    simp only [ha, joined]
  have hslots : (joined user a).slots = user.slots := rfl
  have hcount : (joined user a).nUsages = user.nUsages + 1 := rfl
  have hshare : userUsageNew.slots slot = 0 := rfl
  unfold userCharge
  rw [if_neg hamount]
  simp only [userChargePin, UserCharge.init, hpin, userChargeAdmits, userChargeSettle, UserRegistry.setUser,
    UserRegistry.noteWrap, UserRegistry.check, Option.getD_some, hfind, hfind', hslots, hcount, hshare]
  generalize (if u = a then decide (amount ≤ (user.slots slot).n)
    else userChargeCheck (user.slots slot).n (user.nUsages + 1) 0 amount == .success) = admitted
  cases admitted with
  | true =>
    simp only [if_true, userBook, hfind, hfind', UserRegistry.setUser, UserRegistry.noteWrap,
      SearchTree.insert_insert]
    exact ⟨_, _, rfl⟩
  | false =>
    simp only [Bool.false_eq_true, if_false, userChargeCommitLog, hfind, hfind', hquiet, Bool.not_false,
      Bool.true_or, if_true]
    exact ⟨_, _, rfl⟩

/-- Everything but the last charge of a joining actor. -/
theorem crowd_enter {n : ℕ} {w : Accounting} (h : Crowded n w) :
    Along step Allowed w (crowdJoin n) ∧
      ∃ w', run step w (crowdJoin n) = step w' (.charge n (some 0) (some (.ofNat n)) 0 65) ∧
        w'.Allowed (.charge n (some 0) (some (.ofNat n)) 0 65) ∧
        w'.charges.find? n = some .init ∧ Balanced w' ∧ w'.registry.nSlots = 1 ∧
        w'.registry.hasLog = false ∧ (∀ id, n + 1 ≤ id → w'.charges.find? id = none) ∧
        ∃ user, w'.registry.userTree.find? 0 = some user ∧ CrowdedUser n user := by
  obtain ⟨user, hu, huser⟩ := h.user
  obtain ⟨refs, hu'⟩ := userRegistryRefUser_find? hu (.ofNat n)
  obtain ⟨hnSlots, hquiet⟩ := userRegistryRefUser_keeps w.registry (.ofNat n)
  let w₁ := step w (.refUser (.ofNat n))
  let w₂ := step w₁ (.chargeInit n)
  have hallowed₁ : w₁.Allowed (.chargeInit n) := by
    intro c hc
    rw [show w₁.charges.find? n = none from h.objects n le_rfl] at hc
    cases hc
  have hobject : w₂.charges.find? n = some .init := SearchTree.find?_insert_self _ _ _
  have hallowed₂ : w₂.Allowed (.charge n (some 0) (some (.ofNat n)) 0 65) := by
    refine ⟨.init, hobject, ?_, fun u hmem => ⟨?_, fun a hmem' => ?_, fun p hp => ?_⟩⟩
    · rw [show w₂.registry.nSlots = 1 from hnSlots.trans h.nSlots]
      exact Nat.one_pos
    · cases hmem
      exact Option.isSome_iff_exists.mpr ⟨_, hu'⟩
    · cases hmem'
      exact userRegistryRefUser_isSome w.registry (.ofNat n)
    · cases hp
  have hbalanced : Balanced w₂ := by
    refine balanced_step w₁ _ ?_ ⟨hallowed₁, trivial⟩
    exact balanced_step w _ h.balanced ⟨trivial, trivial⟩
  refine ⟨⟨trivial, hallowed₁, hallowed₂, trivial⟩, w₂, rfl, hallowed₂, hobject, hbalanced,
    hnSlots.trans h.nSlots, hquiet.trans h.quiet, fun id hid => ?_, _, hu', ?_⟩
  · rw [show w₂.charges.find? id = w.charges.find? id from SearchTree.find?_insert_of_ne _ (by omega) _]
    exact h.objects id (by omega)
  · exact ⟨huser.size, huser.fresh, huser.slot⟩

/-- What the last charge of a joining actor leaves of the charge objects and the registry. -/
theorem crowd_charge {n : ℕ} {w : Accounting} {user : User} {a : Uid} (hobject : w.charges.find? n = some .init)
    (hquiet : w.registry.hasLog = false) (hu : w.registry.userTree.find? 0 = some user)
    (hfresh : user.usageTree.find? a = none) (huser : user.slots 0 = ⟨64, 64⟩) :
    ∃ c wrapped failed, step w (.charge n (some 0) (some a) 0 65) =
      { w with
        charges := w.charges.insert n c
        registry :=
          { w.registry with
            userTree := w.registry.userTree.insert 0
              (if (0 : Uid) ≠ a ∧ userChargeCheck 64 (user.nUsages + 1) 0 65 = .success then
                (joined user a).booked a userUsageNew 0 65
              else joined user a)
            wrapped := wrapped
            assertFailed := failed } } := by
  obtain ⟨wrapped, failed, hcharge⟩ := userCharge_fresh 0 hquiet (by decide : (65 : UInt32) ≠ 0) hu hfresh
  refine ⟨(userCharge w.registry (some 0) .init (some a) 0 65).2.1, wrapped, failed, ?_⟩
  simp only [step, hobject, hcharge, huser]
  by_cases hself : (0 : Uid) = a
  · simp [hself]
  · simp [hself]

/-- A joining actor is refused while the factor is in range, and leaves its usage behind. -/
theorem crowded_join {n : ℕ} {w : Accounting} (h : Crowded n w) (hn : n + 2 < 2 ^ 32) :
    Crowded (n + 1) (run step w (crowdJoin n)) := by
  obtain ⟨-, w', hrun, hallowed, hobject, hbalanced, hnSlots, hquiet, hobjects, user, hu, huser⟩ :=
    crowd_enter h
  have hactor : (UInt32.ofNat n).toNat = n := UInt32.toNat_ofNat_of_lt' (Nat.lt_of_add_right_lt hn)
  have hfresh : user.usageTree.find? (.ofNat n) = none := huser.fresh _ hactor.ge
  have hcount : user.nUsages.toNat = n := (hbalanced.user 0 user hu).usages.trans huser.size
  have hcountable : w'.Countable (.charge n (some 0) (some (.ofNat n)) 0 65) := by
    intro x hx _
    cases hu.symm.trans hx
    rw [usersCounted, usagesWith, Option.getD_some, hfresh, if_neg (by simp), huser.size]
    split <;> omega
  have hrefused : ¬((0 : Uid) ≠ .ofNat n ∧ userChargeCheck 64 (user.nUsages + 1) 0 65 = .success) := by
    rintro ⟨-, hallows⟩
    have hone : (1 : UInt32).toNat = 1 := rfl
    have hsucc : (user.nUsages + 1).toNat = n + 1 := by
      rw [toNat_add_of_lt (by omega), hcount, hone]
    have hfit := userChargeCheck_success (fun _ => by omega) hallows
    simp only [UInt32.reduceToNat] at hfit
    omega
  obtain ⟨c, wrapped, failed, hstep⟩ := crowd_charge hobject hquiet hu hfresh huser.slot
  rw [if_neg hrefused] at hstep
  have hbalanced' := balanced_step w' _ hbalanced ⟨hallowed, hcountable⟩
  rw [hrun]
  rw [hstep] at hbalanced' ⊢
  refine ⟨hbalanced', hnSlots, hquiet, fun id hid => ?_, _, SearchTree.find?_insert_self _ _ _, ?_, ?_, ?_⟩
  · rw [SearchTree.find?_insert_of_ne _ (by omega)]
    exact hobjects id hid
  · exact (user.usageTree.size_insert_of_find?_none hfresh _).trans (by rw [huser.size])
  · intro a ha
    have hne : a ≠ .ofNat n := by
      rintro rfl
      omega
    exact (SearchTree.find?_insert_of_ne _ hne _).trans (huser.fresh a (by omega))
  · exact huser.slot

/-- All but one of the uids gather, each of them refused. -/
theorem crowded_crowd (n : ℕ) (hn : n + 1 < 2 ^ 32) :
    Along step Allowed (init false 1 fun _ => 64) (crowd n) ∧
      Crowded n (run step (init false 1 fun _ => 64) (crowd n)) := by
  induction n with
  | zero =>
    refine ⟨⟨trivial, trivial⟩, ?_⟩
    refine ⟨balanced_step (init false 1 fun _ => 64) (.refUser 0) (balanced_init _ _ _) ⟨trivial, trivial⟩,
      rfl, rfl, fun _ _ => rfl, ?_⟩
    exact ⟨userNew (init false 1 fun _ => 64).registry, rfl, rfl, fun _ _ => rfl, rfl⟩
  | succ n ih =>
    obtain ⟨halong, hcrowded⟩ := ih (by omega)
    rw [crowd, run_append, along_append]
    exact ⟨⟨halong, (crowd_enter hcrowded).1⟩, crowded_join hcrowded (by omega)⟩

/-- With all but one of the uids on a user, the last of them is admitted with more than there is. -/
theorem overcrowded {n : ℕ} (hn : n + 2 = 2 ^ 32) :
    ∃ ops, Along step Allowed (init false 1 fun _ => 64) ops ∧
      ∃ a user usage, a ≠ 0 ∧ (run step (init false 1 fun _ => 64) ops).registry.userTree.find? 0 = some user ∧
        user.usageTree.find? a = some usage ∧ user.slots 0 = ⟨64 - 65, 64⟩ ∧ usage.slots 0 = 65 := by
  obtain ⟨halong, hcrowded⟩ := crowded_crowd n (by omega)
  obtain ⟨halong', w', hrun, -, hobject, hbalanced, -, hquiet, -, user, hu, huser⟩ := crowd_enter hcrowded
  have hlt : n < 2 ^ 32 := by omega
  have hactor : (UInt32.ofNat n).toNat = n := UInt32.toNat_ofNat_of_lt' hlt
  have hfresh : user.usageTree.find? (.ofNat n) = none := huser.fresh _ hactor.ge
  have hforeign : UInt32.ofNat n ≠ 0 := by
    intro hzero
    rw [hzero] at hactor
    have hzeroNat : (0 : UInt32).toNat = 0 := rfl
    omega
  have hcount : user.nUsages.toNat = n := (hbalanced.user 0 user hu).usages.trans huser.size
  have hlast : user.nUsages = 4294967294 := UInt32.toNat.inj (hcount.trans (Nat.add_right_cancel hn))
  have hadmitted : (0 : Uid) ≠ .ofNat n ∧ userChargeCheck 64 (user.nUsages + 1) 0 65 = .success := by
    rw [hlast]
    exact ⟨hforeign.symm, by decide⟩
  obtain ⟨c, wrapped, failed, hstep⟩ := crowd_charge hobject hquiet hu hfresh huser.slot
  rw [if_pos hadmitted] at hstep
  refine ⟨crowd n ++ crowdJoin n, (along_append _ _ _).mpr ⟨halong, halong'⟩, .ofNat n, ?_⟩
  rw [run_append, hrun, hstep]
  refine ⟨_, _, hforeign, SearchTree.find?_insert_self _ _ _, SearchTree.find?_insert_self _ _ _, ?_, rfl⟩
  change Function.update user.slots 0 { user.slots 0 with n := (user.slots 0).n - 65 } 0 = _
  rw [Function.update_self, huser.slot]

/-- Without a bound on the usages the books do not always balance. -/
theorem not_balanced_run_overcrowded :
    ¬∀ ops, Along step Allowed (init false 1 fun _ => 64) ops →
      Balanced (run step (init false 1 fun _ => 64) ops) := by
  intro hall
  obtain ⟨ops, halong, a, user, usage, -, hu, -, hslot, -⟩ := overcrowded rfl
  have hbalance := ((hall ops halong).user 0 user hu).balance 0
  rw [hslot] at hbalance
  have hwrapped : ((64 : UInt32) - 65).toNat = 2 ^ 32 - 1 := rfl
  have hmax : (64 : UInt32).toNat = 64 := rfl
  simp only at hbalance
  omega

/-- Without a bound on the usages a foreign actor can take more than there is. -/
theorem not_fairQuota_run_overcrowded :
    ¬∀ ops, Along step Allowed (init false 1 fun _ => 64) ops →
      FairQuota (run step (init false 1 fun _ => 64) ops) := by
  intro hall
  obtain ⟨ops, halong, a, user, usage, hforeign, hu, ha, hslot, hshare⟩ := overcrowded rfl
  have hfair := hall ops halong 0 user hu 0
  have hmem : (usage.slots 0).toNat ∈ user.foreignShares 0 0 := by
    refine List.mem_map.mpr ⟨(a, usage), List.mem_filter.mpr ⟨?_, ?_⟩, rfl⟩
    · exact (user.usageTree.find?_eq_some_iff a usage).mp ha
    · simp only [hforeign, hshare, ne_eq, not_false_eq_true, true_and, decide_eq_true_eq]
      decide
  have hsum : 65 ≤ (user.foreignShares 0 0).sum := by
    have hle := List.le_sum_of_mem hmem
    rwa [hshare] at hle
  have hmax : (64 : UInt32).toNat = 64 := rfl
  rw [hslot, hmax] at hfair
  generalize (user.foreignShares 0 0).length = m at hfair
  generalize (user.foreignShares 0 0).sum = total at hfair hsum
  have hneg : ((m : ℤ) + 1) * (64 - total) ≤ 0 :=
    Int.mul_nonpos_of_nonneg_of_nonpos (by omega) (by omega)
  push_cast at hfair
  omega

end Accounting

end DbusBroker
