import DbusBroker.Util.Accounting

/-!
# Accounts

The accounting without its ghosts: the references, balances and usages of every user, but not
which usages were reported in the log. The accounting functions act on accounts, and a charge
that is released right away leaves the accounts as they were, whether it was admitted or not.
-/

namespace DbusBroker

open Std Machine

/-- The references and the shares of a usage. -/
@[ext] structure UsageAccount where
  nRefs : ℕ
  slots : ℕ → UInt32

/-- The references, the balances and the usages of a user. -/
@[ext] structure UserAccount where
  nRefs : ℕ
  nUsages : UInt32
  slots : ℕ → UserSlot
  usages : Uid → Option UsageAccount

/-- The accounts of all users. -/
abbrev Accounts := Uid → Option UserAccount

/-- What a usage accounts for. -/
def UserUsage.account (usage : UserUsage) : UsageAccount := ⟨usage.nRefs, usage.slots⟩

/-- What a user accounts for. -/
def User.account (user : User) : UserAccount :=
  ⟨user.nRefs, user.nUsages, user.slots, fun actor => (user.usageTree.find? actor).map UserUsage.account⟩

/-- The accounts in a registry. -/
def UserRegistry.accounts (r : UserRegistry) : Accounts := fun uid => (r.userTree.find? uid).map User.account

namespace UserAccount

/-- A usage is referenced, and created if there is none. -/
def refUsage (actor : Uid) (x : UserAccount) : UserAccount :=
  match x.usages actor with
  | none =>
    { x with
      nRefs := x.nRefs + 1
      nUsages := x.nUsages + 1
      usages := Function.update x.usages actor (some ⟨1, fun _ => 0⟩) }
  | some y => { x with usages := Function.update x.usages actor (some { y with nRefs := y.nRefs + 1 }) }

/-- A reference on the user is dropped. -/
def unref (x : UserAccount) : Option UserAccount := if x.nRefs = 1 then none else some { x with nRefs := x.nRefs - 1 }

/-- A reference on a usage is dropped. -/
def unrefUsage (actor : Uid) (x : UserAccount) : Option UserAccount :=
  match x.usages actor with
  | none => some x
  | some y =>
    if y.nRefs = 1 then
      unref { x with nUsages := x.nUsages - 1, usages := Function.update x.usages actor none }
    else some { x with usages := Function.update x.usages actor (some { y with nRefs := y.nRefs - 1 }) }

/-- An amount is moved to the share of an actor. -/
def book (actor : Uid) (slot : ℕ) (amount : UInt32) (x : UserAccount) : UserAccount :=
  match x.usages actor with
  | none => x
  | some y =>
    { x with
      slots := Function.update x.slots slot { x.slots slot with n := (x.slots slot).n - amount }
      usages := Function.update x.usages actor
        (some { y with slots := Function.update y.slots slot (y.slots slot + amount) }) }

/-- An amount is returned from the share of an actor. -/
def unbook (actor : Uid) (slot : ℕ) (amount : UInt32) (x : UserAccount) : UserAccount :=
  match x.usages actor with
  | none => x
  | some y =>
    { x with
      slots := Function.update x.slots slot { x.slots slot with n := (x.slots slot).n + amount }
      usages := Function.update x.usages actor
        (some { y with slots := Function.update y.slots slot (y.slots slot - amount) }) }

/-- Nothing that exists is unreferenced. -/
def Live (x : UserAccount) : Prop := 0 < x.nRefs ∧ ∀ actor y, x.usages actor = some y → 0 < y.nRefs

/-- A usage that is referenced and dropped again leaves the user as it was. -/
theorem Live.unrefUsage_refUsage {x : UserAccount} (h : x.Live) (actor : Uid) :
    unrefUsage actor (refUsage actor x) = some x := by
  rw [refUsage]
  cases hy : x.usages actor with
  | none =>
    have hrefs : x.nRefs + 1 ≠ 1 := Nat.ne_of_gt (Nat.succ_lt_succ h.1)
    simp only [unrefUsage, Function.update_self, if_true, unref, if_neg hrefs, Function.update_idem]
    refine congrArg some (UserAccount.ext (Nat.add_sub_cancel _ _) ?_ rfl ?_)
    · exact UInt32.add_sub_cancel _ _
    · rw [← hy, Function.update_eq_self]
  | some y =>
    have hrefs : y.nRefs + 1 ≠ 1 := Nat.ne_of_gt (Nat.succ_lt_succ (h.2 actor y hy))
    simp only [unrefUsage, Function.update_self, if_neg hrefs, Function.update_idem, Nat.add_sub_cancel]
    rw [← hy, Function.update_eq_self]

/-- An amount that is moved and returned leaves the user as it was. -/
theorem unbook_book (actor : Uid) (slot : ℕ) (amount : UInt32) (x : UserAccount) :
    unbook actor slot amount (book actor slot amount x) = x := by
  rw [book]
  cases hy : x.usages actor with
  | none =>
    rw [unbook, hy]
  | some y =>
    simp only [unbook, Function.update_self, Function.update_idem, UInt32.sub_add_cancel, UInt32.add_sub_cancel,
      Function.update_eq_self]
    rw [← hy, Function.update_eq_self]

/-- Nothing is returned. -/
theorem unbook_zero (actor : Uid) (slot : ℕ) (x : UserAccount) : unbook actor slot 0 x = x := by
  rw [unbook]
  cases hy : x.usages actor with
  | none => rfl
  | some y =>
    simp only [UInt32.add_zero, UInt32.sub_zero, Function.update_eq_self]
    rw [← hy, Function.update_eq_self]

end UserAccount

namespace Accounts

/-- Rewrite the account of one user. -/
def onUser (A : Accounts) (uid : Uid) (f : UserAccount → Option UserAccount) : Accounts :=
  Function.update A uid ((A uid).bind f)

/-- Two changes of one user. -/
theorem onUser_onUser (A : Accounts) (uid : Uid) (f g : UserAccount → Option UserAccount) :
    (A.onUser uid f).onUser uid g = A.onUser uid fun x => (f x).bind g := by
  simp only [onUser, Function.update_self, Function.update_idem, Option.bind_assoc]

/-- A change that is none. -/
theorem onUser_eq_self {A : Accounts} {uid : Uid} {f : UserAccount → Option UserAccount}
    (h : ∀ x, A uid = some x → f x = some x) : A.onUser uid f = A := by
  rw [onUser]
  cases hx : A uid with
  | none => rw [Option.bind_none, ← hx, Function.update_eq_self]
  | some x => rw [Option.bind_some, h x hx, ← hx, Function.update_eq_self]

/-- Nothing that exists is unreferenced. -/
def Live (A : Accounts) : Prop := ∀ uid x, A uid = some x → x.Live

/-- A change of one user keeps everything referenced. -/
theorem Live.onUser {A : Accounts} (h : A.Live) {uid : Uid} {f : UserAccount → Option UserAccount}
    (hf : ∀ x y, x.Live → f x = some y → y.Live) : (A.onUser uid f).Live := by
  intro uid' y hy
  rw [Accounts.onUser] at hy
  by_cases hu : uid' = uid
  · rw [hu, Function.update_self] at hy
    obtain ⟨x, hx, hxy⟩ := Option.bind_eq_some_iff.mp hy
    exact hf x y (h uid x hx) hxy
  · rw [Function.update_of_ne hu] at hy
    exact h uid' y hy

end Accounts

section Registry

variable {r r' : UserRegistry} {u a : Uid} {user : User} {usage : UserUsage}

/-- The account of a user that is there. -/
theorem accounts_of_find? (hu : r.userTree.find? u = some user) : r.accounts u = some user.account := by
  rw [UserRegistry.accounts, hu, Option.map_some]

/-- The account of a user that is not there. -/
theorem accounts_of_find?_none (hu : r.userTree.find? u = none) : r.accounts u = none := by
  rw [UserRegistry.accounts, hu, Option.map_none]

/-- The usage of an actor in an account. -/
theorem usages_account (user : User) (a : Uid) :
    user.account.usages a = (user.usageTree.find? a).map UserUsage.account := rfl

/-- Checks are not accounted for. -/
@[simp] theorem accounts_check (r : UserRegistry) (c : Bool) : (r.check c).accounts = r.accounts := rfl

/-- Notes are not accounted for. -/
@[simp] theorem accounts_noteWrap (r : UserRegistry) (c : Bool) : (r.noteWrap c).accounts = r.accounts := rfl

/-- The accounts after a user was written back. -/
theorem accounts_setUser (r : UserRegistry) (u : Uid) (user : User) :
    (r.setUser u user).accounts = Function.update r.accounts u (some user.account) := by
  funext v
  by_cases hv : v = u
  · rw [hv, Function.update_self]
    exact accounts_of_find? (r.userTree.find?_insert_self u user)
  · rw [Function.update_of_ne hv]
    exact congrArg (Option.map User.account) (r.userTree.find?_insert_of_ne hv user)

/-- The account of a user after a usage was written back. -/
theorem account_insert (n : ℕ) (k : UInt32) (slots : ℕ → UserSlot)
    (t : SearchTree (compare : Uid → Uid → Ordering) UserUsage) (a : Uid) (usage : UserUsage) :
    User.account ⟨n, t.insert a usage, k, slots⟩ =
      ⟨n, k, slots, Function.update (fun b => (t.find? b).map UserUsage.account) a (some usage.account)⟩ := by
  refine congrArg (UserAccount.mk n k slots) (funext fun b => ?_)
  change ((t.insert a usage).find? b).map UserUsage.account = _
  by_cases hb : b = a
  · rw [hb, Function.update_self, t.find?_insert_self, Option.map_some]
  · rw [Function.update_of_ne hb, t.find?_insert_of_ne hb]

/-- The account of a user after a usage was destroyed. -/
theorem account_erase (n : ℕ) (k : UInt32) (slots : ℕ → UserSlot)
    (t : SearchTree (compare : Uid → Uid → Ordering) UserUsage) (a : Uid) :
    User.account ⟨n, t.erase a, k, slots⟩ =
      ⟨n, k, slots, Function.update (fun b => (t.find? b).map UserUsage.account) a none⟩ := by
  refine congrArg (UserAccount.mk n k slots) (funext fun b => ?_)
  change ((t.erase a).find? b).map UserUsage.account = _
  by_cases hb : b = a
  · rw [hb, Function.update_self, t.find?_erase_self, Option.map_none]
  · rw [Function.update_of_ne hb, t.find?_erase_of_ne hb]

/-- A user was written back as its account says. -/
theorem accounts_eq_onUser {f : UserAccount → Option UserAccount} {user' : User}
    (hr : r'.accounts = r.accounts) (hu : r.userTree.find? u = some user) (hf : f user.account = some user'.account) :
    (r'.setUser u user').accounts = r.accounts.onUser u f := by
  rw [accounts_setUser, hr, Accounts.onUser, accounts_of_find? hu, Option.bind_some, hf]

/-- Nothing happens to a user that is not there. -/
theorem accounts_eq_onUser_none {f : UserAccount → Option UserAccount} (hu : r.userTree.find? u = none) :
    r.accounts = r.accounts.onUser u f :=
  (Accounts.onUser_eq_self fun x hx => by rw [accounts_of_find?_none hu] at hx; cases hx).symm

/-- Nothing happens to an account. -/
theorem accounts_eq_onUser_self {f : UserAccount → Option UserAccount} (hu : r.userTree.find? u = some user)
    (hf : f user.account = some user.account) : r.accounts = r.accounts.onUser u f := by
  refine (Accounts.onUser_eq_self fun x hx => ?_).symm
  rw [accounts_of_find? hu] at hx
  cases hx
  exact hf

/-- `user_unref` on accounts. -/
theorem accounts_userUnref (r : UserRegistry) (u : Uid) :
    (userUnref r u).accounts = r.accounts.onUser u UserAccount.unref := by
  rw [userUnref]
  cases hu : r.userTree.find? u with
  | none => exact accounts_eq_onUser_none hu
  | some user =>
    have hrefs : user.account.nRefs = user.nRefs := rfl
    simp only
    split
    · next hone =>
      funext v
      rw [Accounts.onUser, accounts_of_find? hu, Option.bind_some, UserAccount.unref, hrefs, if_pos hone]
      by_cases hv : v = u
      · rw [hv, Function.update_self]
        exact congrArg (Option.map User.account) (r.userTree.find?_erase_self u)
      · rw [Function.update_of_ne hv]
        exact congrArg (Option.map User.account) (r.userTree.find?_erase_of_ne hv)
    · next hmore =>
      refine accounts_eq_onUser (accounts_check r _) hu ?_
      rw [UserAccount.unref, hrefs, if_neg hmore]
      rfl

/-- `user_usage_ref` on accounts, of a usage that is there. -/
theorem accounts_userUsageRef (hu : r.userTree.find? u = some user) (ha : user.usageTree.find? a = some usage) :
    (userUsageRef r u a).accounts = r.accounts.onUser u fun x => some (x.refUsage a) := by
  simp only [userUsageRef, hu, ha]
  refine accounts_eq_onUser (accounts_check r _) hu ?_
  rw [account_insert, UserAccount.refUsage, usages_account, ha]
  rfl

/-- `user_ref_usage` on accounts. -/
theorem accounts_userRefUsage (r : UserRegistry) (u a : Uid) :
    (userRefUsage r u a).accounts = r.accounts.onUser u fun x => some (x.refUsage a) := by
  rw [userRefUsage]
  cases hu : r.userTree.find? u with
  | none => exact accounts_eq_onUser_none hu
  | some user =>
    cases ha : user.usageTree.find? a with
    | none =>
      simp only [ha]
      refine accounts_eq_onUser (accounts_noteWrap r _) hu ?_
      rw [account_insert, UserAccount.refUsage, usages_account, ha]
      rfl
    | some usage =>
      simp only [ha]
      exact accounts_userUsageRef hu ha

/-- `user_usage_unref` on accounts. -/
theorem accounts_userUsageUnref (r : UserRegistry) (u a : Uid) :
    (userUsageUnref r u a).accounts = r.accounts.onUser u (UserAccount.unrefUsage a) := by
  rw [userUsageUnref]
  cases hu : r.userTree.find? u with
  | none => exact accounts_eq_onUser_none hu
  | some user =>
    cases ha : user.usageTree.find? a with
    | none =>
      simp only [ha]
      refine accounts_eq_onUser_self hu ?_
      rw [UserAccount.unrefUsage, usages_account, ha, Option.map_none]
    | some usage =>
      have hrefs : usage.account.nRefs = usage.nRefs := rfl
      simp only [ha]
      by_cases hone : usage.nRefs = 1
      · rw [if_pos hone, userUsageFree, accounts_userUnref, accounts_setUser, account_erase]
        simp only [accounts_noteWrap, accounts_check, Accounts.onUser, Function.update_self, Option.bind_some,
          Function.update_idem, accounts_of_find? hu]
        rw [UserAccount.unrefUsage, usages_account, ha, Option.map_some]
        simp only [hrefs, if_pos hone]
        rfl
      · rw [if_neg hone]
        refine accounts_eq_onUser (accounts_check r _) hu ?_
        rw [account_insert, UserAccount.unrefUsage, usages_account, ha, Option.map_some]
        simp only [hrefs, if_neg hone]
        rfl

/-- The booking of a charge on accounts. -/
theorem accounts_userBook (r : UserRegistry) (u a : Uid) (slot : ℕ) (amount : UInt32) :
    (userBook r u a slot amount).accounts = r.accounts.onUser u fun x => some (x.book a slot amount) := by
  rw [userBook]
  cases hu : r.userTree.find? u with
  | none => exact accounts_eq_onUser_none hu
  | some user =>
    cases ha : user.usageTree.find? a with
    | none =>
      simp only [ha]
      refine accounts_eq_onUser_self hu ?_
      rw [UserAccount.book, usages_account, ha, Option.map_none]
    | some usage =>
      simp only [ha]
      refine accounts_eq_onUser ((accounts_noteWrap _ _).trans (accounts_noteWrap r _)) hu ?_
      rw [account_insert, UserAccount.book, usages_account, ha, Option.map_some]
      rfl

/-- The return of a charge on accounts. -/
theorem accounts_userUnbook (r : UserRegistry) (u a : Uid) (slot : ℕ) (amount : UInt32) :
    (userUnbook r u a slot amount).accounts = r.accounts.onUser u fun x => some (x.unbook a slot amount) := by
  rw [userUnbook]
  cases hu : r.userTree.find? u with
  | none => exact accounts_eq_onUser_none hu
  | some user =>
    cases ha : user.usageTree.find? a with
    | none =>
      simp only [ha]
      refine accounts_eq_onUser_self hu ?_
      rw [UserAccount.unbook, usages_account, ha, Option.map_none]
    | some usage =>
      simp only [ha]
      refine accounts_eq_onUser ((accounts_noteWrap _ _).trans (accounts_noteWrap r _)) hu ?_
      rw [account_insert, UserAccount.unbook, usages_account, ha, Option.map_some]
      rfl

/-- The log is not accounted for. -/
@[simp] theorem accounts_userChargeCommitLog (r : UserRegistry) (u a : Uid) (slot : ℕ) :
    (userChargeCommitLog r u a slot).accounts = r.accounts := by
  rw [userChargeCommitLog]
  cases hu : r.userTree.find? u with
  | none => rfl
  | some user =>
    cases ha : user.usageTree.find? a with
    | none =>
      simp only [ha]
      rfl
    | some usage =>
      simp only [ha]
      split
      · rfl
      · have hold : (fun b => (user.usageTree.find? b).map UserUsage.account) a = some usage.account := by
          simp only [ha, Option.map_some]
        rw [accounts_setUser, accounts_check, account_insert]
        change Function.update r.accounts u (some ⟨_, _, _, Function.update _ a (some usage.account)⟩) = _
        rw [← hold, Function.update_eq_self]
        exact (congrArg (Function.update r.accounts u) (accounts_of_find? hu).symm).trans (Function.update_eq_self u _)

end Registry

section Charge

variable {r r' r'' : UserRegistry} {user actor : Option Uid} {slot : ℕ} {amount : UInt32} {c : UserCharge}
variable {res : UserResult}

/-- Whether the quota of a user admits a charge by an actor. -/
def quotaAdmits (r : UserRegistry) (user actor : Option Uid) (slot : ℕ) (amount : UInt32) : Bool :=
  amount = 0 ||
    match user with
    | none => true
    | some u => userChargeAdmits (userRefUsage r u (actor.getD u)) u (actor.getD u) slot amount

/-- The registry once the usage of the actor is pinned for a fresh charge. -/
def userPinned (r : UserRegistry) (u a : Uid) (slot : ℕ) (amount : UInt32) : UserRegistry :=
  let r := userRefUsage r u a
  let r := r.check (slot < r.nSlots)
  r.noteWrap (userChargeCheckWraps r u a slot amount)

/-- A pinned usage is one that is referenced. -/
theorem accounts_userPinned (r : UserRegistry) (u a : Uid) (slot : ℕ) (amount : UInt32) :
    (userPinned r u a slot amount).accounts = r.accounts.onUser u fun x => some (x.refUsage a) :=
  accounts_userRefUsage r u a

/-- A fresh charge of a user. -/
theorem userCharge_fresh {u : Uid} (hamount : amount ≠ 0) :
    userCharge r (some u) .init actor slot amount =
      if userChargeAdmits (userPinned r u (actor.getD u) slot amount) u (actor.getD u) slot amount then
        ((userBook (userPinned r u (actor.getD u) slot amount) u (actor.getD u) slot amount).noteWrap (addWraps 0 amount),
          ⟨some (u, actor.getD u), slot, 0 + amount⟩, .success)
      else
        (userChargeCommitLog (userPinned r u (actor.getD u) slot amount) u (actor.getD u) slot,
          ⟨some (u, actor.getD u), slot, 0⟩, .quota) := by
  rw [userCharge, if_neg hamount]
  rfl

/-- A fresh charge is refused by the quota and by nothing else. -/
theorem userCharge_result (r : UserRegistry) (user actor : Option Uid) (slot : ℕ) (amount : UInt32) :
    (userCharge r user .init actor slot amount).2.2 =
      if quotaAdmits r user actor slot amount then .success else .quota := by
  rw [quotaAdmits.eq_def]
  by_cases hamount : amount = 0
  · rw [decide_eq_true hamount, Bool.true_or, if_pos rfl, userCharge.eq_def, if_pos hamount]
  · rw [decide_eq_false hamount, Bool.false_or]
    cases user with
    | none => rw [userCharge.eq_def, if_neg hamount, if_pos rfl]
    | some u =>
      have hadmits : userChargeAdmits (userPinned r u (actor.getD u) slot amount) u (actor.getD u) slot amount =
        userChargeAdmits (userRefUsage r u (actor.getD u)) u (actor.getD u) slot amount := rfl
      rw [userCharge_fresh hamount, hadmits]
      simp only
      split
      · rfl
      · rfl

/-- What a fresh charge of a user does to the accounts and to the charge object. -/
theorem accounts_userCharge {u : Uid} (hamount : amount ≠ 0)
    (h : userCharge r (some u) .init actor slot amount = (r', c, res)) :
    (res = .success ∧ c = ⟨some (u, actor.getD u), slot, amount⟩ ∧
        r'.accounts = r.accounts.onUser u fun x => some ((x.refUsage (actor.getD u)).book (actor.getD u) slot amount)) ∨
      (res = .quota ∧ c = ⟨some (u, actor.getD u), slot, 0⟩ ∧
        r'.accounts = r.accounts.onUser u fun x => some (x.refUsage (actor.getD u))) := by
  rw [userCharge_fresh hamount] at h
  split at h
  · left
    cases h
    rw [accounts_noteWrap, accounts_userBook, accounts_userPinned, Accounts.onUser_onUser]
    exact ⟨rfl, by rw [UInt32.zero_add], rfl⟩
  · right
    cases h
    rw [accounts_userChargeCommitLog, accounts_userPinned]
    exact ⟨rfl, rfl, rfl⟩

/-- `user_charge_deinit` on accounts. -/
theorem accounts_userChargeDeinit {u a : Uid} (r : UserRegistry) (hc : c.usage = some (u, a)) :
    (userChargeDeinit r c).1.accounts =
      r.accounts.onUser u fun x => (x.unbook a c.slot c.charge).unrefUsage a := by
  rw [userChargeDeinit, hc, accounts_userUsageUnref, accounts_userUnbook, Accounts.onUser_onUser]
  rfl

/-- A charge object that was never used. -/
theorem accounts_userChargeDeinit_init (r : UserRegistry) :
    (userChargeDeinit r .init).1.accounts = r.accounts := rfl

/-- A fresh charge that is released leaves the accounts as they were, whether it was admitted or not. -/
theorem accounts_charge_deinit (hlive : r.accounts.Live)
    (h : userCharge r user .init actor slot amount = (r', c, res)) (hsame : r''.accounts = r'.accounts) :
    (userChargeDeinit r'' c).1.accounts = r.accounts := by
  have hnothing : r' = r → c = .init → (userChargeDeinit r'' c).1.accounts = r.accounts := by
    rintro rfl rfl
    exact (accounts_userChargeDeinit_init r'').trans hsame
  by_cases hamount : amount = 0
  · rw [userCharge.eq_def, if_pos hamount] at h
    cases h
    exact hnothing rfl rfl
  · cases user with
    | none =>
      rw [userCharge.eq_def, if_neg hamount] at h
      cases h
      exact hnothing rfl rfl
    | some u =>
      rcases accounts_userCharge hamount h with ⟨-, rfl, haccounts⟩ | ⟨-, rfl, haccounts⟩
      · rw [accounts_userChargeDeinit r'' rfl, hsame, haccounts, Accounts.onUser_onUser]
        refine Accounts.onUser_eq_self fun x hx => ?_
        rw [Option.bind_some, UserAccount.unbook_book]
        exact (hlive u x hx).unrefUsage_refUsage _
      · rw [accounts_userChargeDeinit r'' rfl, hsame, haccounts, Accounts.onUser_onUser]
        refine Accounts.onUser_eq_self fun x hx => ?_
        rw [Option.bind_some, UserAccount.unbook_zero]
        exact (hlive u x hx).unrefUsage_refUsage _

end Charge

section Live

open UserAccount

/-- The usages of an account after one was written. -/
theorem UserAccount.Live.setUsage {x x' : UserAccount} (h : x.Live) {a : Uid} {y : Option UsageAccount}
    (husages : x'.usages = Function.update x.usages a y) (hrefs : 0 < x'.nRefs) (hy : ∀ z, y = some z → 0 < z.nRefs) :
    x'.Live := by
  refine ⟨hrefs, fun b z hz => ?_⟩
  rw [husages] at hz
  by_cases hb : b = a
  · rw [hb, Function.update_self] at hz
    exact hy z hz
  · rw [Function.update_of_ne hb] at hz
    exact h.2 b z hz

/-- References on usages keep everything referenced. -/
theorem UserAccount.Live.refUsage {x : UserAccount} (h : x.Live) (a : Uid) : (refUsage a x).Live := by
  rw [UserAccount.refUsage]
  split
  · exact h.setUsage rfl (Nat.succ_pos _) fun z hz => by cases hz; exact Nat.one_pos
  · exact h.setUsage rfl h.1 fun z hz => by cases hz; exact Nat.succ_pos _

/-- A user that survives is referenced. -/
theorem UserAccount.Live.unref {x x' : UserAccount} (h : x.Live) (hx : unref x = some x') : x'.Live := by
  rw [UserAccount.unref] at hx
  split at hx
  · cases hx
  · next hone =>
    cases hx
    have hpos := h.1
    exact ⟨by simp only; omega, h.2⟩

/-- Dropped references on usages keep everything referenced. -/
theorem UserAccount.Live.unrefUsage {x x' : UserAccount} (h : x.Live) {a : Uid} (hx : unrefUsage a x = some x') :
    x'.Live := by
  rw [UserAccount.unrefUsage] at hx
  split at hx
  · cases hx
    exact h
  · next y hy =>
    split at hx
    · have herased : UserAccount.Live
          { x with nUsages := x.nUsages - 1, usages := Function.update x.usages a none } :=
        h.setUsage rfl h.1 fun z hz => (by cases hz)
      exact herased.unref hx
    · next hone =>
      cases hx
      have hpos := h.2 a y hy
      exact h.setUsage rfl h.1 fun z hz => by cases hz; simp only; omega

/-- Moving an amount keeps everything referenced. -/
theorem UserAccount.Live.book {x : UserAccount} (h : x.Live) (a : Uid) (slot : ℕ) (amount : UInt32) :
    (book a slot amount x).Live := by
  rw [UserAccount.book]
  split
  · exact h
  · next y hy => exact h.setUsage rfl h.1 fun z hz => by cases hz; exact h.2 a y hy

/-- Returning an amount keeps everything referenced. -/
theorem UserAccount.Live.unbook {x : UserAccount} (h : x.Live) (a : Uid) (slot : ℕ) (amount : UInt32) :
    (unbook a slot amount x).Live := by
  rw [UserAccount.unbook]
  split
  · exact h
  · next y hy => exact h.setUsage rfl h.1 fun z hz => by cases hz; exact h.2 a y hy

variable {r : UserRegistry} (h : r.accounts.Live)
include h

/-- A user that is written back keeps everything referenced, if it is. -/
theorem live_setUser {u : Uid} {x : User} (hx : x.account.Live) : (r.setUser u x).accounts.Live := by
  rw [accounts_setUser]
  intro v y hy
  by_cases hv : v = u
  · rw [hv, Function.update_self] at hy
    cases hy
    exact hx
  · rw [Function.update_of_ne hv] at hy
    exact h v y hy

/-- `user_ref` keeps everything referenced. -/
theorem live_userRef (u : Uid) : (userRef r u).accounts.Live := by
  rw [userRef]
  cases hu : r.userTree.find? u with
  | none => exact h
  | some x =>
    have hx := h u x.account (accounts_of_find? hu)
    exact live_setUser (r := r.check _) h ⟨Nat.succ_pos _, hx.2⟩

/-- `user_registry_ref_user` keeps everything referenced. -/
theorem live_userRegistryRefUser (u : Uid) : (userRegistryRefUser r u).accounts.Live := by
  rw [userRegistryRefUser]
  cases hu : r.userTree.find? u with
  | none => exact live_setUser h ⟨Nat.one_pos, fun a y hy => by cases hy⟩
  | some x => exact live_userRef h u

/-- `user_unref` keeps everything referenced. -/
theorem live_userUnref (u : Uid) : (userUnref r u).accounts.Live := by
  rw [accounts_userUnref]
  exact h.onUser fun x y hx hy => hx.unref hy

/-- `user_usage_unref` keeps everything referenced. -/
theorem live_userUsageUnref (u a : Uid) : (userUsageUnref r u a).accounts.Live := by
  rw [accounts_userUsageUnref]
  exact h.onUser fun x y hx hy => hx.unrefUsage hy

/-- `user_charge` keeps everything referenced. -/
theorem live_userCharge (user : Option Uid) (c : UserCharge) (actor : Option Uid) (slot : ℕ) (amount : UInt32) :
    (userCharge r user c actor slot amount).1.accounts.Live := by
  have hpin : ∀ u a, (userChargePin r u c a slot).accounts.Live := by
    intro u a
    rw [userChargePin]
    cases c.usage with
    | none =>
      simp only
      rw [accounts_userRefUsage]
      exact h.onUser fun x y hx hy => by cases hy; exact hx.refUsage a
    | some p =>
      simp only [userUsageRef]
      split
      · exact h
      · next x hu =>
        split
        · exact h
        · next y hy =>
          have hu' : r.userTree.find? p.1 = some x := hu
          have hx := h p.1 x.account (accounts_of_find? hu')
          refine live_setUser (r := _) h ?_
          rw [account_insert]
          exact hx.setUsage rfl hx.1 fun z hz => by cases hz; exact Nat.succ_pos _
  have hsettle : ∀ r' : UserRegistry, r'.accounts.Live → ∀ (c : UserCharge) u a,
      (userChargeSettle r' u c a slot).1.accounts.Live := by
    intro r' hr' c u a
    rw [userChargeSettle]
    cases c.usage with
    | none => exact hr'
    | some p => exact live_userUsageUnref hr' p.1 p.2
  rw [userCharge.eq_def]
  split
  · exact h
  · cases user with
    | none => exact h
    | some u =>
      simp only
      split
      · refine hsettle _ ?_ _ u _
        rw [accounts_noteWrap, accounts_userBook]
        exact (hpin u _).onUser fun x y hx hy => by cases hy; exact hx.book _ slot amount
      · refine hsettle _ ?_ _ u _
        rw [accounts_userChargeCommitLog]
        exact hpin u _

/-- `user_charge_deinit` keeps everything referenced. -/
theorem live_userChargeDeinit (c : UserCharge) : (userChargeDeinit r c).1.accounts.Live := by
  cases hc : c.usage with
  | none =>
    rw [userChargeDeinit, hc]
    exact h
  | some p =>
    rw [accounts_userChargeDeinit (u := p.1) (a := p.2) r hc]
    exact h.onUser fun x y hx hy => (hx.unbook p.2 c.slot c.charge).unrefUsage hy

end Live

/-- In every run of the accounting everything that exists is referenced. -/
theorem Accounting.live_run (hasLog : Bool) (nSlots : ℕ) (maxima : ℕ → UInt32) (ops : List AccountingOp) :
    (run Accounting.step (.init hasLog nSlots maxima) ops).registry.accounts.Live := by
  have hstep : ∀ (w : Accounting) (op : AccountingOp), w.registry.accounts.Live → True →
      (w.step op).registry.accounts.Live := by
    intro w op h _
    cases op with
    | refUser u => exact live_userRegistryRefUser h u
    | userRef u => exact live_userRef h u
    | userUnref u => exact live_userUnref h u
    | chargeInit id => exact h
    | charge id user actor slot amount =>
      rw [Accounting.step]
      cases w.charges.find? id with
      | none => exact h
      | some c => exact live_userCharge h user c actor slot amount
    | chargeDeinit id =>
      rw [Accounting.step]
      cases w.charges.find? id with
      | none => exact h
      | some c => exact live_userChargeDeinit h c
  exact run_invariant (P := fun _ _ => True) hstep (fun u x hx => (by cases hx)) (along_true _ ops)

end DbusBroker
