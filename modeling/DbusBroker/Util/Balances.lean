import DbusBroker.Lib.Budget
import DbusBroker.Util.UserAccounts

/-!
# Balances

What is left on the accounts of a registry, as a budget. A user that charges itself pays if it
can, and a charge that it cannot pay leaves its balances as they were.
-/

namespace DbusBroker

open Budget

/-- Debits of the balances of users. -/
abbrev Bill := List ((Uid × ℕ) × ℕ)

/-- What is left on the accounts of all users, and nothing where there is none. -/
def UserRegistry.balances (r : UserRegistry) (k : Uid × ℕ) : ℕ :=
  (r.accounts k.1).elim 0 fun x => (x.slots k.2).n.toNat

/-- The debit of a charge of a user by itself. -/
def chargeBill (user : Option Uid) (slot : ℕ) (amount : UInt32) : Bill :=
  user.elim [] fun u => [((u, slot), amount.toNat)]

section Account

open UserAccount

/-- A usage that is referenced has no part in the balances. -/
@[simp] theorem UserAccount.slots_refUsage (a : Uid) (x : UserAccount) : (refUsage a x).slots = x.slots := by
  rw [refUsage]
  split <;> rfl

/-- A usage that is referenced is there. -/
theorem UserAccount.isSome_usages_refUsage (a : Uid) (x : UserAccount) : ((refUsage a x).usages a).isSome = true := by
  rw [refUsage]
  split <;> simp only [Function.update_self, Option.isSome_some]

/-- An amount is booked on a usage that is there. -/
theorem UserAccount.slots_book {x : UserAccount} {a : Uid} (hx : (x.usages a).isSome = true) (slot : ℕ) (amount : UInt32) :
    (book a slot amount x).slots = Function.update x.slots slot { x.slots slot with n := (x.slots slot).n - amount } := by
  rw [book]
  cases hy : x.usages a with
  | none =>
    rw [hy] at hx
    cases hx
  | some y => rfl

end Account

section Charge

variable {r r' : UserRegistry} {user : Option Uid} {slot : ℕ} {amount : UInt32} {c : UserCharge} {res : UserResult}

/-- The balances are those of the accounts. -/
theorem balances_congr (h : r'.accounts = r.accounts) : r'.balances = r.balances := by
  funext k
  rw [UserRegistry.balances, h]
  rfl

/-- The balances after the account of one user was rewritten. -/
theorem balances_onUser {u : Uid} {f : UserAccount → UserAccount}
    (h : r'.accounts = r.accounts.onUser u fun x => some (f x)) (k : Uid × ℕ) :
    r'.balances k = if k.1 = u then (r.accounts u).elim 0 fun x => ((f x).slots k.2).n.toNat else r.balances k := by
  rw [UserRegistry.balances, h, Accounts.onUser]
  split
  · next hk =>
    rw [hk, Function.update_self]
    cases r.accounts u <;> rfl
  · next hk =>
    rw [Function.update_of_ne hk]
    rfl

/-- Whether the quota of a user admits a charge by itself. -/
theorem userChargeAdmits_self (r : UserRegistry) (u : Uid) (slot : ℕ) (amount : UInt32) :
    userChargeAdmits r u u slot amount =
      (r.accounts u).elim false fun x => (x.usages u).isSome && decide (amount ≤ (x.slots slot).n) := by
  rw [userChargeAdmits, UserRegistry.accounts]
  cases r.userTree.find? u with
  | none => rfl
  | some x =>
    simp only [if_true, Option.map_some, Option.elim_some, User.account, Option.isSome_map]
    cases x.usageTree.find? u with
    | none => rfl
    | some usage =>
      rw [Option.isSome_some, Bool.true_and]

/-- A fresh charge of a user by itself is admitted if the balance covers it. -/
theorem quotaAdmits_self (r : UserRegistry) (user : Option Uid) (slot : ℕ) (amount : UInt32) :
    quotaAdmits r user none slot amount = true ↔ Covers r.balances (chargeBill user slot amount) := by
  rw [quotaAdmits.eq_def, Bool.or_eq_true, decide_eq_true_eq]
  cases user with
  | none => exact iff_of_true (.inr rfl) covers_nil
  | some u =>
    rw [chargeBill, Option.elim_some, covers_singleton, UserRegistry.balances]
    simp only [Option.getD_none]
    rw [userChargeAdmits_self, accounts_userRefUsage, Accounts.onUser, Function.update_self]
    cases r.accounts u with
    | none =>
      simp only [Option.bind_none, Option.elim_none, Bool.false_eq_true, or_false, Nat.le_zero]
      rw [← UInt32.toNat_inj]
      rfl
    | some x =>
      simp only [Option.bind_some, Option.elim_some, UserAccount.isSome_usages_refUsage, Bool.true_and, decide_eq_true_eq,
        UserAccount.slots_refUsage, UInt32.le_iff_toNat_le]
      refine or_iff_right_of_imp fun hzero => ?_
      rw [hzero]
      exact Nat.zero_le _

/-- A fresh charge of a user by itself succeeds if the balance covers it. -/
theorem userCharge_success_iff (h : userCharge r user .init none slot amount = (r', c, res)) :
    res = .success ↔ Covers r.balances (chargeBill user slot amount) := by
  have hres := userCharge_result r user none slot amount
  rw [h] at hres
  rw [← quotaAdmits_self]
  cases hadmits : quotaAdmits r user none slot amount with
  | true =>
    rw [hadmits, if_pos rfl] at hres
    exact iff_of_true hres rfl
  | false =>
    rw [hadmits, if_neg Bool.false_ne_true] at hres
    refine iff_of_false (fun hsuccess => ?_) Bool.false_ne_true
    rw [hsuccess] at hres
    cases hres

/-- An amount that is booked on a usage is paid. -/
theorem balances_book {u : Uid}
    (h : r'.accounts = r.accounts.onUser u fun x => some ((x.refUsage u).book u slot amount))
    (hcovers : Covers r.balances (chargeBill (some u) slot amount)) :
    r'.balances = pay r.balances (chargeBill (some u) slot amount) := by
  have hle : amount.toNat ≤ r.balances (u, slot) := (covers_singleton _ _).mp hcovers
  funext k
  obtain ⟨v, s⟩ := k
  rw [balances_onUser h, pay, chargeBill, Option.elim_some, due_cons, due_nil, Nat.add_zero]
  by_cases hv : v = u
  · obtain rfl := hv
    rw [if_pos rfl, UserRegistry.balances]
    rw [UserRegistry.balances] at hle
    cases hx : r.accounts v with
    | none => rw [Option.elim_none, Option.elim_none, Nat.zero_sub]
    | some x =>
      rw [hx] at hle
      rw [Option.elim_some, Option.elim_some, UserAccount.slots_book (UserAccount.isSome_usages_refUsage v x),
        UserAccount.slots_refUsage]
      by_cases hs : s = slot
      · rw [hs, Function.update_self, if_pos rfl]
        exact UInt32.toNat_sub_of_le _ _ (UInt32.le_iff_toNat_le.mpr hle)
      · rw [Function.update_of_ne hs, if_neg fun heq => hs (congrArg Prod.snd heq).symm, Nat.sub_zero]
  · rw [if_neg hv, if_neg fun heq => hv (congrArg Prod.fst heq).symm, Nat.sub_zero]

/-- A usage that is referenced costs nothing. -/
theorem balances_refUsage {u a : Uid} (h : r'.accounts = r.accounts.onUser u fun x => some (x.refUsage a)) :
    r'.balances = r.balances := by
  funext k
  rw [balances_onUser h]
  split
  · next hk =>
    rw [UserRegistry.balances, hk]
    simp only [UserAccount.slots_refUsage]
  · rfl

/-- A fresh charge of a user by itself is paid if the balance covers it, and changes no balance if it is refused. -/
theorem balances_userCharge (h : userCharge r user .init none slot amount = (r', c, res)) :
    r'.balances = settle r.balances (chargeBill user slot amount) := by
  have hsuccess := userCharge_success_iff h
  by_cases hamount : amount = 0
  · rw [userCharge.eq_def, if_pos hamount] at h
    cases h
    rw [settle_of_covers (hsuccess.mp rfl)]
    funext k
    rw [pay, hamount]
    cases user <;> simp [chargeBill]
  · cases user with
    | none =>
      rw [userCharge.eq_def, if_neg hamount] at h
      cases h
      exact settle_nil.symm
    | some u =>
      rcases accounts_userCharge hamount h with ⟨rfl, -, haccounts⟩ | ⟨rfl, -, haccounts⟩
      · have hcovers := hsuccess.mp rfl
        rw [settle_of_covers hcovers]
        exact balances_book haccounts hcovers
      · rw [settle_of_not_covers fun hcovers => absurd (hsuccess.mpr hcovers) (by decide)]
        exact balances_refUsage haccounts

/-- Two fresh charges of a user by itself, of which the first succeeded. -/
theorem balances_twoCharges {slot' : ℕ} {amount' : UInt32} {c' : UserCharge} {r'' : UserRegistry}
    (h : userCharge r user .init none slot amount = (r', c, .success))
    (h' : userCharge r' user .init none slot' amount' = (r'', c', res)) :
    (res = .success ↔ Covers r.balances (chargeBill user slot amount ++ chargeBill user slot' amount')) ∧
      (res = .success → r''.balances = pay r.balances (chargeBill user slot amount ++ chargeBill user slot' amount')) := by
  have hcovers := (userCharge_success_iff h).mp rfl
  have hpaid := balances_userCharge h
  have hsuccess := userCharge_success_iff h'
  have hpaid' := balances_userCharge h'
  rw [settle_of_covers hcovers] at hpaid
  rw [hpaid] at hsuccess hpaid'
  refine ⟨?_, fun hres => ?_⟩
  · rw [covers_append, hsuccess, and_iff_right hcovers]
  · rw [hpaid', settle_of_covers (hsuccess.mp hres), pay_append]

end Charge

end DbusBroker
