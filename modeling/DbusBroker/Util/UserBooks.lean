import DbusBroker.Lib.Run
import DbusBroker.Util.User
import Mathlib.Data.List.Count

/-!
# The quota books

What the accounting of `util/user.c` conserves. The books of a registry list the charge
objects of its callers: the balance of a user and the shares of its actors add up to the
maximum, a share is the sum of the charges on it, and every reference count is the number
of objects that refer to the counted one.

The only operation that can leave the range of its type is the factor `users + 1` in
`user_charge_check`, together with `n_usages` itself, and both need as many usages on one
user as there are uids.
-/

namespace DbusBroker

open Std

/-- The number of charges that refer to the usage of an actor on a user. -/
def refsOn (cs : List UserCharge) (user actor : Uid) : ℕ := cs.countP fun c => c.usage = some (user, actor)

/-- The amount that charges hold on a slot of the usage of an actor on a user. -/
def chargedOn (cs : List UserCharge) (user actor : Uid) (slot : ℕ) : ℕ :=
  (cs.map fun c => if c.usage = some (user, actor) ∧ c.slot = slot then c.charge.toNat else 0).sum

/-- The share of an actor is what the live charges say. -/
structure UsageBooks (cs : List UserCharge) (user actor : Uid) (usage : UserUsage) : Prop where
  refs : usage.nRefs = refsOn cs user actor
  live : 0 < usage.nRefs
  share : ∀ s, (usage.slots s).toNat = chargedOn cs user actor s

/-- The balance and the counters of a user are what its usages and holders say. -/
structure UserBooks (held : ℕ) (cs : List UserCharge) (uid : Uid) (user : User) : Prop where
  refs : user.nRefs = held + user.usageTree.size
  live : 0 < user.nRefs
  usages : user.nUsages.toNat = user.usageTree.size
  balance : ∀ s, (user.slots s).n.toNat + user.usageTree.total (fun _ x => (x.slots s).toNat) =
    (user.slots s).max.toNat
  usage : ∀ a x, user.usageTree.find? a = some x → UsageBooks cs uid a x
  idle : ∀ a, user.usageTree.find? a = none → refsOn cs uid a = 0

/-- The books of a registry balance, and nothing has wrapped or failed an assertion so far. -/
structure Books (r : UserRegistry) (held : Uid → ℕ) (cs : List UserCharge) : Prop where
  user : ∀ uid user, r.userTree.find? uid = some user → UserBooks (held uid) cs uid user
  absent : ∀ uid, r.userTree.find? uid = none → held uid = 0 ∧ ∀ a, refsOn cs uid a = 0
  unused : ∀ c ∈ cs, c.usage = none → c.charge = 0
  inRange : r.wrapped = false
  asserted : r.assertFailed = false

/-- Two lists of charges say the same about one usage. -/
def SameCharges (cs cs' : List UserCharge) (user actor : Uid) : Prop :=
  refsOn cs' user actor = refsOn cs user actor ∧
    ∀ s, chargedOn cs' user actor s = chargedOn cs user actor s

section Charges

variable {c c' : UserCharge} {cs cs' : List UserCharge} {u a : Uid}

/-- A charge counts on the usage it refers to. -/
theorem refsOn_cons (c : UserCharge) (cs : List UserCharge) (u a : Uid) :
    refsOn (c :: cs) u a = refsOn cs u a + if c.usage = some (u, a) then 1 else 0 := by
  simp [refsOn, List.countP_cons]

/-- A charge adds its amount on the usage and the slot it refers to. -/
theorem chargedOn_cons (c : UserCharge) (cs : List UserCharge) (u a : Uid) (s : ℕ) :
    chargedOn (c :: cs) u a s =
      (if c.usage = some (u, a) ∧ c.slot = s then c.charge.toNat else 0) + chargedOn cs u a s := by
  simp [chargedOn]

/-- Nothing is charged on a usage without references. -/
theorem chargedOn_eq_zero (h : refsOn cs u a = 0) (s : ℕ) : chargedOn cs u a s = 0 := by
  rw [refsOn, List.countP_eq_zero] at h
  rw [chargedOn, List.sum_eq_zero]
  intro n hn
  obtain ⟨c, hc, rfl⟩ := List.mem_map.mp hn
  have hother : c.usage ≠ some (u, a) := by simpa using h c hc
  rw [if_neg fun hboth => hother hboth.1]

/-- The order of the charges does not matter. -/
theorem sameCharges_of_perm (h : cs.Perm cs') (u a : Uid) : SameCharges cs cs' u a :=
  ⟨(h.countP_eq _).symm, fun _ => (h.map _).sum_eq.symm⟩

/-- A charge says nothing about the usages it does not refer to. -/
theorem sameCharges_cons (hc : c.usage ≠ some (u, a)) : SameCharges cs (c :: cs) u a := by
  constructor
  · rw [refsOn_cons, if_neg hc, Nat.add_zero]
  · intro s
    rw [chargedOn_cons, if_neg fun h => hc h.1, Nat.zero_add]

/-- Replacing a charge says nothing about the usages neither of the two refers to. -/
theorem sameCharges_replace (hc : c.usage ≠ some (u, a)) (hc' : c'.usage ≠ some (u, a)) :
    SameCharges (c :: cs) (c' :: cs) u a := by
  have hold : SameCharges cs (c :: cs) u a := sameCharges_cons hc
  have hnew : SameCharges cs (c' :: cs) u a := sameCharges_cons hc'
  exact ⟨hnew.1.trans hold.1.symm, fun s => (hnew.2 s).trans (hold.2 s).symm⟩

end Charges

section Registry

variable {r : UserRegistry} {held held' : Uid → ℕ} {cs cs' : List UserCharge}
variable {u a : Uid} {user : User} {usage usage' : UserUsage}

/-- An assertion that holds leaves no trace. -/
@[simp] theorem UserRegistry.check_true (r : UserRegistry) : r.check true = r := by
  simp [UserRegistry.check]

/-- A sum in range is the sum of the numbers. -/
theorem toNat_add_of_lt {a b : UInt32} (h : a.toNat + b.toNat < 2 ^ 32) :
    (a + b).toNat = a.toNat + b.toNat := by
  rw [UInt32.toNat_add, Nat.mod_eq_of_lt h]

/-- An operation in range leaves no trace. -/
@[simp] theorem UserRegistry.noteWrap_false (r : UserRegistry) : r.noteWrap false = r := by
  simp [UserRegistry.noteWrap]

/-- Usages with the same charges keep their books. -/
theorem UsageBooks.congr (h : UsageBooks cs u a usage) (hsame : SameCharges cs cs' u a) :
    UsageBooks cs' u a usage :=
  ⟨h.refs.trans hsame.1.symm, h.live, fun s => (h.share s).trans (hsame.2 s).symm⟩

/-- Users with the same charges keep their books. -/
theorem UserBooks.congr {n : ℕ} (h : UserBooks n cs u user) (hsame : ∀ a, SameCharges cs cs' u a) :
    UserBooks n cs' u user where
  refs := h.refs
  live := h.live
  usages := h.usages
  balance := h.balance
  usage := fun a x hx => (h.usage a x hx).congr (hsame a)
  idle := fun a ha => (hsame a).1.trans (h.idle a ha)

/-- Charges that say the same about every usage keep the books. -/
theorem Books.congr (h : Books r held cs) (hsame : ∀ v b, SameCharges cs cs' v b)
    (hunused : ∀ c ∈ cs', c.usage = none → c.charge = 0) : Books r held cs' where
  user := fun v x hx => (h.user v x hx).congr (hsame v)
  absent := fun v hv => ⟨(h.absent v hv).1, fun b => (hsame v b).1.trans ((h.absent v hv).2 b)⟩
  unused := hunused
  inRange := h.inRange
  asserted := h.asserted

/-- The order of the charges does not matter to the books. -/
theorem Books.perm (h : Books r held cs) (hperm : cs.Perm cs') : Books r held cs' :=
  h.congr (fun v b => sameCharges_of_perm hperm v b) fun c hc => h.unused c (hperm.mem_iff.mpr hc)

/-- Rewriting one user keeps the books, if it balances and the others are left alone. -/
theorem Books.setUser (h : Books r held cs) (huser : UserBooks (held' u) cs' u user)
    (hheld : ∀ v, v ≠ u → held' v = held v)
    (hsame : ∀ v, v ≠ u → ∀ a, SameCharges cs cs' v a)
    (hunused : ∀ c ∈ cs', c.usage = none → c.charge = 0) :
    Books (r.setUser u user) held' cs' where
  user := by
    intro v x hx
    by_cases hv : v = u
    · subst hv
      rw [UserRegistry.setUser, SearchTree.find?_insert_self] at hx
      cases hx
      exact huser
    · rw [UserRegistry.setUser, SearchTree.find?_insert_of_ne _ hv] at hx
      rw [hheld v hv]
      exact (h.user v x hx).congr (hsame v hv)
  absent := by
    intro v hx
    by_cases hv : v = u
    · subst hv
      rw [UserRegistry.setUser, SearchTree.find?_insert_self] at hx
      cases hx
    · rw [UserRegistry.setUser, SearchTree.find?_insert_of_ne _ hv] at hx
      rw [hheld v hv]
      exact ⟨(h.absent v hx).1, fun a => (hsame v hv a).1.trans ((h.absent v hx).2 a)⟩
  unused := hunused
  inRange := h.inRange
  asserted := h.asserted

/-- Rewriting one usage and the balances keeps the books of a user, if their sums are kept. -/
theorem UserBooks.setUsage {n : ℕ} (h : UserBooks n cs u user) (ha : user.usageTree.find? a = some usage)
    (husage : UsageBooks cs' u a usage') (slots : ℕ → UserSlot)
    (hbalance : ∀ s, (slots s).n.toNat + (usage'.slots s).toNat =
      (user.slots s).n.toNat + (usage.slots s).toNat)
    (hmax : ∀ s, (slots s).max = (user.slots s).max)
    (hsame : ∀ b, b ≠ a → SameCharges cs cs' u b) :
    UserBooks n cs' u { user with usageTree := user.usageTree.insert a usage', slots := slots } where
  refs := by
    simp only [SearchTree.size_insert_of_find?_some _ ha]
    exact h.refs
  live := h.live
  usages := by
    simp only [SearchTree.size_insert_of_find?_some _ ha]
    exact h.usages
  balance := by
    intro s
    have htotal := SearchTree.total_insert (fun _ (x : UserUsage) => (x.slots s).toNat) user.usageTree a usage'
    rw [SearchTree.weightAt, ha, Option.elim] at htotal
    have hold := h.balance s
    have hsum := hbalance s
    simp only [hmax]
    omega
  usage := by
    intro b x hx
    by_cases hb : b = a
    · subst hb
      rw [SearchTree.find?_insert_self] at hx
      cases hx
      exact husage
    · rw [SearchTree.find?_insert_of_ne _ hb] at hx
      exact (h.usage b x hx).congr (hsame b hb)
  idle := by
    intro b hx
    by_cases hb : b = a
    · subst hb
      rw [SearchTree.find?_insert_self] at hx
      cases hx
    · rw [SearchTree.find?_insert_of_ne _ hb] at hx
      exact (hsame b hb).1.trans (h.idle b hx)

/-- Rewriting one usage and the balances of its user keeps the books of the registry. -/
theorem Books.setUsage (h : Books r held cs) (hu : r.userTree.find? u = some user)
    (ha : user.usageTree.find? a = some usage) (husage : UsageBooks cs' u a usage') (slots : ℕ → UserSlot)
    (hbalance : ∀ s, (slots s).n.toNat + (usage'.slots s).toNat =
      (user.slots s).n.toNat + (usage.slots s).toNat)
    (hmax : ∀ s, (slots s).max = (user.slots s).max)
    (hsame : ∀ v b, (v, b) ≠ (u, a) → SameCharges cs cs' v b)
    (hunused : ∀ c ∈ cs', c.usage = none → c.charge = 0) :
    Books (r.setUser u { user with usageTree := user.usageTree.insert a usage', slots := slots }) held cs' := by
  refine h.setUser ?_ (fun _ _ => rfl) (fun v hv b => hsame v b fun heq => hv (Prod.mk.inj heq).1) hunused
  exact (h.user u user hu).setUsage ha husage slots hbalance hmax
    fun b hb => hsame u b fun heq => hb (Prod.mk.inj heq).2

/-- A charge that refers to no usage may be forgotten. -/
theorem Books.of_cons_unused {c : UserCharge} (h : Books r held (c :: cs)) (hc : c.usage = none) :
    Books r held cs := by
  refine h.congr (fun v b => ?_) fun d hd => h.unused d (List.mem_cons_of_mem c hd)
  have hsame : SameCharges cs (c :: cs) v b := sameCharges_cons (by rw [hc]; simp)
  exact ⟨hsame.1.symm, fun s => (hsame.2 s).symm⟩

/-- An empty charge object may be added. -/
theorem Books.cons_unused {c : UserCharge} (h : Books r held cs) (hc : c.usage = none)
    (hzero : c.charge = 0) : Books r held (c :: cs) := by
  refine h.congr (fun v b => sameCharges_cons (by rw [hc]; simp)) fun d hd hnone => ?_
  rcases List.mem_cons.mp hd with rfl | hd
  · exact hzero
  · exact h.unused d hd hnone

/-- A charge that refers to a usage finds it in its user. -/
theorem Books.exists_usage (h : Books r held cs) {c : UserCharge} (hmem : c ∈ cs)
    (hc : c.usage = some (u, a)) :
    ∃ user usage, r.userTree.find? u = some user ∧ user.usageTree.find? a = some usage := by
  have hpos : refsOn cs u a ≠ 0 := by
    rw [refsOn, Ne, List.countP_eq_zero]
    intro hall
    exact hall c hmem (by simpa using hc)
  cases hu : r.userTree.find? u with
  | none => exact absurd ((h.absent u hu).2 a) hpos
  | some user =>
    cases ha : user.usageTree.find? a with
    | none => exact absurd ((h.user u user hu).idle a ha) hpos
    | some usage => exact ⟨user, usage, rfl, ha⟩

/-- The amount still booked on an actor is part of the maximum. -/
theorem UserBooks.share_le_max {n : ℕ} (h : UserBooks n cs u user)
    (ha : user.usageTree.find? a = some usage) (s : ℕ) :
    (user.slots s).n.toNat + (usage.slots s).toNat ≤ (user.slots s).max.toNat := by
  have htotal := SearchTree.total_erase_of_find?_some
    (fun _ (x : UserUsage) => (x.slots s).toNat) user.usageTree ha
  have hbalance := h.balance s
  omega

end Registry

end DbusBroker
