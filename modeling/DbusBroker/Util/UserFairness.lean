import DbusBroker.Util.Accounting
import Mathlib.Algebra.BigOperators.Group.Finset.Basic
import Mathlib.Algebra.Order.BigOperators.Group.Finset
import Mathlib.Tactic.Ring

/-!
# Fairness of the quotas

A foreign actor is only compared with the balance that is left at the moment of its charge.
The bound over all of them follows from an invariant over every set of foreign actors: what
they leave of the maximum, times one more than their number, is at least the maximum.
-/

namespace DbusBroker

open Std Machine

/-- Every set of foreign actors leaves its part of each slot. -/
def User.Fair (uid : Uid) (user : User) : Prop :=
  ∀ (s : ℕ) (actors : Finset Uid), uid ∉ actors →
    (user.slots s).max.toNat + (actors.card + 1) * ∑ a ∈ actors, user.share s a ≤
      (actors.card + 1) * (user.slots s).max.toNat

/-- The non-zero shares of foreign actors in a slot. -/
def User.foreignShares (uid : Uid) (user : User) (slot : ℕ) : List ℕ :=
  (user.usageTree.entries.filter fun e => e.1 ≠ uid ∧ e.2.slots slot ≠ 0).map fun e => (e.2.slots slot).toNat

/-- No share in a tree of users is larger than in another one, and no maximum differs. -/
def NoGrowth (t t' : SearchTree (compare : Uid → Uid → Ordering) User) : Prop :=
  ∀ uid user', t'.find? uid = some user' →
    (∀ s a, user'.share s a = 0) ∨
      ∃ user, t.find? uid = some user ∧
        ∀ s, (user'.slots s).max = (user.slots s).max ∧ ∀ a, user'.share s a ≤ user.share s a

section Fairness

variable {r : UserRegistry} {t t' t'' : SearchTree (compare : Uid → Uid → Ordering) User}
variable {u a : Uid} {user user' : User} {usage usage' : UserUsage}

/-- Nothing grows where nothing happens. -/
theorem NoGrowth.refl (t : SearchTree (compare : Uid → Uid → Ordering) User) : NoGrowth t t :=
  fun _ user h => Or.inr ⟨user, h, fun _ => ⟨rfl, fun _ => le_rfl⟩⟩

/-- Nothing grows in two steps that grow nothing. -/
theorem NoGrowth.trans (h : NoGrowth t t') (h' : NoGrowth t' t'') : NoGrowth t t'' := by
  intro uid user'' hfind
  rcases h' uid user'' hfind with hzero | ⟨user', hfind', hkeep'⟩
  · exact Or.inl hzero
  · rcases h uid user' hfind' with hzero | ⟨user, hfind, hkeep⟩
    · exact Or.inl fun s a => Nat.le_zero.mp (((hkeep' s).2 a).trans_eq (hzero s a))
    · exact Or.inr ⟨user, hfind, fun s =>
        ⟨(hkeep' s).1.trans (hkeep s).1, fun a => ((hkeep' s).2 a).trans ((hkeep s).2 a)⟩⟩

/-- Rewriting a user without larger shares grows nothing. -/
theorem noGrowth_insert (hu : t.find? u = some user)
    (hkeep : ∀ s, (user'.slots s).max = (user.slots s).max ∧ ∀ a, user'.share s a ≤ user.share s a) :
    NoGrowth t (t.insert u user') := by
  intro v x hx
  by_cases hv : v = u
  · subst hv
    rw [SearchTree.find?_insert_self] at hx
    cases hx
    exact Or.inr ⟨user, hu, hkeep⟩
  · rw [SearchTree.find?_insert_of_ne _ hv] at hx
    exact NoGrowth.refl t v x hx

/-- Removing a user grows nothing. -/
theorem noGrowth_erase (t : SearchTree (compare : Uid → Uid → Ordering) User) (u : Uid) :
    NoGrowth t (t.erase u) := by
  intro v x hx
  by_cases hv : v = u
  · rw [hv, SearchTree.find?_erase_self] at hx
    cases hx
  · rw [SearchTree.find?_erase_of_ne _ hv] at hx
    exact NoGrowth.refl t v x hx

/-- Rewriting a usage without larger shares grows nothing. -/
theorem share_insert_le (user : User) (a : Uid) (slots : ℕ → UserSlot) (s : ℕ)
    (hle : (usage'.slots s).toNat ≤ user.share s a) (b : Uid) :
    User.share { user with usageTree := user.usageTree.insert a usage', slots := slots } s b ≤
      user.share s b := by
  by_cases hb : b = a
  · subst hb
    rw [User.share, SearchTree.weightAt_insert_self]
    exact hle
  · rw [User.share, SearchTree.weightAt_insert_of_ne _ _ hb]
    rfl

/-- Every set of foreign actors keeps its bound where nothing grows. -/
theorem NoGrowth.fair (h : NoGrowth t t') (hfair : ∀ uid user, t.find? uid = some user → user.Fair uid) :
    ∀ uid user, t'.find? uid = some user → user.Fair uid := by
  intro uid user' hfind s actors hself
  rcases h uid user' hfind with hzero | ⟨user, hfind', hkeep⟩
  · simp only [hzero, Finset.sum_const_zero, Nat.mul_zero, Nat.add_zero]
    exact Nat.le_mul_of_pos_left _ (Nat.succ_pos _)
  · have hold := hfair uid user hfind' s actors hself
    have hsum : ∑ a ∈ actors, user'.share s a ≤ ∑ a ∈ actors, user.share s a :=
      Finset.sum_le_sum fun a _ => (hkeep s).2 a
    rw [(hkeep s).1]
    exact (Nat.add_le_add_left (Nat.mul_le_mul_left _ hsum) _).trans hold

/-- Reference counts do not touch the shares. -/
theorem noGrowth_userRef (r : UserRegistry) (u : Uid) : NoGrowth r.userTree (userRef r u).userTree := by
  unfold userRef
  split
  · exact NoGrowth.refl _
  · next user hu => exact noGrowth_insert hu fun _ => ⟨rfl, fun _ => le_rfl⟩

/-- Dropping a user grows nothing. -/
theorem noGrowth_userUnref (r : UserRegistry) (u : Uid) : NoGrowth r.userTree (userUnref r u).userTree := by
  unfold userUnref
  split
  · exact NoGrowth.refl _
  · next user hu =>
    split
    · exact noGrowth_erase _ u
    · exact noGrowth_insert hu fun _ => ⟨rfl, fun _ => le_rfl⟩

/-- A new user has no shares yet. -/
theorem noGrowth_userRegistryRefUser (r : UserRegistry) (u : Uid) :
    NoGrowth r.userTree (userRegistryRefUser r u).userTree := by
  unfold userRegistryRefUser
  split
  · intro v x hx
    by_cases hv : v = u
    · subst hv
      simp only [UserRegistry.setUser, SearchTree.find?_insert_self, Option.some.injEq] at hx
      subst hx
      exact Or.inl fun _ _ => rfl
    · simp only [UserRegistry.setUser, SearchTree.find?_insert_of_ne _ hv] at hx
      exact NoGrowth.refl _ v x hx
  · exact noGrowth_userRef r u

/-- References on usages do not touch the shares. -/
theorem noGrowth_userUsageRef (r : UserRegistry) (u a : Uid) :
    NoGrowth r.userTree (userUsageRef r u a).userTree := by
  unfold userUsageRef
  split
  · exact NoGrowth.refl _
  · next user hu =>
    split
    · exact NoGrowth.refl _
    · next usage ha =>
      exact noGrowth_insert hu fun s =>
        ⟨rfl, share_insert_le user a user.slots s (share_of_find? ha s).ge⟩

/-- Dropping a usage grows nothing. -/
theorem noGrowth_userUsageUnref (r : UserRegistry) (u a : Uid) :
    NoGrowth r.userTree (userUsageUnref r u a).userTree := by
  unfold userUsageUnref
  split
  · exact NoGrowth.refl _
  · next user hu =>
    split
    · exact NoGrowth.refl _
    · next usage ha =>
      split
      · refine NoGrowth.trans ?_ (noGrowth_userUnref _ u)
        refine noGrowth_insert hu fun s => ⟨rfl, fun b => ?_⟩
        by_cases hb : b = a
        · rw [hb, User.share, SearchTree.weightAt_erase_self]
          exact Nat.zero_le _
        · rw [User.share, SearchTree.weightAt_erase_of_ne _ _ hb]
          rfl
      · exact noGrowth_insert hu fun s =>
          ⟨rfl, share_insert_le user a user.slots s (share_of_find? ha s).ge⟩

/-- A new usage has no share yet. -/
theorem noGrowth_userRefUsage (r : UserRegistry) (u a : Uid) :
    NoGrowth r.userTree (userRefUsage r u a).userTree := by
  unfold userRefUsage
  split
  · exact NoGrowth.refl _
  · next user hu =>
    split
    · exact noGrowth_insert hu fun s => ⟨rfl, share_insert_le user a user.slots s (Nat.zero_le _)⟩
    · exact noGrowth_userUsageRef r u a

/-- The log flag does not touch the shares. -/
theorem noGrowth_userChargeCommitLog (r : UserRegistry) (u a : Uid) (slot : ℕ) :
    NoGrowth r.userTree (userChargeCommitLog r u a slot).userTree := by
  unfold userChargeCommitLog
  split
  · exact NoGrowth.refl _
  · next user hu =>
    split
    · exact NoGrowth.refl _
    · next usage ha =>
      split
      · exact NoGrowth.refl _
      · exact noGrowth_insert hu fun s =>
          ⟨rfl, share_insert_le user a user.slots s (share_of_find? ha s).ge⟩

/-- Pinning a usage grows nothing. -/
theorem noGrowth_userChargePin (r : UserRegistry) (u : Uid) (c : UserCharge) (a : Uid) (slot : ℕ) :
    NoGrowth r.userTree (userChargePin r u c a slot).userTree := by
  unfold userChargePin
  split
  · exact noGrowth_userUsageRef _ _ _
  · exact noGrowth_userRefUsage r u a

/-- Settling a pin grows nothing. -/
theorem noGrowth_userChargeSettle (r : UserRegistry) (u : Uid) (c : UserCharge) (a : Uid) (slot : ℕ) :
    NoGrowth r.userTree (userChargeSettle r u c a slot).1.userTree := by
  unfold userChargeSettle
  split
  · exact noGrowth_userUsageUnref r _ _
  · exact NoGrowth.refl _

/-- What a set leaves, when one more actor takes a share that fits into it often enough. -/
theorem fair_of_share_fits {max others share j n : ℕ} (left : ℕ) (hmax : max = others + (share + left))
    (hothers : max + (j + 1) * others ≤ (j + 1) * max) (hfits : share * (j + 2) ≤ share + left)
    (hn : j + 1 ≤ n) : max + (n + 1) * (others + share) ≤ (n + 1) * max := by
  have hshare : (j + 1) * share ≤ left := by
    have hexpand : share * (j + 2) = (j + 1) * share + share := by ring
    omega
  have hbound : max ≤ (j + 1) * share + (j + 1) * left := by
    have hexpand : (j + 1) * max = (j + 1) * others + ((j + 1) * share + (j + 1) * left) := by
      rw [hmax]
      ring
    omega
  have hleft : max ≤ (n + 1) * left := by
    calc max ≤ left + (j + 1) * left := by omega
      _ = (j + 1 + 1) * left := by ring
      _ ≤ (n + 1) * left := Nat.mul_le_mul_right _ (by omega)
  calc max + (n + 1) * (others + share) ≤ (n + 1) * left + (n + 1) * (others + share) := by omega
    _ = (n + 1) * max := by
      rw [hmax]
      ring

/-- Actors with a share have a usage. -/
theorem card_le_size (user : User) (actors : Finset Uid)
    (h : ∀ b ∈ actors, (user.usageTree.find? b).isSome) : actors.card ≤ user.usageTree.size := by
  have hsub : actors ⊆ user.usageTree.keys.toFinset := by
    intro b hb
    rw [List.mem_toFinset, SearchTree.mem_keys_iff]
    exact Option.isSome_iff_exists.mp (h b hb)
  calc actors.card ≤ user.usageTree.keys.toFinset.card := Finset.card_le_card hsub
    _ ≤ user.usageTree.keys.length := List.toFinset_card_le _
    _ = user.usageTree.size := by rw [SearchTree.keys, List.length_map, SearchTree.size]

/-- The user after an amount moved to the share of an actor. -/
def User.booked (user : User) (a : Uid) (usage : UserUsage) (slot : ℕ) (amount : UInt32) : User :=
  { user with
    slots := Function.update user.slots slot { user.slots slot with n := (user.slots slot).n - amount }
    usageTree := user.usageTree.insert a
      { usage with slots := Function.update usage.slots slot (usage.slots slot + amount) } }

/-- Booking changes the share of the actor in the slot only. -/
theorem share_booked_of_ne (ha : user.usageTree.find? a = some usage) {slot s : ℕ} {amount : UInt32} {b : Uid}
    (h : b ≠ a ∨ s ≠ slot) : (user.booked a usage slot amount).share s b = user.share s b := by
  rw [User.share, User.booked]
  by_cases hb : b = a
  · have hs : s ≠ slot := h.resolve_left (not_not_intro hb)
    rw [hb, SearchTree.weightAt_insert_self, share_of_find? ha]
    simp only [Function.update_of_ne hs]
  · rw [SearchTree.weightAt_insert_of_ne _ _ hb]
    rfl

/-- An admitted charge leaves every set of foreign actors within its bound. -/
theorem User.Fair.booked {n : ℕ} {cs : List UserCharge} {slot : ℕ} {amount : UInt32} (hfair : user.Fair u)
    (hbooks : UserBooks n cs u user) (ha : user.usageTree.find? a = some usage)
    (hcover : amount ≤ (user.slots slot).n)
    (hallows : u ≠ a → ((usage.slots slot).toNat + amount.toNat) * (user.usageTree.size + 1) ≤
      (user.slots slot).n.toNat + (usage.slots slot).toNat) :
    (user.booked a usage slot amount).Fair u := by
  intro s actors hself
  have hmax : ((user.booked a usage slot amount).slots s).max = (user.slots s).max := by
    by_cases hs : s = slot
    · subst hs
      simp only [User.booked, Function.update_self]
    · simp only [User.booked, Function.update_of_ne hs]
  rw [hmax]
  by_cases hmove : a ∈ actors ∧ s = slot
  swap
  · -- neither the set nor the slot of the charge: nothing changes
    have hsum : ∑ b ∈ actors, (user.booked a usage slot amount).share s b = ∑ b ∈ actors, user.share s b := by
      refine Finset.sum_congr rfl fun b hb => share_booked_of_ne ha ?_
      by_contra hnot
      rw [not_or, not_not, not_not] at hnot
      exact hmove ⟨hnot.1 ▸ hb, hnot.2⟩
    rw [hsum]
    exact hfair s actors hself
  obtain ⟨hmem, rfl⟩ := hmove
  have hforeign : u ≠ a := fun heq => hself (heq ▸ hmem)
  -- the other actors of the set that hold anything at all
  let others := (actors.erase a).filter fun b => user.share s b ≠ 0
  have hsumOthers : ∑ b ∈ actors.erase a, user.share s b = ∑ b ∈ others, user.share s b :=
    (Finset.sum_filter_ne_zero _).symm
  have hnotin : a ∉ others := fun hin => (Finset.mem_erase.mp (Finset.mem_filter.mp hin).1).1 rfl
  have hselfOthers : u ∉ others := fun hin => hself (Finset.mem_erase.mp (Finset.mem_filter.mp hin).1).2
  have hcard : others.card + 1 ≤ user.usageTree.size := by
    rw [← Finset.card_insert_of_notMem hnotin]
    refine card_le_size user _ fun b hb => ?_
    rcases Finset.mem_insert.mp hb with rfl | hb
    · rw [ha]
      rfl
    · by_contra hnone
      rw [Option.not_isSome_iff_eq_none] at hnone
      exact (Finset.mem_filter.mp hb).2 (by rw [User.share, SearchTree.weightAt, hnone, Option.elim])
  have hcardActors : others.card + 1 ≤ actors.card := by
    rw [← Finset.card_erase_add_one hmem]
    exact Nat.succ_le_succ (Finset.card_filter_le _ _)
  have hsumNew : ∑ b ∈ actors, (user.booked a usage s amount).share s b =
      ∑ b ∈ others, user.share s b + ((usage.slots s).toNat + amount.toNat) := by
    rw [← Finset.sum_erase_add _ _ hmem, ← hsumOthers]
    congr 1
    · exact Finset.sum_congr rfl fun b hb =>
        share_booked_of_ne ha (Or.inl (Finset.mem_erase.mp hb).1)
    · have hbound := hbooks.share_le_max ha s
      have hlt := (user.slots s).max.toNat_lt
      have hle : amount.toNat ≤ (user.slots s).n.toNat := hcover
      rw [User.share, User.booked, SearchTree.weightAt_insert_self]
      simp only [Function.update_self]
      exact toNat_add_of_lt (by omega)
  have hpart : (usage.slots s).toNat + ∑ b ∈ others, user.share s b ≤
      user.usageTree.total fun _ x => (x.slots s).toNat := by
    have hle := user.usageTree.sum_weightAt_le_total (fun _ x => (x.slots s).toNat) (insert a others)
    rw [Finset.sum_insert hnotin] at hle
    rw [← share_of_find? ha s]
    exact hle
  have hbalance := hbooks.balance s
  have hallows' := hallows hforeign
  have hfits : ((usage.slots s).toNat + amount.toNat) * (others.card + 2) ≤
      (user.slots s).n.toNat + (usage.slots s).toNat :=
    (Nat.mul_le_mul_left _ (by omega)).trans hallows'
  have hshareLe : (usage.slots s).toNat + amount.toNat ≤ (user.slots s).n.toNat + (usage.slots s).toNat := by
    have hle : amount.toNat ≤ (user.slots s).n.toNat := hcover
    omega
  rw [hsumNew]
  refine fair_of_share_fits
    ((user.slots s).max.toNat - ∑ b ∈ others, user.share s b - ((usage.slots s).toNat + amount.toNat))
    (by omega) (hfair s others hselfOthers) (by omega) hcardActors

/-- Booking an admitted charge leaves every user fair. -/
theorem fair_userBook {n : ℕ} {cs : List UserCharge} {slot : ℕ} {amount : UInt32}
    (hfair : ∀ uid user, r.userTree.find? uid = some user → user.Fair uid) (hbooks : UserBooks n cs u user)
    (hu : r.userTree.find? u = some user) (ha : user.usageTree.find? a = some usage)
    (hrange : u ≠ a → (usage.slots slot).toNat + amount.toNat < 2 ^ 32 → user.nUsages.toNat + 1 < 2 ^ 32)
    (hallows : userChargeAdmits r u a slot amount = true) :
    ∀ uid user, (userBook r u a slot amount).userTree.find? uid = some user → user.Fair uid := by
  intro v x hx
  simp only [userBook, hu, ha, UserRegistry.setUser, UserRegistry.noteWrap] at hx
  by_cases hv : v = u
  · subst hv
    rw [SearchTree.find?_insert_self] at hx
    cases hx
    refine (hfair v user hu).booked hbooks ha
      (le_of_userChargeAdmits hu ha hrange hallows) fun hforeign => ?_
    rw [← hbooks.usages]
    simp only [userChargeAdmits, hu, ha, if_neg hforeign] at hallows
    exact userChargeCheck_success (hrange hforeign) (eq_of_beq hallows)
  · rw [SearchTree.find?_insert_of_ne _ hv] at hx
    exact hfair v x hx

/-- A charge leaves every user fair, whether it is admitted or not. -/
theorem fair_userCharge {held : Uid → ℕ} {cs : List UserCharge} {c : UserCharge} {slot : ℕ} {amount : UInt32}
    {target actor : Option Uid} (hfair : ∀ uid user, r.userTree.find? uid = some user → user.Fair uid)
    (h : Books r held (c :: cs)) (hready : ChargeReady r target c actor slot amount) :
    ∀ uid user, (userCharge r target c actor slot amount).1.userTree.find? uid = some user →
      user.Fair uid := by
  obtain ⟨-, htarget⟩ := hready
  unfold userCharge
  split
  · exact hfair
  next hamount =>
  cases target with
  | none => exact hfair
  | some u =>
    obtain ⟨hfits, user, hu, hrange⟩ := htarget u rfl
    replace hrange := hrange hamount
    simp only
    generalize actor.getD u = a at hfits hrange
    obtain ⟨hpin, user', usage', hu', ha', hsize, hshare⟩ :=
      h.after_userChargePin hfits hu (Nat.lt_of_le_of_lt (Nat.le_add_right _ _) hrange)
    have hfair' := (noGrowth_userChargePin r u c a slot).fair hfair
    have hforeign := lt_of_usersCounted hrange ((hpin.user u user' hu').usages.trans hsize) (hshare slot)
    split
    · next hallows =>
      exact (noGrowth_userChargeSettle _ u _ a slot).fair
        (fair_userBook hfair' (hpin.user u user' hu') hu' ha' hforeign hallows)
    · exact ((noGrowth_userChargeCommitLog _ u a slot).trans
        (noGrowth_userChargeSettle _ u c a slot)).fair hfair'

/-- Returning a charge grows no share. -/
theorem fair_userChargeDeinit {held : Uid → ℕ} {cs : List UserCharge} {c : UserCharge}
    (hfair : ∀ uid user, r.userTree.find? uid = some user → user.Fair uid) (h : Books r held (c :: cs)) :
    ∀ uid user, (userChargeDeinit r c).1.userTree.find? uid = some user → user.Fair uid := by
  unfold userChargeDeinit
  split
  · exact hfair
  · next u a hc =>
    refine NoGrowth.fair (NoGrowth.trans ?_ (noGrowth_userUsageUnref _ u a)) hfair
    obtain ⟨user, usage, hu, ha⟩ := h.exists_usage List.mem_cons_self hc
    have hshare := ((h.user u user hu).usage a usage ha).share c.slot
    rw [chargedOn_cons, if_pos ⟨hc, rfl⟩] at hshare
    have hle : c.charge ≤ usage.slots c.slot := UInt32.le_iff_toNat_le.mpr (by omega)
    simp only [userUnbook, hu, ha]
    refine noGrowth_insert hu fun s => ⟨?_, share_insert_le user a _ s ?_⟩
    · by_cases hs : s = c.slot
      · subst hs
        simp only [Function.update_self]
      · simp only [Function.update_of_ne hs]
    · rw [share_of_find? ha]
      by_cases hs : s = c.slot
      · subst hs
        simp only [Function.update_self, UInt32.toNat_sub_of_le _ _ hle]
        exact Nat.sub_le _ _
      · simp only [Function.update_of_ne hs]
        exact le_rfl

/-- The listed non-zero shares are those of a set of foreign actors. -/
theorem foreignShares_eq_sum (uid : Uid) (user : User) (s : ℕ) :
    ∃ actors : Finset Uid, uid ∉ actors ∧ (user.foreignShares uid s).length = actors.card ∧
      (user.foreignShares uid s).sum = ∑ a ∈ actors, user.share s a := by
  let entries := user.usageTree.entries.filter fun e => e.1 ≠ uid ∧ e.2.slots s ≠ 0
  have hnodup : (entries.map Prod.fst).Nodup :=
    user.usageTree.nodup_keys.sublist (List.filter_sublist.map Prod.fst)
  refine ⟨(entries.map Prod.fst).toFinset, fun hin => ?_, ?_, ?_⟩
  · obtain ⟨e, he, hkey⟩ := List.mem_map.mp (List.mem_toFinset.mp hin)
    have hcond := (List.mem_filter.mp he).2
    simp only [decide_eq_true_eq] at hcond
    exact hcond.1 hkey
  · rw [List.toFinset_card_of_nodup hnodup, User.foreignShares, List.length_map, List.length_map]
  · rw [List.sum_toFinset _ hnodup, User.foreignShares, List.map_map]
    congr 1
    refine List.map_congr_left fun e he => ?_
    have hfind := (user.usageTree.find?_eq_some_iff e.1 e.2).mpr (List.mem_filter.mp he).1
    exact (share_of_find? hfind s).symm

end Fairness

namespace Accounting

/-- For each user and slot, the foreign actors with a share leave the user its part: with `m` of
them, `m + 1` times what they leave of the maximum is at least the maximum. -/
def FairQuota (w : Accounting) : Prop :=
  ∀ uid user, w.registry.userTree.find? uid = some user → ∀ s,
    ((user.slots s).max.toNat : ℤ) ≤
      ((user.foreignShares uid s).length + 1) * ((user.slots s).max.toNat - (user.foreignShares uid s).sum)

/-- Fair sets of actors keep the quota fair. -/
theorem fairQuota_of_fair {w : Accounting}
    (h : ∀ uid user, w.registry.userTree.find? uid = some user → user.Fair uid) : w.FairQuota := by
  intro uid user hfind s
  obtain ⟨actors, hself, hlength, hsum⟩ := foreignShares_eq_sum uid user s
  have hfair := h uid user hfind s actors hself
  have hfairInt := Int.ofNat_le.mpr hfair
  rw [hlength, hsum, mul_sub]
  push_cast at hfairInt ⊢
  omega

/-- Every call that keeps the contract keeps the books and every user fair. -/
theorem fair_step (w : Accounting) (op : AccountingOp)
    (h : Balanced w ∧ ∀ uid user, w.registry.userTree.find? uid = some user → user.Fair uid)
    (hop : w.Allowed op ∧ w.Countable op) :
    Balanced (w.step op) ∧ ∀ uid user, (w.step op).registry.userTree.find? uid = some user → user.Fair uid := by
  obtain ⟨hbalanced, hfair⟩ := h
  refine ⟨balanced_step w op hbalanced hop, ?_⟩
  cases op with
  | refUser uid => exact (noGrowth_userRegistryRefUser w.registry uid).fair hfair
  | userRef uid => exact (noGrowth_userRef w.registry uid).fair hfair
  | userUnref uid => exact (noGrowth_userUnref w.registry uid).fair hfair
  | chargeInit id => exact hfair
  | charge id user actor slot amount =>
    obtain ⟨c, hc, hready⟩ := chargeReady hop.1 hop.2
    simp only [step, hc]
    exact fair_userCharge hfair (hbalanced.perm (w.charges.values_perm_of_find?_some hc)) hready
  | chargeDeinit id =>
    obtain ⟨c, hc⟩ := Option.isSome_iff_exists.mp hop.1
    simp only [step, hc]
    exact fair_userChargeDeinit hfair (hbalanced.perm (w.charges.values_perm_of_find?_some hc))

/-- In every run of the accounting with countable usages, the foreign actors of every user leave
it its part of every slot. -/
theorem fairQuota_run (hasLog : Bool) (nSlots : ℕ) (maxima : ℕ → UInt32) (ops : List AccountingOp)
    (h : Along step (fun w op => w.Allowed op ∧ w.Countable op) (init hasLog nSlots maxima) ops) :
    FairQuota (run step (init hasLog nSlots maxima) ops) := by
  refine fairQuota_of_fair (run_invariant fair_step ?_ h).2
  exact ⟨balanced_init hasLog nSlots maxima, fun uid user hfind => by simp [init] at hfind⟩

/-- A foreign actor takes its share, a second one less, and the first returns its share. -/
def shareAndReturn : List AccountingOp :=
  [.refUser 0, .refUser 1, .refUser 2, .chargeInit 7, .charge 7 (some 0) (some 1) 0 20, .chargeInit 8,
    .charge 8 (some 0) (some 2) 0 10, .chargeDeinit 7]

theorem fairQuota_run_shareAndReturn :
    Along step (fun w op => w.Allowed op ∧ w.Countable op) (init true 1 fun _ => 64) shareAndReturn ∧
      FairQuota (run step (init true 1 fun _ => 64) shareAndReturn) := by
  have hallowed : Along step (fun w op => w.Allowed op ∧ w.Countable op) (init true 1 fun _ => 64)
      shareAndReturn := by decide
  exact ⟨hallowed, fairQuota_run true 1 (fun _ => 64) shareAndReturn hallowed⟩

end Accounting

end DbusBroker
