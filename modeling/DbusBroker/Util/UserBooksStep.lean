import DbusBroker.Util.UserBooks

/-!
# The accounting operations keep the books

One lemma for each function of `util/user.c`: what it does to the books of a registry that
balance. A running charge holds a pin on the usage it works on, which is one more charge of
nothing until the pin is handed over or dropped.
-/

namespace DbusBroker

open Std

section Registry

variable {r : UserRegistry} {held : Uid → ℕ} {cs : List UserCharge}
variable {u a : Uid} {user : User} {usage : UserUsage}

/-- A new reference on a user is counted. -/
theorem Books.after_userRef (h : Books r held cs) (hu : r.userTree.find? u = some user) :
    Books (userRef r u) (Function.update held u (held u + 1)) cs := by
  have hbooks := h.user u user hu
  rw [userRef, hu]
  simp only [hbooks.live, decide_true, UserRegistry.check_true]
  refine h.setUser ?_ (fun v hv => Function.update_of_ne hv _ _) (fun v _ b => ⟨rfl, fun _ => rfl⟩) h.unused
  rw [Function.update_self]
  refine { hbooks with refs := ?_, live := ?_ }
  · simp only [hbooks.refs]
    omega
  · simp only
    omega

/-- A user without usages has its full balance back. -/
theorem UserBooks.full_of_size_eq_zero {n : ℕ} (h : UserBooks n cs u user) (hsize : user.usageTree.size = 0)
    (s : ℕ) : (user.slots s).n = (user.slots s).max := by
  have hnil : user.usageTree.entries = [] := List.eq_nil_of_length_eq_zero hsize
  have hbalance := h.balance s
  rw [SearchTree.total, hnil, List.map_nil, List.sum_nil, Nat.add_zero] at hbalance
  exact UInt32.toNat.inj hbalance

/-- A dropped reference on a user is uncounted; the last one finds nothing charged. -/
theorem Books.after_userUnref (h : Books r held cs) (hheld : 0 < held u) :
    Books (userUnref r u) (Function.update held u (held u - 1)) cs := by
  cases hu : r.userTree.find? u with
  | none => exact absurd (h.absent u hu).1 (Nat.pos_iff_ne_zero.mp hheld)
  | some user =>
    have hbooks := h.user u user hu
    have hrefs := hbooks.refs
    rw [userUnref, hu]
    simp only
    split
    · next hlast =>
      -- the last reference: no usage is left, so nothing is charged
      have hsize : user.usageTree.size = 0 := by omega
      have hempty : user.usageTree.entries = [] := List.eq_nil_of_length_eq_zero hsize
      have hcount : user.nUsages = 0 := UInt32.toNat.inj (hbooks.usages.trans hsize)
      have hassert : (user.usageTree.entries.isEmpty && user.nUsages == 0 &&
          (List.range r.nSlots).all fun i => (user.slots i).n == (user.slots i).max) = true := by
        simp [hempty, hcount, hbooks.full_of_size_eq_zero hsize]
      simp only [userFree, hassert, UserRegistry.check_true]
      have hnone : ∀ a, user.usageTree.find? a = none := by
        intro a
        rw [SearchTree.find?_eq_none_iff, hempty]
        exact fun _ => List.not_mem_nil
      constructor
      · intro v x hx
        by_cases hv : v = u
        · rw [hv, SearchTree.find?_erase_self] at hx
          cases hx
        · rw [SearchTree.find?_erase_of_ne _ hv] at hx
          rw [Function.update_of_ne hv]
          exact h.user v x hx
      · intro v hx
        by_cases hv : v = u
        · subst hv
          rw [Function.update_self]
          exact ⟨by omega, fun a => hbooks.idle a (hnone a)⟩
        · rw [SearchTree.find?_erase_of_ne _ hv] at hx
          rw [Function.update_of_ne hv]
          exact h.absent v hx
      · exact h.unused
      · exact h.inRange
      · exact h.asserted
    · next hmore =>
      simp only [hbooks.live, decide_true, UserRegistry.check_true]
      refine h.setUser ?_ (fun v hv => Function.update_of_ne hv _ _) (fun v _ b => ⟨rfl, fun _ => rfl⟩)
        h.unused
      have hlive := hbooks.live
      rw [Function.update_self]
      refine { hbooks with refs := ?_, live := ?_ }
      · simp only
        omega
      · simp only
        omega

/-- Looking up a user counts the reference that is handed out. -/
theorem Books.after_userRegistryRefUser (h : Books r held cs) (u : Uid) :
    Books (userRegistryRefUser r u) (Function.update held u (held u + 1)) cs := by
  rw [userRegistryRefUser]
  cases hu : r.userTree.find? u with
  | some user => exact h.after_userRef hu
  | none =>
    obtain ⟨hheld, hidle⟩ := h.absent u hu
    refine h.setUser ?_ (fun v hv => Function.update_of_ne hv _ _) (fun v _ b => ⟨rfl, fun _ => rfl⟩) h.unused
    rw [Function.update_self, hheld]
    exact
      { refs := rfl
        live := Nat.one_pos
        usages := rfl
        balance := fun s => rfl
        usage := fun a x hx => by simp [userNew] at hx
        idle := fun a _ => hidle a }

/-- The pin that a running charge holds on a usage, seen as one more charge of nothing. -/
def UserCharge.pin (user actor : Uid) (slot : ℕ) : UserCharge := ⟨some (user, actor), slot, 0⟩

/-- A pin adds a reference and no amount. -/
theorem UsageBooks.pin (h : UsageBooks cs u a usage) (s : ℕ) :
    UsageBooks (UserCharge.pin u a s :: cs) u a { usage with nRefs := usage.nRefs + 1 } where
  refs := by rw [refsOn_cons, if_pos (by rfl), ← h.refs]
  live := Nat.succ_pos _
  share := by
    intro s
    rw [chargedOn_cons, ← h.share s]
    simp [UserCharge.pin]

/-- A pin is not an empty charge object. -/
theorem unused_cons {c : UserCharge} (hc : c.usage ≠ none)
    (h : ∀ d ∈ cs, d.usage = none → d.charge = 0) : ∀ d ∈ c :: cs, d.usage = none → d.charge = 0 := by
  intro d hd hnone
  rcases List.mem_cons.mp hd with rfl | hd
  · exact absurd hnone hc
  · exact h d hd hnone

/-- Referencing a usage pins it. -/
theorem Books.after_userUsageRef (h : Books r held cs) (hu : r.userTree.find? u = some user)
    (ha : user.usageTree.find? a = some usage) (s : ℕ) :
    Books (userUsageRef r u a) held (UserCharge.pin u a s :: cs) := by
  have hbooks := (h.user u user hu).usage a usage ha
  rw [userUsageRef, hu]
  simp only [ha, hbooks.live, decide_true, UserRegistry.check_true]
  refine h.setUsage hu ha (hbooks.pin s) user.slots (fun _ => rfl) (fun _ => rfl) (fun v b hne => ?_)
    (unused_cons (by simp [UserCharge.pin]) h.unused)
  exact sameCharges_cons fun heq => hne (Option.some.inj heq).symm

/-- Finding or creating the usage of an actor pins it, as long as usages can be counted. -/
theorem Books.after_userRefUsage (h : Books r held cs) (hu : r.userTree.find? u = some user)
    (hroom : user.usageTree.find? a = none → user.usageTree.size + 1 < 2 ^ 32) (s : ℕ) :
    Books (userRefUsage r u a) held (UserCharge.pin u a s :: cs) := by
  have hbooks := h.user u user hu
  rw [userRefUsage, hu]
  simp only
  cases ha : user.usageTree.find? a with
  | some usage => exact h.after_userUsageRef hu ha s
  | none =>
    have hsize := hroom ha
    have hcount := hbooks.usages
    have hwrap : addWraps user.nUsages 1 = false := by
      simp only [addWraps, UInt32.reduceToNat, decide_eq_false_iff_not]
      omega
    simp only [hwrap, UserRegistry.noteWrap_false]
    refine h.setUser ?_ (fun _ _ => rfl) (fun v hv b => sameCharges_cons fun heq => ?_)
      (unused_cons (by simp [UserCharge.pin]) h.unused)
    swap
    · exact hv (Prod.mk.inj (Option.some.inj heq)).1.symm
    have hinsert := user.usageTree.size_insert_of_find?_none ha userUsageNew
    have hidle := hbooks.idle a ha
    constructor
    · simp only [hbooks.refs, hinsert]
      omega
    · simp only
      omega
    · simp only [UInt32.toNat_add, UInt32.reduceToNat, hinsert, hcount]
      omega
    · intro s
      simp only [SearchTree.total_insert_of_find?_none _ _ ha]
      exact hbooks.balance s
    · intro b x hx
      by_cases hb : b = a
      · subst hb
        simp only [SearchTree.find?_insert_self, Option.some.injEq] at hx
        subst hx
        refine ⟨?_, Nat.one_pos, fun s => ?_⟩
        · rw [refsOn_cons, hidle, if_pos (by rfl)]
          rfl
        · rw [chargedOn_cons, chargedOn_eq_zero hidle]
          simp [UserCharge.pin, userUsageNew]
      · simp only [SearchTree.find?_insert_of_ne _ hb] at hx
        exact (hbooks.usage b x hx).congr
          (sameCharges_cons fun heq => hb (Prod.mk.inj (Option.some.inj heq)).2.symm)
    · intro b hx
      by_cases hb : b = a
      · subst hb
        simp only [SearchTree.find?_insert_self] at hx
        cases hx
      · simp only [SearchTree.find?_insert_of_ne _ hb] at hx
        have hother : (UserCharge.pin u a s).usage ≠ some (u, b) :=
          fun heq => hb (Prod.mk.inj (Option.some.inj heq)).2.symm
        rw [refsOn_cons, hbooks.idle b hx, if_neg hother]

/-- Moving an amount between a balance, the share and the charge of an actor keeps the books. -/
theorem Books.rebook {c : UserCharge} {n share charge : UInt32} (h : Books r held (c :: cs))
    (hc : c.usage = some (u, a)) (hu : r.userTree.find? u = some user)
    (ha : user.usageTree.find? a = some usage)
    (hbalance : n.toNat + share.toNat = (user.slots c.slot).n.toNat + (usage.slots c.slot).toNat)
    (hshare : share.toNat + c.charge.toNat = (usage.slots c.slot).toNat + charge.toNat) :
    Books
      (r.setUser u
        { user with
          slots := Function.update user.slots c.slot { user.slots c.slot with n := n }
          usageTree := user.usageTree.insert a
            { usage with slots := Function.update usage.slots c.slot share } })
      held ({ c with charge := charge } :: cs) := by
  have husage := (h.user u user hu).usage a usage ha
  have hunused : ∀ d ∈ { c with charge := charge } :: cs, d.usage = none → d.charge = 0 :=
    unused_cons (by simp [hc]) fun d hd => h.unused d (List.mem_cons_of_mem c hd)
  have hnew : UsageBooks ({ c with charge := charge } :: cs) u a
      { usage with slots := Function.update usage.slots c.slot share } := by
    refine ⟨?_, husage.live, fun s => ?_⟩
    · rw [husage.refs, refsOn_cons, refsOn_cons]
    · have hold := husage.share s
      rw [chargedOn_cons] at hold ⊢
      by_cases hslot : s = c.slot
      · subst hslot
        simp only [Function.update_self, hc, and_self, if_true] at hold ⊢
        omega
      · have hmiss : ¬(c.usage = some (u, a) ∧ c.slot = s) := fun hboth => hslot hboth.2.symm
        rw [if_neg hmiss] at hold
        simp only [Function.update_of_ne hslot, if_neg hmiss]
        exact hold
  refine h.setUsage hu ha hnew _ (fun s => ?_) (fun s => ?_) (fun v b hne => ?_) hunused
  · by_cases hslot : s = c.slot
    · subst hslot
      simp only [Function.update_self]
      exact hbalance
    · simp only [Function.update_of_ne hslot]
  · by_cases hslot : s = c.slot
    · subst hslot
      simp only [Function.update_self]
    · simp only [Function.update_of_ne hslot]
  · have hother : c.usage ≠ some (v, b) := fun heq => hne (Option.some.inj (heq.symm.trans hc))
    exact sameCharges_replace hother hother

/-- Booking an amount that the balance covers moves it to the share and the charge. -/
theorem Books.after_userBook {c : UserCharge} {amount : UInt32} (h : Books r held (c :: cs))
    (hc : c.usage = some (u, a)) (hu : r.userTree.find? u = some user)
    (ha : user.usageTree.find? a = some usage) (hamount : amount ≤ (user.slots c.slot).n) :
    Books (userBook r u a c.slot amount) held ({ c with charge := c.charge + amount } :: cs) ∧
      addWraps c.charge amount = false := by
  have hmax := (h.user u user hu).share_le_max ha c.slot
  have hlt := (user.slots c.slot).max.toNat_lt
  have hshare := ((h.user u user hu).usage a usage ha).share c.slot
  rw [chargedOn_cons, if_pos ⟨hc, rfl⟩] at hshare
  have hle : amount.toNat ≤ (user.slots c.slot).n.toNat := hamount
  have hn : ((user.slots c.slot).n - amount).toNat = (user.slots c.slot).n.toNat - amount.toNat :=
    UInt32.toNat_sub_of_le _ _ hamount
  have hs : (usage.slots c.slot + amount).toNat = (usage.slots c.slot).toNat + amount.toNat :=
    toNat_add_of_lt (by omega)
  have hcharge : (c.charge + amount).toNat = c.charge.toNat + amount.toNat :=
    toNat_add_of_lt (by omega)
  have hsub : subWraps (user.slots c.slot).n amount = false := decide_eq_false (by omega)
  have hadd : addWraps (usage.slots c.slot) amount = false := decide_eq_false (by omega)
  have haddc : addWraps c.charge amount = false := decide_eq_false (by omega)
  refine ⟨?_, haddc⟩
  rw [userBook, hu]
  simp only [ha, hsub, hadd, UserRegistry.noteWrap_false]
  exact h.rebook hc hu ha (by omega) (by omega)

/-- Returning a charge gives its amount back to the balance. -/
theorem Books.after_userUnbook {c : UserCharge} (h : Books r held (c :: cs)) (hc : c.usage = some (u, a)) :
    Books (userUnbook r u a c.slot c.charge) held ({ c with charge := 0 } :: cs) := by
  obtain ⟨user, usage, hu, ha⟩ := h.exists_usage List.mem_cons_self hc
  have hmax := (h.user u user hu).share_le_max ha c.slot
  have hlt := (user.slots c.slot).max.toNat_lt
  have hshare := ((h.user u user hu).usage a usage ha).share c.slot
  rw [chargedOn_cons, if_pos ⟨hc, rfl⟩] at hshare
  have hle : c.charge ≤ usage.slots c.slot := UInt32.le_iff_toNat_le.mpr (by omega)
  have hs : (usage.slots c.slot - c.charge).toNat = (usage.slots c.slot).toNat - c.charge.toNat :=
    UInt32.toNat_sub_of_le _ _ hle
  have hn : ((user.slots c.slot).n + c.charge).toNat = (user.slots c.slot).n.toNat + c.charge.toNat :=
    toNat_add_of_lt (by omega)
  have hzero : (0 : UInt32).toNat = 0 := rfl
  have hsub : subWraps (usage.slots c.slot) c.charge = false := decide_eq_false (by omega)
  have hadd : addWraps (user.slots c.slot).n c.charge = false := decide_eq_false (by omega)
  rw [userUnbook, hu]
  simp only [ha, hsub, hadd, UserRegistry.noteWrap_false]
  exact h.rebook hc hu ha (by omega) (by omega)

/-- Dropping a pin that holds nothing; the last one finds an empty usage. -/
theorem Books.after_userUsageUnref {c : UserCharge} (h : Books r held (c :: cs)) (hc : c.usage = some (u, a))
    (hzero : c.charge = 0) : Books (userUsageUnref r u a) held cs := by
  obtain ⟨user, usage, hu, ha⟩ := h.exists_usage List.mem_cons_self hc
  have hbooks := h.user u user hu
  have husage := hbooks.usage a usage ha
  have hrefs := husage.refs
  rw [refsOn_cons, if_pos hc] at hrefs
  have hshare : ∀ s, (usage.slots s).toNat = chargedOn cs u a s := by
    intro s
    rw [husage.share s, chargedOn_cons, hzero]
    simp
  have hunused : ∀ d ∈ cs, d.usage = none → d.charge = 0 :=
    fun d hd => h.unused d (List.mem_cons_of_mem c hd)
  have hother : ∀ v b, (v, b) ≠ (u, a) → SameCharges (c :: cs) cs v b := by
    intro v b hne
    have hsame : SameCharges cs (c :: cs) v b :=
      sameCharges_cons fun heq => hne (Option.some.inj (heq.symm.trans hc))
    exact ⟨hsame.1.symm, fun s => (hsame.2 s).symm⟩
  rw [userUsageUnref, hu]
  simp only [ha]
  split
  · next hlast =>
    have hidle : refsOn cs u a = 0 := by omega
    have hempty : ∀ s, usage.slots s = 0 :=
      fun s => UInt32.toNat.inj ((hshare s).trans (chargedOn_eq_zero hidle s))
    have hsize := user.usageTree.size_erase_of_find?_some ha
    have hcount := hbooks.usages
    have hwrap : subWraps user.nUsages 1 = false := by
      simp only [subWraps, UInt32.reduceToNat, decide_eq_false_iff_not]
      omega
    have hassert : ((List.range r.nSlots).all fun i => usage.slots i == 0) = true := by simp [hempty]
    simp only [userUsageFree, hassert, hwrap, UserRegistry.check_true, UserRegistry.noteWrap_false]
    -- without its usage the user has one reference too many, until it is dropped
    have hmid : Books
        (r.setUser u { user with usageTree := user.usageTree.erase a, nUsages := user.nUsages - 1 })
        (Function.update held u (held u + 1)) cs := by
      refine h.setUser ?_ (fun v hv => Function.update_of_ne hv _ _)
        (fun v hv b => hother v b fun heq => hv (Prod.mk.inj heq).1) hunused
      rw [Function.update_self]
      constructor
      · simp only [hbooks.refs]
        omega
      · exact hbooks.live
      · have hle : (1 : UInt32) ≤ user.nUsages := UInt32.le_iff_toNat_le.mpr (by
          simp only [UInt32.reduceToNat]
          omega)
        simp only [UInt32.toNat_sub_of_le _ _ hle, UInt32.reduceToNat]
        omega
      · intro s
        have htotal := SearchTree.total_erase_of_find?_some
          (fun _ (x : UserUsage) => (x.slots s).toNat) user.usageTree ha
        have hbalance := hbooks.balance s
        simp only [hempty s, UInt32.reduceToNat] at htotal ⊢
        omega
      · intro b x hx
        by_cases hb : b = a
        · simp only [hb, SearchTree.find?_erase_self] at hx
          cases hx
        · simp only [SearchTree.find?_erase_of_ne _ hb] at hx
          exact (hbooks.usage b x hx).congr (hother u b fun heq => hb (Prod.mk.inj heq).2)
      · intro b hx
        by_cases hb : b = a
        · rw [hb]
          exact hidle
        · simp only [SearchTree.find?_erase_of_ne _ hb] at hx
          exact (hother u b fun heq => hb (Prod.mk.inj heq).2).1.trans (hbooks.idle b hx)
    have hfinal := hmid.after_userUnref (by rw [Function.update_self]; omega : 0 < Function.update held u _ u)
    rwa [Function.update_self, Nat.add_sub_cancel, Function.update_idem, Function.update_eq_self] at hfinal
  · next hmore =>
    simp only [husage.live, decide_true, UserRegistry.check_true]
    have hlive := husage.live
    have hnew : UsageBooks cs u a { usage with nRefs := usage.nRefs - 1 } := by
      refine ⟨?_, ?_, hshare⟩
      · simp only
        omega
      · simp only
        omega
    exact h.setUsage hu ha hnew user.slots (fun _ => rfl) (fun _ => rfl) hother hunused

/-- The number of usages of a user once an actor has one. -/
def usagesWith (user : User) (actor : Uid) : ℕ :=
  if (user.usageTree.find? actor).isSome then user.usageTree.size else user.usageTree.size + 1

/-- The share of an actor in a slot of a user, zero without a usage. -/
def User.share (user : User) (slot : ℕ) (actor : Uid) : ℕ :=
  user.usageTree.weightAt (fun _ x => (x.slots slot).toNat) actor

/-- The share of a present usage. -/
theorem share_of_find? (ha : user.usageTree.find? a = some usage) (s : ℕ) :
    user.share s a = (usage.slots s).toNat := by
  rw [User.share, SearchTree.weightAt, ha, Option.elim]

/-- A charge object that is in use is charged for the same user, actor and slot again. -/
def UserCharge.Fits (c : UserCharge) (user actor : Uid) (slot : ℕ) : Prop :=
  ∀ p ∈ c.usage, p = (user, actor) ∧ slot = c.slot

instance (c : UserCharge) (user actor : Uid) (slot : ℕ) : Decidable (c.Fits user actor slot) :=
  (Option.decidableForallMem c.usage : Decidable (∀ p ∈ c.usage, p = (user, actor) ∧ slot = c.slot))

/-- Pinning the usage of a charge finds it with its share, among as many usages as there are with the actor. -/
theorem Books.after_userChargePin {c : UserCharge} {slot : ℕ} (h : Books r held (c :: cs)) (hfits : c.Fits u a slot)
    (hu : r.userTree.find? u = some user) (hroom : usagesWith user a < 2 ^ 32) :
    Books (userChargePin r u c a slot) held (UserCharge.pin u a slot :: c :: cs) ∧
      ∃ user' usage', (userChargePin r u c a slot).userTree.find? u = some user' ∧
        user'.usageTree.find? a = some usage' ∧ user'.usageTree.size = usagesWith user a ∧
          ∀ s, (usage'.slots s).toNat = user.share s a := by
  have hfind : ∀ usage, user.usageTree.find? a = some usage →
      ∃ user' usage', (userUsageRef r u a).userTree.find? u = some user' ∧
        user'.usageTree.find? a = some usage' ∧ user'.usageTree.size = usagesWith user a ∧
          ∀ s, (usage'.slots s).toNat = user.share s a := by
    intro usage ha
    rw [userUsageRef, hu]
    simp only [ha]
    refine ⟨_, _, SearchTree.find?_insert_self _ u _, SearchTree.find?_insert_self _ a _, ?_,
      fun s => (share_of_find? ha s).symm⟩
    rw [usagesWith, ha, if_pos Option.isSome_some]
    exact user.usageTree.size_insert_of_find?_some ha _
  cases hc : c.usage with
  | some p =>
    obtain ⟨rfl, hslot⟩ := hfits p hc
    obtain ⟨user₀, usage, hu₀, ha⟩ := h.exists_usage List.mem_cons_self hc
    cases hu.symm.trans hu₀
    simp only [userChargePin, hc, hslot, beq_self_eq_true, Bool.and_self,
      UserRegistry.check_true]
    exact ⟨h.after_userUsageRef hu ha c.slot, hfind usage ha⟩
  | none =>
    simp only [userChargePin, hc]
    refine ⟨h.after_userRefUsage hu (fun ha => ?_) slot, ?_⟩
    · rwa [usagesWith, ha, if_neg (by simp)] at hroom
    · rw [userRefUsage, hu]
      simp only
      cases ha : user.usageTree.find? a with
      | some usage => exact hfind usage ha
      | none =>
        refine ⟨_, userUsageNew, SearchTree.find?_insert_self _ u _, SearchTree.find?_insert_self _ a _, ?_, fun s => ?_⟩
        · rw [usagesWith, ha, if_neg (by simp)]
          exact user.usageTree.size_insert_of_find?_none ha _
        · rw [User.share, SearchTree.weightAt, ha]
          rfl

/-- An admitted charge of a foreign actor, times one more than the number of usages, is covered. -/
theorem userChargeCheck_success {remaining users share charge : UInt32}
    (husers : share.toNat + charge.toNat < 2 ^ 32 → users.toNat + 1 < 2 ^ 32)
    (h : userChargeCheck remaining users share charge = .success) :
    (share.toNat + charge.toNat) * (users.toNat + 1) ≤ remaining.toNat + share.toNat := by
  rw [userChargeCheck] at h
  split at h
  · next limit hlimit =>
    obtain ⟨sum, hsum, hrest⟩ := Option.bind_eq_some_iff.mp hlimit
    obtain ⟨product, hproduct, hdiff⟩ := Option.bind_eq_some_iff.mp hrest
    rw [addOverflow, Option.ite_none_right_eq_some] at hsum
    rw [mulOverflow, Option.ite_none_right_eq_some] at hproduct
    rw [subOverflow, Option.ite_none_right_eq_some] at hdiff
    obtain ⟨hlt, hsum⟩ := hsum
    obtain ⟨hmul, hproduct⟩ := hproduct
    obtain ⟨hle, hdiff⟩ := hdiff
    have hfactor : (users + 1).toNat = users.toNat + 1 := toNat_add_of_lt (husers hlt)
    have hremaining : limit.toNat ≤ remaining.toNat := by
      by_contra hnot
      rw [if_neg fun hin => hnot (UInt32.le_iff_toNat_le.mp hin)] at h
      cases h
    have hsumNat : sum.toNat = share.toNat + charge.toNat := by
      rw [← Option.some.inj hsum]
      exact toNat_add_of_lt hlt
    have hproductNat : product.toNat = sum.toNat * (users.toNat + 1) := by
      rw [← Option.some.inj hproduct, UInt32.toNat_mul, Nat.mod_eq_of_lt hmul, hfactor]
    have hlimitNat : limit.toNat = product.toNat - share.toNat := by
      rw [← Option.some.inj hdiff]
      exact UInt32.toNat_sub_of_le _ _ (UInt32.le_iff_toNat_le.mpr hle)
    rw [← hsumNat, ← hproductNat]
    omega
  · cases h

/-- A charge of a foreign actor that is covered passes every overflow test and is admitted. -/
theorem userChargeCheck_of_covered {remaining users share charge : UInt32} (husers : users.toNat + 1 < 2 ^ 32)
    (hroom : remaining.toNat + share.toNat < 2 ^ 32)
    (h : (share.toNat + charge.toNat) * (users.toNat + 1) ≤ remaining.toNat + share.toNat) :
    userChargeCheck remaining users share charge = .success := by
  have hfactor : (users + 1).toNat = users.toNat + 1 := toNat_add_of_lt husers
  -- Each intermediate word is below the product, which is below the covered range.
  have hgrow : share.toNat + charge.toNat ≤ (share.toNat + charge.toNat) * (users.toNat + 1) :=
    Nat.le_mul_of_pos_right _ (Nat.succ_pos _)
  have hlt : share.toNat + charge.toNat < 2 ^ 32 := by omega
  have hsum : (share + charge).toNat = share.toNat + charge.toNat := toNat_add_of_lt hlt
  have hmul : (share + charge).toNat * (users + 1).toNat < 2 ^ 32 := by
    rw [hsum, hfactor]
    omega
  have hproduct : ((share + charge) * (users + 1)).toNat =
      (share.toNat + charge.toNat) * (users.toNat + 1) := by
    rw [UInt32.toNat_mul, Nat.mod_eq_of_lt hmul, hsum, hfactor]
  have hle : share.toNat ≤ ((share + charge) * (users + 1)).toNat := by omega
  have hdiff : ((share + charge) * (users + 1) - share).toNat =
      (share.toNat + charge.toNat) * (users.toNat + 1) - share.toNat := by
    rw [UInt32.toNat_sub_of_le _ _ (UInt32.le_iff_toNat_le.mpr hle), hproduct]
  have hlimit : (share + charge) * (users + 1) - share ≤ remaining := by
    rw [UInt32.le_iff_toNat_le, hdiff]
    omega
  rw [userChargeCheck, addOverflow, if_pos hlt, Option.bind_some, mulOverflow, if_pos hmul,
    Option.bind_some, subOverflow, if_pos hle]
  exact if_pos hlimit

/-- The check with overflow-tested words decides the inequality over the naturals, and what it
admits is left in the balance. -/
theorem userChargeCheck_exact (remaining users share charge : UInt32)
    (hroom : remaining.toNat + share.toNat ≤ 2 ^ 32 - 1) (husers : users.toNat < 2 ^ 32 - 1) :
    (userChargeCheck remaining users share charge = .success ↔
      (users.toNat + 1) * (share.toNat + charge.toNat) ≤ remaining.toNat + share.toNat) ∧
    (userChargeCheck remaining users share charge = .success → charge.toNat ≤ remaining.toNat) := by
  have hcovered : userChargeCheck remaining users share charge = .success ↔
      (users.toNat + 1) * (share.toNat + charge.toNat) ≤ remaining.toNat + share.toNat := by
    rw [Nat.mul_comm]
    exact ⟨userChargeCheck_success (by omega), userChargeCheck_of_covered (by omega) (by omega)⟩
  refine ⟨hcovered, fun h => ?_⟩
  have hgrow : share.toNat + charge.toNat ≤ (users.toNat + 1) * (share.toNat + charge.toNat) :=
    Nat.le_mul_of_pos_left _ (Nat.succ_pos _)
  have hle := hcovered.mp h
  omega

/-- The first of two actors gets exactly half of a balance of 1024. -/
theorem userChargeCheck_exact_half :
    (userChargeCheck 1024 1 0 512 = .success ↔ (1 + 1) * (0 + 512) ≤ 1024 + 0) ∧
    (userChargeCheck 1024 1 0 512 = .success → 512 ≤ 1024) :=
  userChargeCheck_exact 1024 1 0 512 (by decide) (by decide)

/-- Pinning a usage keeps the number of slots. -/
theorem userChargePin_nSlots (r : UserRegistry) (u : Uid) (c : UserCharge) (a : Uid) (slot : ℕ) :
    (userChargePin r u c a slot).nSlots = r.nSlots := by
  have href : ∀ (r : UserRegistry) (u a : Uid), (userUsageRef r u a).nSlots = r.nSlots := by
    intro r u a
    unfold userUsageRef
    split
    · rfl
    · split <;> rfl
  unfold userChargePin
  split
  · exact href _ _ _
  · unfold userRefUsage
    split
    · rfl
    · split
      · rfl
      · exact href _ _ _

/-- Reporting an exceeded quota changes the log flag only. -/
theorem Books.after_userChargeCommitLog {slot : ℕ} (h : Books r held cs) (hslot : slot < r.nSlots)
    (hu : r.userTree.find? u = some user) (ha : user.usageTree.find? a = some usage) :
    Books (userChargeCommitLog r u a slot) held cs := by
  have husage := (h.user u user hu).usage a usage ha
  rw [userChargeCommitLog, hu]
  simp only [ha, hslot, decide_true, UserRegistry.check_true]
  split
  · exact h
  · have hnew : UsageBooks cs u a { usage with logged := true } := ⟨husage.refs, husage.live, husage.share⟩
    exact h.setUsage hu ha hnew user.slots (fun _ => rfl) (fun _ => rfl) (fun _ _ _ => ⟨rfl, fun _ => rfl⟩)
      h.unused

/-- The pin becomes the reference of an unused charge object, or is dropped. -/
theorem Books.after_userChargeSettle {c : UserCharge} {slot : ℕ} (pinned charged : UInt32) (hfits : c.Fits u a slot)
    (hused : c.usage ≠ none → Books r held (UserCharge.pin u a slot :: { c with charge := charged } :: cs))
    (hnew : c.usage = none → Books r held ({ UserCharge.pin u a slot with charge := pinned } :: cs) ∧
      charged = pinned) :
    Books (userChargeSettle r u { c with charge := charged } a slot).1 held
      ((userChargeSettle r u { c with charge := charged } a slot).2 :: cs) := by
  cases hc : c.usage with
  | some p =>
    obtain ⟨rfl, -⟩ := hfits p hc
    have hbooks := hused (by simp [hc])
    simp only [userChargeSettle, hc] at hbooks ⊢
    exact hbooks.after_userUsageUnref rfl rfl
  | none =>
    obtain ⟨hbooks, rfl⟩ := hnew hc
    rw [userChargeSettle]
    exact hbooks

/-- What an admitted charge takes is covered by the balance. -/
theorem le_of_userChargeAdmits {slot : ℕ} {amount : UInt32} (hu : r.userTree.find? u = some user)
    (ha : user.usageTree.find? a = some usage)
    (hrange : u ≠ a → (usage.slots slot).toNat + amount.toNat < 2 ^ 32 → user.nUsages.toNat + 1 < 2 ^ 32)
    (h : userChargeAdmits r u a slot amount = true) : amount ≤ (user.slots slot).n := by
  simp only [userChargeAdmits, hu, ha] at h
  split at h
  · exact of_decide_eq_true h
  · next hforeign =>
    have hcheck := userChargeCheck_success (hrange hforeign) (eq_of_beq h)
    rw [UInt32.le_iff_toNat_le]
    have hgrow : ((usage.slots slot).toNat + amount.toNat) * 1 ≤
        ((usage.slots slot).toNat + amount.toNat) * (user.nUsages.toNat + 1) :=
      Nat.mul_le_mul_left _ (Nat.le_add_left 1 _)
    omega

/-- The number that a charge counts the users of a user up to: the usages with that of the actor, and one more where
the quota of a foreign actor is computed from them. -/
def usersCounted (user : User) (u a : Uid) (slot : ℕ) (amount : UInt32) : ℕ :=
  usagesWith user a + if u = a ∨ 2 ^ 32 ≤ user.share slot a + amount.toNat then 0 else 1

/-- A charge is called as its contract says, and the usages it computes with can be counted. -/
def ChargeReady (r : UserRegistry) (target : Option Uid) (c : UserCharge) (actor : Option Uid) (slot : ℕ)
    (amount : UInt32) : Prop :=
  slot < r.nSlots ∧
    ∀ u ∈ target, c.Fits u (actor.getD u) slot ∧ ∃ user, r.userTree.find? u = some user ∧
      (amount ≠ 0 → usersCounted user u (actor.getD u) slot amount < 2 ^ 32)

/-- The usages of a user that are counted up to one more when the quota of a foreign actor is computed. -/
theorem lt_of_usersCounted {slot : ℕ} {amount : UInt32} {user' : User} {usage' : UserUsage}
    (hrange : usersCounted user u a slot amount < 2 ^ 32) (hcount : user'.nUsages.toNat = usagesWith user a)
    (hshare : (usage'.slots slot).toNat = user.share slot a) :
    u ≠ a → (usage'.slots slot).toNat + amount.toNat < 2 ^ 32 → user'.nUsages.toNat + 1 < 2 ^ 32 := by
  intro hne hlt
  rw [hshare] at hlt
  rw [usersCounted, if_neg (not_or.mpr ⟨hne, Nat.not_le.mpr hlt⟩)] at hrange
  rw [hcount]
  exact hrange

/-- A charge keeps the books, whether it is admitted or not, as long as usages can be counted. -/
theorem Books.after_userCharge {c : UserCharge} {slot : ℕ} {amount : UInt32} {target actor : Option Uid}
    (h : Books r held (c :: cs)) (hready : ChargeReady r target c actor slot amount) :
    Books (userCharge r target c actor slot amount).1 held
      ((userCharge r target c actor slot amount).2.1 :: cs) := by
  obtain ⟨hslot, htarget⟩ := hready
  unfold userCharge
  split
  · exact h
  next hamount =>
  cases target with
  | none => exact h
  | some u =>
    obtain ⟨hfits, user, hu, hrange⟩ := htarget u rfl
    replace hrange := hrange hamount
    simp only
    generalize actor.getD u = a at hfits hrange
    obtain ⟨hpin, user', usage', hu', ha', hsize, hshare⟩ :=
      h.after_userChargePin hfits hu (Nat.lt_of_le_of_lt (Nat.le_add_right _ _) hrange)
    have hnSlots := userChargePin_nSlots r u c a slot
    generalize userChargePin r u c a slot = r' at hpin hu' hnSlots
    have hforeign := lt_of_usersCounted hrange ((hpin.user u user' hu').usages.trans hsize) (hshare slot)
    have hslot' : slot < r'.nSlots := hnSlots ▸ hslot
    have hwraps : userChargeCheckWraps r' u a slot amount = false := by
      simp only [userChargeCheckWraps, hu', ha', Bool.and_eq_false_imp, Bool.and_eq_true, bne_iff_ne]
      rintro ⟨hne, hsum⟩
      rw [addOverflow, Option.isSome_ite] at hsum
      exact decide_eq_false (Nat.not_le.mpr (hforeign hne hsum))
    have hzero : c.usage = none → c.charge = 0 := h.unused c List.mem_cons_self
    simp only [hslot', decide_true, UserRegistry.check_true, hwraps, UserRegistry.noteWrap_false]
    split
    · next hallows =>
      have hle := le_of_userChargeAdmits hu' ha' hforeign hallows
      by_cases hc : c.usage = none
      · obtain ⟨hbook, hwrap⟩ :=
          ((hpin.perm (List.Perm.swap _ _ _)).of_cons_unused hc).after_userBook (c := UserCharge.pin u a slot)
            rfl hu' ha' hle
        have hcharge := hzero hc
        have hwrap' : addWraps c.charge amount = false := by
          rw [hcharge]
          exact hwrap
        simp only [hwrap', UserRegistry.noteWrap_false]
        refine Books.after_userChargeSettle (0 + amount) _ hfits (fun hsome => absurd hc hsome) fun _ => ?_
        exact ⟨hbook, by rw [hcharge]⟩
      · -- a used object: its own charge grows, and the pin is dropped
        obtain ⟨p, hp⟩ := Option.ne_none_iff_exists'.mp hc
        obtain ⟨rfl, rfl⟩ := hfits p hp
        obtain ⟨hbook, hwrap⟩ := (hpin.perm (List.Perm.swap _ _ _)).after_userBook hp hu' ha' hle
        simp only [hwrap, UserRegistry.noteWrap_false]
        refine Books.after_userChargeSettle 0 _ hfits (fun _ => ?_) fun hnone => absurd hnone hc
        exact hbook.perm (List.Perm.swap _ _ _)
    · refine Books.after_userChargeSettle 0 c.charge hfits (fun _ => ?_) fun hnone => ?_
      · exact hpin.after_userChargeCommitLog hslot' hu' ha'
      · refine ⟨?_, hzero hnone⟩
        exact ((hpin.after_userChargeCommitLog hslot' hu' ha').perm (List.Perm.swap _ _ _)).of_cons_unused hnone

/-- Releasing a charge object keeps the books and empties the object. -/
theorem Books.after_userChargeDeinit {c : UserCharge} (h : Books r held (c :: cs)) :
    Books (userChargeDeinit r c).1 held ((userChargeDeinit r c).2 :: cs) := by
  rw [userChargeDeinit]
  cases hc : c.usage with
  | none =>
    have hzero := h.unused c List.mem_cons_self hc
    simp only [hzero, beq_self_eq_true, UserRegistry.check_true]
    exact h
  | some p =>
    obtain ⟨u, a⟩ := p
    exact ((h.after_userUnbook hc).after_userUsageUnref hc rfl).cons_unused rfl rfl

end Registry

end DbusBroker
