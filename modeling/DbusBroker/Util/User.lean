import DbusBroker.Lib.SearchTree
import Mathlib.Logic.Function.Basic

/-!
# User accounting

The resource accounting of `util/user.c`. A user has a balance for each slot; every actor
that holds a share of these balances has a usage object in the user's usage tree, created
on the first charge and kept alive by the charge objects that refer to it.

Pointers to users are uids and pointers to usages are pairs of uids: a live object is
always linked in its tree, under exactly that key. Reference counts are natural numbers;
the counters and balances that the source keeps in `unsigned int` are 32-bit words.

A failed `c_assert` is recorded in `assertFailed` and the function goes on, as it does in a
build with `NDEBUG`. The field `wrapped` records that an unsigned addition or subtraction
left the range of its type.
-/

namespace DbusBroker

open Std

/-- A numeric user id, `uid_t`. -/
abbrev Uid := UInt32

/-- The accounting slot of bytes, `USER_SLOT_BYTES`. -/
def userSlotBytes : ℕ := 0

/-- The accounting slot of file descriptors, `USER_SLOT_FDS`. -/
def userSlotFds : ℕ := 1

/-- The accounting slot of match rules, `USER_SLOT_MATCHES`. -/
def userSlotMatches : ℕ := 2

/-- The accounting slot of objects, `USER_SLOT_OBJECTS`. -/
def userSlotObjects : ℕ := 3

/-- What an accounting operation returns. -/
inductive UserResult where
  | success
  | quota
  deriving DecidableEq, Repr

/-- The share of one actor in the balances of a user. -/
structure UserUsage where
  nRefs : ℕ
  logged : Bool
  slots : ℕ → UInt32

/-- A recorded charge; `usage` is the pair of the charged user and the actor. -/
structure UserCharge where
  usage : Option (Uid × Uid)
  slot : ℕ
  charge : UInt32
  deriving DecidableEq, Repr

/-- An initialised charge object, `USER_CHARGE_INIT`. -/
def UserCharge.init : UserCharge := ⟨none, 0, 0⟩

/-- The remaining and the maximal balance of one slot. -/
structure UserSlot where
  n : UInt32
  max : UInt32

/-- A user, with the usages of all actors that pin its resources. -/
structure User where
  nRefs : ℕ
  usageTree : SearchTree (compare : Uid → Uid → Ordering) UserUsage
  nUsages : UInt32
  slots : ℕ → UserSlot

/-- All users, with the maxima new users start from. -/
structure UserRegistry where
  hasLog : Bool
  userTree : SearchTree (compare : Uid → Uid → Ordering) User
  nSlots : ℕ
  maxima : ℕ → UInt32
  wrapped : Bool
  assertFailed : Bool

namespace UserRegistry

/-- Record the outcome of an assertion. -/
def check (r : UserRegistry) (condition : Bool) : UserRegistry :=
  { r with assertFailed := r.assertFailed || !condition }

/-- Record whether an unsigned operation left its range. -/
def noteWrap (r : UserRegistry) (wraps : Bool) : UserRegistry :=
  { r with wrapped := r.wrapped || wraps }

/-- Write back a user object. -/
def setUser (r : UserRegistry) (uid : Uid) (user : User) : UserRegistry :=
  { r with userTree := r.userTree.insert uid user }

end UserRegistry

/-- An addition of two 32-bit words exceeds the largest word. -/
def addWraps (a b : UInt32) : Bool := 2 ^ 32 ≤ a.toNat + b.toNat

/-- A subtraction of two 32-bit words falls below zero. -/
def subWraps (a b : UInt32) : Bool := a.toNat < b.toNat

/-- `__builtin_add_overflow`: the sum, unless it overflows. -/
def addOverflow (a b : UInt32) : Option UInt32 := if a.toNat + b.toNat < 2 ^ 32 then some (a + b) else none

/-- `__builtin_mul_overflow`: the product, unless it overflows. -/
def mulOverflow (a b : UInt32) : Option UInt32 := if a.toNat * b.toNat < 2 ^ 32 then some (a * b) else none

/-- `__builtin_sub_overflow`: the difference, unless it is negative. -/
def subOverflow (a b : UInt32) : Option UInt32 := if b.toNat ≤ a.toNat then some (a - b) else none

/-- A fresh user object with its balances at their maxima. -/
def userNew (r : UserRegistry) : User :=
  { nRefs := 1, usageTree := .empty, nUsages := 0, slots := fun i => ⟨r.maxima i, r.maxima i⟩ }

/-- Destroy an unreferenced user, checking that nothing is charged on it. -/
def userFree (r : UserRegistry) (uid : Uid) (user : User) : UserRegistry :=
  let empty := user.usageTree.entries.isEmpty && user.nUsages == 0
  let full := (List.range r.nSlots).all fun i => (user.slots i).n == (user.slots i).max
  { r.check (empty && full) with userTree := r.userTree.erase uid }

/-- Take a reference on a user. -/
def userRef (r : UserRegistry) (uid : Uid) : UserRegistry :=
  match r.userTree.find? uid with
  | none => r.check false
  | some user => (r.check (0 < user.nRefs)).setUser uid { user with nRefs := user.nRefs + 1 }

/-- Drop a reference on a user and destroy it with the last one. -/
def userUnref (r : UserRegistry) (uid : Uid) : UserRegistry :=
  match r.userTree.find? uid with
  | none => r.check false
  | some user =>
    if user.nRefs = 1 then userFree r uid { user with nRefs := 0 }
    else (r.check (0 < user.nRefs)).setUser uid { user with nRefs := user.nRefs - 1 }

/-- Look up the user of a uid, creating it if necessary, and take a reference. -/
def userRegistryRefUser (r : UserRegistry) (uid : Uid) : UserRegistry :=
  match r.userTree.find? uid with
  | none => r.setUser uid (userNew r)
  | some _ => userRef r uid

/-- A fresh usage without any share. -/
def userUsageNew : UserUsage := ⟨1, false, fun _ => 0⟩

/-- Take a reference on a usage. -/
def userUsageRef (r : UserRegistry) (user actor : Uid) : UserRegistry :=
  match r.userTree.find? user with
  | none => r.check false
  | some u =>
    match u.usageTree.find? actor with
    | none => r.check false
    | some usage =>
      (r.check (0 < usage.nRefs)).setUser user
        { u with usageTree := u.usageTree.insert actor { usage with nRefs := usage.nRefs + 1 } }

/-- Destroy an unreferenced usage, checking that its shares are returned. -/
def userUsageFree (r : UserRegistry) (user actor : Uid) (u : User) (usage : UserUsage) : UserRegistry :=
  let r := r.check ((List.range r.nSlots).all fun i => usage.slots i == 0)
  let r := r.noteWrap (subWraps u.nUsages 1)
  userUnref (r.setUser user { u with usageTree := u.usageTree.erase actor, nUsages := u.nUsages - 1 }) user

/-- Drop a reference on a usage and destroy it with the last one. -/
def userUsageUnref (r : UserRegistry) (user actor : Uid) : UserRegistry :=
  match r.userTree.find? user with
  | none => r.check false
  | some u =>
    match u.usageTree.find? actor with
    | none => r.check false
    | some usage =>
      if usage.nRefs = 1 then userUsageFree r user actor u { usage with nRefs := 0 }
      else (r.check (0 < usage.nRefs)).setUser user
        { u with usageTree := u.usageTree.insert actor { usage with nRefs := usage.nRefs - 1 } }

/-- Find or create the usage of an actor on a user, and take a reference. -/
def userRefUsage (r : UserRegistry) (user actor : Uid) : UserRegistry :=
  match r.userTree.find? user with
  | none => r.check false
  | some u =>
    match u.usageTree.find? actor with
    | none =>
      -- a new usage pins its user and counts in `n_usages`
      (r.noteWrap (addWraps u.nUsages 1)).setUser user
        { u with
          nRefs := u.nRefs + 1
          usageTree := u.usageTree.insert actor userUsageNew
          nUsages := u.nUsages + 1 }
    | some _ => userUsageRef r user actor

/-- Move an amount from the balance of a user to the share of an actor. -/
def userBook (r : UserRegistry) (user actor : Uid) (slot : ℕ) (amount : UInt32) : UserRegistry :=
  match r.userTree.find? user with
  | none => r.check false
  | some u =>
    match u.usageTree.find? actor with
    | none => r.check false
    | some usage =>
      let r := r.noteWrap (subWraps (u.slots slot).n amount)
      let r := r.noteWrap (addWraps (usage.slots slot) amount)
      r.setUser user
        { u with
          slots := Function.update u.slots slot { u.slots slot with n := (u.slots slot).n - amount }
          usageTree := u.usageTree.insert actor
            { usage with slots := Function.update usage.slots slot (usage.slots slot + amount) } }

/-- Return an amount from the share of an actor to the balance of a user. -/
def userUnbook (r : UserRegistry) (user actor : Uid) (slot : ℕ) (amount : UInt32) : UserRegistry :=
  match r.userTree.find? user with
  | none => r.check false
  | some u =>
    match u.usageTree.find? actor with
    | none => r.check false
    | some usage =>
      let r := r.noteWrap (addWraps (u.slots slot).n amount)
      let r := r.noteWrap (subWraps (usage.slots slot) amount)
      r.setUser user
        { u with
          slots := Function.update u.slots slot { u.slots slot with n := (u.slots slot).n + amount }
          usageTree := u.usageTree.insert actor
            { usage with slots := Function.update usage.slots slot (usage.slots slot - amount) } }

/-- Release a charge and reset its object. -/
def userChargeDeinit (r : UserRegistry) (c : UserCharge) : UserRegistry × UserCharge :=
  match c.usage with
  | none => (r.check (c.charge == 0), c)
  | some (user, actor) => (userUsageUnref (userUnbook r user actor c.slot c.charge) user actor, .init)

/-- Whether an actor with a share may charge more, given how many usages exist.

The sum `users + 1` is computed without a check, unlike every other operation here. -/
def userChargeCheck (remaining users share charge : UInt32) : UserResult :=
  match (addOverflow share charge).bind fun limit =>
      (mulOverflow limit (users + 1)).bind fun limit => subOverflow limit share with
  | some limit => if limit ≤ remaining then .success else .quota
  | none => .quota

/-- Report an exceeded quota once for each usage. -/
def userChargeCommitLog (r : UserRegistry) (user actor : Uid) (slot : ℕ) : UserRegistry :=
  match r.userTree.find? user with
  | none => r.check false
  | some u =>
    match u.usageTree.find? actor with
    | none => r.check false
    | some usage =>
      if !r.hasLog || usage.logged then r
      else (r.check (slot < r.nSlots)).setUser user
        { u with usageTree := u.usageTree.insert actor { usage with logged := true } }

/-- Whether the quota admits a charge, once the usage of the actor exists. -/
def userChargeAdmits (r : UserRegistry) (user actor : Uid) (slot : ℕ) (amount : UInt32) : Bool :=
  match r.userTree.find? user with
  | none => false
  | some u =>
    match u.usageTree.find? actor with
    | none => false
    | some usage =>
      if user = actor then amount ≤ (u.slots slot).n
      else userChargeCheck (u.slots slot).n u.nUsages (usage.slots slot) amount == .success

/-- Whether computing the quota of a foreign actor wraps around. The number of users is only looked at if the share
and the charge do not overflow. -/
def userChargeCheckWraps (r : UserRegistry) (user actor : Uid) (slot : ℕ) (amount : UInt32) : Bool :=
  match r.userTree.find? user with
  | none => false
  | some u =>
    match u.usageTree.find? actor with
    | none => false
    | some usage => user != actor && (addOverflow (usage.slots slot) amount).isSome && addWraps u.nUsages 1

/-- Pin the usage a charge is booked on: the recorded one, or the one of the actor. -/
def userChargePin (r : UserRegistry) (user : Uid) (c : UserCharge) (actor : Uid) (slot : ℕ) : UserRegistry :=
  match c.usage with
  | some (u, a) => userUsageRef (r.check (user == u && actor == a && slot == c.slot)) u a
  | none => userRefUsage r user actor

/-- Hand the pinned usage to an unused charge object, or drop the pin of a used one. -/
def userChargeSettle (r : UserRegistry) (user : Uid) (c : UserCharge) (actor : Uid) (slot : ℕ) :
    UserRegistry × UserCharge :=
  match c.usage with
  | some (u, a) => (userUsageUnref r u a, c)
  | none => (r, { c with usage := some (user, actor), slot := slot })

/-- Charge a user on behalf of an actor, and record it in a charge object.

Without an amount or a user nothing happens; without an actor the user charges itself. A
refused charge still leaves the usage of the actor in the charge object. -/
def userCharge (r : UserRegistry) (user : Option Uid) (c : UserCharge) (actor : Option Uid) (slot : ℕ)
    (amount : UInt32) : UserRegistry × UserCharge × UserResult :=
  if amount = 0 then (r, c, .success)
  else
    match user with
    | none => (r, c, .success)
    | some user =>
      let actor := actor.getD user
      let r := (userChargePin r user c actor slot)
      let r := r.check (slot < r.nSlots)
      let r := r.noteWrap (userChargeCheckWraps r user actor slot amount)
      if userChargeAdmits r user actor slot amount then
        let r := (userBook r user actor slot amount).noteWrap (addWraps c.charge amount)
        let (r, c) := userChargeSettle r user { c with charge := c.charge + amount } actor slot
        (r, c, .success)
      else
        let r := userChargeCommitLog r user actor slot
        let (r, c) := userChargeSettle r user c actor slot
        (r, c, .quota)

end DbusBroker
