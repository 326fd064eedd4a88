import DbusBroker.Lib.Run
import DbusBroker.Util.UserBooksStep

/-!
# Runs of the accounting

The accounting seen from its callers: they hold references on users and own charge objects,
and they keep the contract of `util/user.h`. A charge object is initialised before it is
used, it is reused for the same user, actor and slot only, and users are live while they are
charged. In every run that keeps the number of usages of a user countable, the books balance
in every state.
-/

namespace DbusBroker

open Std Machine

/-- The accounting together with what its callers hold. -/
structure Accounting where
  registry : UserRegistry
  held : Uid → ℕ
  charges : SearchTree (compare : ℕ → ℕ → Ordering) UserCharge

/-- A call of the accounting interface; charge objects are named by their address. -/
inductive AccountingOp where
  | refUser (uid : Uid)
  | userRef (uid : Uid)
  | userUnref (uid : Uid)
  | chargeInit (id : ℕ)
  | charge (id : ℕ) (user actor : Option Uid) (slot : ℕ) (amount : UInt32)
  | chargeDeinit (id : ℕ)

namespace Accounting

/-- A registry without users, `user_registry_init`. -/
def init (hasLog : Bool) (nSlots : ℕ) (maxima : ℕ → UInt32) : Accounting where
  registry := ⟨hasLog, .empty, nSlots, maxima, false, false⟩
  held := fun _ => 0
  charges := .empty

/-- A live user object. -/
def Live (w : Accounting) (uid : Uid) : Prop := (w.registry.userTree.find? uid).isSome

/-- The contract of the interface. -/
def Allowed (w : Accounting) : AccountingOp → Prop
  | .refUser _ => True
  | .userRef uid => 0 < w.held uid
  | .userUnref uid => 0 < w.held uid
  | .chargeInit id => ∀ c ∈ w.charges.find? id, c.usage = none
  | .charge id user actor slot _ =>
    ∃ c ∈ w.charges.find? id, slot < w.registry.nSlots ∧
      ∀ u ∈ user, w.Live u ∧ (∀ a ∈ actor, w.Live a) ∧ c.Fits u (actor.getD u) slot
  | .chargeDeinit id => (w.charges.find? id).isSome

/-- The usages of a charged user, with the one of the actor, can be counted in 32 bits, and so can one more than them
where the quota of a foreign actor is computed. -/
def Countable (w : Accounting) : AccountingOp → Prop
  | .charge _ (some u) actor slot amount =>
    ∀ user ∈ w.registry.userTree.find? u, amount ≠ 0 → usersCounted user u (actor.getD u) slot amount < 2 ^ 32
  | _ => True

instance (w : Accounting) (uid : Uid) : Decidable (w.Live uid) :=
  inferInstanceAs (Decidable ((w.registry.userTree.find? uid).isSome = true))

instance (w : Accounting) : (op : AccountingOp) → Decidable (w.Allowed op)
  | .refUser _ => isTrue trivial
  | .userRef uid => inferInstanceAs (Decidable (0 < w.held uid))
  | .userUnref uid => inferInstanceAs (Decidable (0 < w.held uid))
  | .chargeInit id => inferInstanceAs (Decidable (∀ c ∈ w.charges.find? id, c.usage = none))
  | .charge id user actor slot _ =>
    -- The members of an option are decided by looking at it, not by trying every word.
    have : Decidable (∀ a ∈ actor, w.Live a) := Option.decidableForallMem actor
    have (c : UserCharge) : Decidable (∀ u ∈ user, w.Live u ∧ (∀ a ∈ actor, w.Live a) ∧ c.Fits u (actor.getD u) slot) :=
      Option.decidableForallMem user
    inferInstanceAs (Decidable (∃ c ∈ w.charges.find? id, slot < w.registry.nSlots ∧
      ∀ u ∈ user, w.Live u ∧ (∀ a ∈ actor, w.Live a) ∧ c.Fits u (actor.getD u) slot))
  | .chargeDeinit id => inferInstanceAs (Decidable ((w.charges.find? id).isSome = true))

instance (w : Accounting) : (op : AccountingOp) → Decidable (w.Countable op)
  | .charge _ (some u) actor slot amount =>
    inferInstanceAs (Decidable (∀ user ∈ w.registry.userTree.find? u, amount ≠ 0 →
      usersCounted user u (actor.getD u) slot amount < 2 ^ 32))
  | .charge _ none _ _ _ => isTrue trivial
  | .refUser _ => isTrue trivial
  | .userRef _ => isTrue trivial
  | .userUnref _ => isTrue trivial
  | .chargeInit _ => isTrue trivial
  | .chargeDeinit _ => isTrue trivial

/-- Perform one call. -/
def step (w : Accounting) : AccountingOp → Accounting
  | .refUser uid =>
    { w with
      registry := userRegistryRefUser w.registry uid
      held := Function.update w.held uid (w.held uid + 1) }
  | .userRef uid =>
    { w with registry := userRef w.registry uid, held := Function.update w.held uid (w.held uid + 1) }
  | .userUnref uid =>
    { w with registry := userUnref w.registry uid, held := Function.update w.held uid (w.held uid - 1) }
  | .chargeInit id => { w with charges := w.charges.insert id .init }
  | .charge id user actor slot amount =>
    match w.charges.find? id with
    | none => w
    | some c =>
      let (registry, c, _) := userCharge w.registry user c actor slot amount
      { w with registry := registry, charges := w.charges.insert id c }
  | .chargeDeinit id =>
    match w.charges.find? id with
    | none => w
    | some c =>
      let (registry, c) := userChargeDeinit w.registry c
      { w with registry := registry, charges := w.charges.insert id c }

/-- The books of the callers' charge objects balance. -/
def Balanced (w : Accounting) : Prop := Books w.registry w.held w.charges.values

/-- Nothing is charged at the start. -/
theorem balanced_init (hasLog : Bool) (nSlots : ℕ) (maxima : ℕ → UInt32) :
    Balanced (init hasLog nSlots maxima) where
  user := fun uid user h => by simp [init] at h
  absent := fun _ _ => ⟨rfl, fun _ => rfl⟩
  unused := fun c hc => absurd hc List.not_mem_nil
  inRange := rfl
  asserted := rfl

/-- Replacing a charge object keeps the balance, if the books of the other objects allow it. -/
theorem balanced_insert {w : Accounting} {id : ℕ} {c : UserCharge} {registry : UserRegistry}
    (h : Books registry w.held (c :: (w.charges.erase id).values)) :
    Balanced { w with registry := registry, charges := w.charges.insert id c } :=
  h.perm (w.charges.values_insert_perm id c).symm

/-- The contract gives what a charge needs. -/
theorem chargeReady {w : Accounting} {id : ℕ} {user actor : Option Uid} {slot : ℕ} {amount : UInt32}
    (hallowed : w.Allowed (.charge id user actor slot amount))
    (hcount : w.Countable (.charge id user actor slot amount)) :
    ∃ c, w.charges.find? id = some c ∧ ChargeReady w.registry user c actor slot amount := by
  obtain ⟨c, hc, hslot, hfits⟩ := hallowed
  refine ⟨c, hc, hslot, fun u hu => ?_⟩
  obtain ⟨hlive, -, hfit⟩ := hfits u hu
  obtain ⟨user', huser⟩ := Option.isSome_iff_exists.mp hlive
  obtain rfl := Option.mem_def.mp hu
  exact ⟨hfit, user', huser, hcount user' huser⟩

/-- Every call that keeps the contract keeps the balance. -/
theorem balanced_step (w : Accounting) (op : AccountingOp) (h : Balanced w)
    (hop : w.Allowed op ∧ w.Countable op) : Balanced (w.step op) := by
  obtain ⟨hallowed, hcount⟩ := hop
  cases op with
  | refUser uid => exact h.after_userRegistryRefUser uid
  | userRef uid =>
    cases hu : w.registry.userTree.find? uid with
    | none => exact absurd (h.absent uid hu).1 (Nat.pos_iff_ne_zero.mp hallowed)
    | some user => exact h.after_userRef hu
  | userUnref uid => exact h.after_userUnref hallowed
  | chargeInit id =>
    refine balanced_insert ?_
    cases hc : w.charges.find? id with
    | none =>
      rw [w.charges.erase_of_find?_none hc]
      exact h.cons_unused rfl rfl
    | some c =>
      have hrest := (h.perm (w.charges.values_perm_of_find?_some hc)).of_cons_unused (hallowed c hc)
      exact hrest.cons_unused rfl rfl
  | charge id user actor slot amount =>
    obtain ⟨c, hc, hready⟩ := chargeReady hallowed hcount
    simp only [step, hc]
    exact balanced_insert ((h.perm (w.charges.values_perm_of_find?_some hc)).after_userCharge hready)
  | chargeDeinit id =>
    obtain ⟨c, hc⟩ := Option.isSome_iff_exists.mp hallowed
    simp only [step, hc]
    exact balanced_insert (h.perm (w.charges.values_perm_of_find?_some hc)).after_userChargeDeinit

/-- In every run of the accounting with countable usages, the books balance, nothing wraps and
no assertion fails. -/
theorem balanced_run (hasLog : Bool) (nSlots : ℕ) (maxima : ℕ → UInt32) (ops : List AccountingOp)
    (h : Along step (fun w op => w.Allowed op ∧ w.Countable op) (init hasLog nSlots maxima) ops) :
    Balanced (run step (init hasLog nSlots maxima) ops) :=
  run_invariant balanced_step (balanced_init hasLog nSlots maxima) h

/-- A charge by a foreign actor, a second one on the same object that exceeds its quota, and the
release of everything. -/
def chargeAndRelease : List AccountingOp :=
  [.refUser 0, .refUser 1, .chargeInit 7, .charge 7 (some 0) (some 1) 0 4, .charge 7 (some 0) (some 1) 0 20,
    .userUnref 1, .chargeDeinit 7, .userUnref 0]

theorem balanced_run_chargeAndRelease :
    Along step (fun w op => w.Allowed op ∧ w.Countable op) (init true 1 fun _ => 16) chargeAndRelease ∧
      Balanced (run step (init true 1 fun _ => 16) chargeAndRelease) := by
  have hallowed : Along step (fun w op => w.Allowed op ∧ w.Countable op) (init true 1 fun _ => 16)
      chargeAndRelease := by decide
  exact ⟨hallowed, balanced_run true 1 (fun _ => 16) chargeAndRelease hallowed⟩

end Accounting

end DbusBroker
