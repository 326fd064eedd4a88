import Mathlib.Algebra.BigOperators.Group.List.Basic
import Mathlib.Algebra.GroupWithZero.Nat

/-!
# Budgets

A budget says what is left on every account, and a bill is a list of debits. A budget covers a
bill if no account is asked for more than is left on it. A bill that is covered is paid as a
whole, one that is not costs nothing.

A bill in two parts is covered if the first part is, and the second by what the first leaves.
-/

namespace Budget

variable {κ : Type} [DecidableEq κ]

/-- What a bill asks of an account. -/
def due (bill : List (κ × ℕ)) (k : κ) : ℕ := ((bill.filter fun e => e.1 = k).map Prod.snd).sum

/-- No account is asked for more than is left on it. -/
def Covers (budget : κ → ℕ) (bill : List (κ × ℕ)) : Prop := ∀ k, due bill k ≤ budget k

/-- What a bill leaves. -/
def pay (budget : κ → ℕ) (bill : List (κ × ℕ)) : κ → ℕ := fun k => budget k - due bill k

variable {budget : κ → ℕ} {bill bill' : List (κ × ℕ)}

@[simp] theorem due_nil (k : κ) : due ([] : List (κ × ℕ)) k = 0 := rfl

@[simp] theorem due_cons (e : κ × ℕ) (bill : List (κ × ℕ)) (k : κ) :
    due (e :: bill) k = (if e.1 = k then e.2 else 0) + due bill k := by
  rw [due, List.filter_cons]
  split
  · next hk => rw [if_pos (of_decide_eq_true hk), List.map_cons, List.sum_cons, due]
  · next hk => rw [if_neg (fun h => hk (decide_eq_true h)), Nat.zero_add, due]

@[simp] theorem due_append (bill bill' : List (κ × ℕ)) (k : κ) : due (bill ++ bill') k = due bill k + due bill' k := by
  rw [due, List.filter_append, List.map_append, List.sum_append, due, due]

/-- An account that no debit names is asked for nothing. -/
theorem due_eq_zero {k : κ} (h : ∀ e ∈ bill, e.1 ≠ k) : due bill k = 0 := by
  rw [due, List.filter_eq_nil_iff.mpr fun e he => by simpa using h e he]
  rfl

/-- Only the accounts that a bill names have to be looked at. -/
theorem covers_iff_forall_mem : Covers budget bill ↔ ∀ e ∈ bill, due bill e.1 ≤ budget e.1 := by
  refine ⟨fun h e _ => h e.1, fun h k => ?_⟩
  by_cases hk : ∃ e ∈ bill, e.1 = k
  · obtain ⟨e, he, rfl⟩ := hk
    exact h e he
  · rw [due_eq_zero fun e he hek => hk ⟨e, he, hek⟩]
    exact Nat.zero_le _

instance (budget : κ → ℕ) (bill : List (κ × ℕ)) : Decidable (Covers budget bill) :=
  decidable_of_iff _ covers_iff_forall_mem.symm

theorem covers_nil : Covers budget [] := fun _ => Nat.zero_le _

@[simp] theorem pay_nil : pay budget [] = budget := rfl

/-- One debit is covered by what is left on its account. -/
theorem covers_singleton (k : κ) (n : ℕ) : Covers budget [(k, n)] ↔ n ≤ budget k := by
  rw [covers_iff_forall_mem]
  simp

/-- A bill in two parts is paid one part after the other. -/
theorem pay_append : pay budget (bill ++ bill') = pay (pay budget bill) bill' := by
  funext k
  rw [pay, due_append, pay, pay, Nat.sub_sub]

/-- A bill in two parts is covered if the second part is covered by what the first leaves. -/
theorem covers_append : Covers budget (bill ++ bill') ↔ Covers budget bill ∧ Covers (pay budget bill) bill' := by
  constructor
  · intro h
    refine ⟨fun k => ?_, fun k => ?_⟩
    · have hk := h k
      rw [due_append] at hk
      exact Nat.le_of_add_right_le hk
    · have hk := h k
      rw [due_append] at hk
      exact Nat.le_sub_of_add_le' hk
  · rintro ⟨h, h'⟩ k
    have hk := h k
    have hk' : due bill' k ≤ budget k - due bill k := h' k
    rw [due_append]
    omega

/-- A bill is paid if it is covered, and costs nothing if it is not. -/
def settle (budget : κ → ℕ) (bill : List (κ × ℕ)) : κ → ℕ := if Covers budget bill then pay budget bill else budget

/-- Bills are settled one after the other. -/
def settleAll (budget : κ → ℕ) (bills : List (List (κ × ℕ))) : κ → ℕ := bills.foldl settle budget

theorem settle_of_covers (h : Covers budget bill) : settle budget bill = pay budget bill := if_pos h

theorem settle_of_not_covers (h : ¬ Covers budget bill) : settle budget bill = budget := if_neg h

@[simp] theorem settle_nil : settle budget [] = budget := (settle_of_covers covers_nil).trans pay_nil

end Budget
