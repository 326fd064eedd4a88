import Mathlib.Algebra.Group.Action.Defs
import Mathlib.Algebra.Order.BigOperators.Group.List
import Mathlib.Algebra.Order.Ring.Int
import Mathlib.Algebra.Order.Ring.Nat
import Mathlib.Data.List.Induction

/-!
# Running means, rounded down

A mean of whole numbers that is rounded down after each number, and the sum of squared distances that is updated
with the product of a number's distances from the mean before it and the mean with it. Rounding never gives the
two distances different signs.
-/

namespace RunningMean

/-- The mean of numbers, rounded down. -/
def mean (numbers : List ℕ) : ℕ := numbers.sum / numbers.length

/-- The product of a number's distances from the mean of `count` numbers with some sum, and from the mean of these
and the number. -/
def distances (sum count number : ℕ) : ℤ :=
  ((number : ℤ) - (sum / count : ℕ)) * ((number : ℤ) - ((sum + number) / (count + 1) : ℕ))

/-- The sum of the products, behind `count` numbers with some sum. -/
def squaresFrom : ℕ → ℕ → List ℕ → ℤ
  | _, _, [] => 0
  | sum, count, number :: rest => distances sum count number + squaresFrom (sum + number) (count + 1) rest

/-- The sum of the products over a list. -/
def squares (numbers : List ℕ) : ℤ := squaresFrom 0 0 numbers

/-- A number above a mean is not below the mean with it. -/
theorem mean_with_le {sum count number : ℕ} (h : sum ≤ number * count) : (sum + number) / (count + 1) ≤ number := by
  apply Nat.div_le_of_le_mul
  calc sum + number ≤ number * count + number := Nat.add_le_add_right h number
    _ = (count + 1) * number := by rw [Nat.succ_mul, Nat.mul_comm]

/-- A number that is not above a mean is not above the mean with it. -/
theorem le_mean_with {sum count number : ℕ} (h : number * count ≤ sum) : number ≤ (sum + number) / (count + 1) := by
  apply (Nat.le_div_iff_mul_le (Nat.succ_pos count)).mpr
  rw [Nat.mul_succ]
  exact Nat.add_le_add_right h number

/-- The two distances never have different signs. -/
theorem distances_nonneg {sum count : ℕ} (hempty : count = 0 → sum = 0) (number : ℕ) : 0 ≤ distances sum count number := by
  by_cases hle : number ≤ sum / count
  · -- both distances are at most zero
    have hmul : number * count ≤ sum := (Nat.mul_le_mul_right count hle).trans (Nat.div_mul_le_self sum count)
    have hwith := le_mean_with hmul
    apply mul_nonneg_of_nonpos_of_nonpos
    · exact sub_nonpos.mpr (Int.ofNat_le.mpr hle)
    · exact sub_nonpos.mpr (Int.ofNat_le.mpr hwith)
  · have hlt := Nat.lt_of_not_le hle
    have hsum : sum ≤ number * count := by
      cases count with
      | zero => rw [hempty rfl, Nat.mul_zero]
      | succ n => exact (Nat.div_lt_iff_lt_mul (Nat.succ_pos n)).mp hlt |>.le
    have hwith := mean_with_le hsum
    apply mul_nonneg
    · exact sub_nonneg.mpr (Int.ofNat_le.mpr hlt.le)
    · exact sub_nonneg.mpr (Int.ofNat_le.mpr hwith)

/-- One more number adds its product. -/
theorem squaresFrom_append_singleton (sum count : ℕ) (numbers : List ℕ) (number : ℕ) :
    squaresFrom sum count (numbers ++ [number]) =
      squaresFrom sum count numbers + distances (sum + numbers.sum) (count + numbers.length) number := by
  induction numbers generalizing sum count with
  | nil =>
    rw [List.nil_append, squaresFrom, squaresFrom, squaresFrom, List.sum_nil, List.length_nil, Nat.add_zero,
      Nat.add_zero, add_zero, zero_add]
  | cons first rest ih =>
    rw [List.cons_append, squaresFrom, squaresFrom, ih, List.sum_cons, List.length_cons, ← add_assoc, Nat.add_assoc sum,
      Nat.add_right_comm count, Nat.add_assoc count]

/-- One more number adds its product to the sum over a list. -/
theorem squares_append_singleton (numbers : List ℕ) (number : ℕ) :
    squares (numbers ++ [number]) = squares numbers + distances numbers.sum numbers.length number := by
  rw [squares, squares, squaresFrom_append_singleton, Nat.zero_add, Nat.zero_add]

/-- No numbers have no sum. -/
theorem sum_eq_zero_of_length_eq_zero {numbers : List ℕ} (h : numbers.length = 0) : numbers.sum = 0 := by
  rw [List.length_eq_zero_iff.mp h, List.sum_nil]

/-- The sum of the products is never negative. -/
theorem squares_nonneg (numbers : List ℕ) : 0 ≤ squares numbers := by
  induction numbers using List.reverseRecOn with
  | nil => exact le_refl 0
  | append_singleton rest number ih =>
    rw [squares_append_singleton]
    exact add_nonneg ih (distances_nonneg sum_eq_zero_of_length_eq_zero number)

/-- A lower bound of the numbers is below their mean. -/
theorem le_mean {numbers : List ℕ} {bound : ℕ} (hne : numbers ≠ []) (h : ∀ n ∈ numbers, bound ≤ n) :
    bound ≤ mean numbers := by
  apply (Nat.le_div_iff_mul_le (List.length_pos_iff.mpr hne)).mpr
  have hsum := List.card_nsmul_le_sum numbers bound h
  rwa [smul_eq_mul, Nat.mul_comm] at hsum

/-- An upper bound of the numbers is above their mean. -/
theorem mean_le {numbers : List ℕ} {bound : ℕ} (h : ∀ n ∈ numbers, n ≤ bound) : mean numbers ≤ bound := by
  apply Nat.div_le_of_le_mul
  have hsum := List.sum_le_card_nsmul numbers bound h
  rwa [smul_eq_mul] at hsum

end RunningMean
