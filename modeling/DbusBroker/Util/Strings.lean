import Mathlib.Algebra.Group.Nat.Defs
import Mathlib.Data.List.Basic

/-!
# Strings

A C string is the list of its bytes before the terminating NUL, and a string pointer that
may be `NULL` is an `Option`. The helpers are those of `util/string.h`.
-/

namespace DbusBroker

open Std

/-- The bytes of a C string, without the terminating NUL. -/
abbrev Bytes := List UInt8

/-- The byte of an ASCII character. -/
def byte (c : Char) : UInt8 := c.toNat.toUInt8

/-- The bytes of an ASCII literal. -/
def lit (s : String) : Bytes := s.toList.map byte

/-- `strcmp`: the first difference decides, and the end of a string is below every byte. -/
def strcmp : Bytes → Bytes → Ordering
  | [], [] => .eq
  | [], _ :: _ => .lt
  | _ :: _, [] => .gt
  | a :: as, b :: bs => if a < b then .lt else if b < a then .gt else strcmp as bs

/-- `strncmp`: `strcmp` of at most that many characters. -/
def strncmp : Bytes → Bytes → ℕ → Ordering
  | _, _, 0 => .eq
  | [], [], _ + 1 => .eq
  | [], _ :: _, _ + 1 => .lt
  | _ :: _, [], _ + 1 => .gt
  | a :: as, b :: bs, n + 1 => if a < b then .lt else if b < a then .gt else strncmp as bs n

/-- `string_compare`: a missing string is below every string. -/
def stringCompare : Option Bytes → Option Bytes → Ordering
  | none, none => .eq
  | some _, none => .gt
  | none, some _ => .lt
  | some a, some b => strcmp a b

/-- `string_equal`: a missing string equals a missing string only. -/
def stringEqual : Option Bytes → Option Bytes → Bool
  | some a, some b => strcmp a b == .eq
  | none, none => true
  | _, _ => false

/-- `string_prefix`: what follows a leading string. -/
def stringPrefix : Bytes → Bytes → Option Bytes
  | str, [] => some str
  | [], _ :: _ => none
  | a :: as, b :: bs => if a = b then stringPrefix as bs else none

/-- A digit of `string_to_hex`, for the lower four bits. -/
def stringHexDigit (c : UInt8) : UInt8 := (lit "0123456789abcdef").getD (c &&& 0x0f).toNat 0

/-- `string_to_hex`. -/
def stringToHex (str : Bytes) : Bytes := str.flatMap fun c : UInt8 => [stringHexDigit (c >>> 4), stringHexDigit c]

/-- `strcmp` is the order of byte lists. -/
theorem strcmp_eq_compare (a b : Bytes) : strcmp a b = compare a b := by
  induction a generalizing b with
  | nil => cases b <;> rfl
  | cons x xs ih =>
    cases b with
    | nil => rfl
    | cons y ys =>
      have hcompare : compare x y = compareOfLessAndEq x y := rfl
      rw [strcmp, List.compare_cons_cons, ih ys, hcompare, compareOfLessAndEq]
      by_cases hlt : x < y
      · rw [if_pos hlt, if_pos hlt]
        rfl
      · rw [if_neg hlt, if_neg hlt]
        by_cases heq : x = y
        · rw [if_pos heq, if_neg (heq ▸ hlt)]
          rfl
        · have hgt : y < x := by
            rw [UInt8.lt_iff_toNat_lt] at hlt ⊢
            have hne : x.toNat ≠ y.toNat := fun h => heq (UInt8.toNat.inj h)
            omega
          rw [if_neg heq, if_pos hgt]
          rfl

instance : TransCmp strcmp := by
  have h : strcmp = compare := funext fun a => funext fun b => strcmp_eq_compare a b
  rw [h]
  infer_instance

instance : LawfulEqCmp strcmp := by
  have h : strcmp = compare := funext fun a => funext fun b => strcmp_eq_compare a b
  rw [h]
  infer_instance

/-- `string_compare` is the order of optional byte lists. -/
theorem stringCompare_eq_compare (a b : Option Bytes) : stringCompare a b = compare a b := by
  cases a <;> cases b
  · rfl
  · rfl
  · rfl
  · exact strcmp_eq_compare _ _

/-- Equal strings are those with the same bytes. -/
theorem stringEqual_iff (a b : Option Bytes) : stringEqual a b = true ↔ a = b := by
  cases a <;> cases b <;> simp [stringEqual]

/-- A prefix is found exactly when it leads the string. -/
theorem stringPrefix_eq_some_iff (str p tail : Bytes) : stringPrefix str p = some tail ↔ str = p ++ tail := by
  induction p generalizing str with
  | nil => simp [stringPrefix]
  | cons b bs ih =>
    cases str with
    | nil => simp [stringPrefix]
    | cons a as =>
      rw [stringPrefix]
      split
      · next h => simp [ih, h]
      · next h => simp [h]

end DbusBroker
