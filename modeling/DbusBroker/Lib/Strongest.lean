import Mathlib.Data.List.Basic
import Mathlib.Order.Defs.LinearOrder
import Mathlib.Order.Basic
import Mathlib.Order.Lattice

/-!
# The strongest of a list

Candidates with a priority compete one after the other: a candidate takes the place of the
best one so far if its priority is greater. The winner has the greatest priority, and what it
carries depends on the candidates as a set once candidates of one priority carry the same.
-/

universe u v w z

namespace Strongest

variable {α : Type u} {β : Type v} {κ : Type z} [LinearOrder κ] (priority : α → κ)

/-- A candidate takes the place of the best one if its priority is greater. -/
def compete (best candidate : α) : α := if priority best < priority candidate then candidate else best

/-- The best of a list, on top of what there is already. -/
def pick (start : α) (xs : List α) : α := xs.foldl (compete priority) start

/-- A candidate of the greatest priority. -/
structure Greatest (xs : List α) (x : α) : Prop where
  mem : x ∈ xs
  le : ∀ y ∈ xs, priority y ≤ priority x

/-- Candidates of one priority carry the same. -/
def Agree (value : α → β) (xs : List α) : Prop :=
  ∀ x ∈ xs, ∀ y ∈ xs, priority x = priority y → value x = value y

instance [DecidableEq α] (xs : List α) (x : α) : Decidable (Greatest priority xs x) :=
  decidable_of_iff (x ∈ xs ∧ ∀ y ∈ xs, priority y ≤ priority x) ⟨fun h => ⟨h.1, h.2⟩, fun h => ⟨h.mem, h.le⟩⟩

instance [DecidableEq β] (value : α → β) (xs : List α) : Decidable (Agree priority value xs) :=
  inferInstanceAs (Decidable (∀ x ∈ xs, ∀ y ∈ xs, priority x = priority y → value x = value y))

variable {priority}

@[simp] theorem pick_nil (start : α) : pick priority start [] = start := rfl

@[simp] theorem pick_cons (start x : α) (xs : List α) :
    pick priority start (x :: xs) = pick priority (compete priority start x) xs := rfl

/-- The candidates of two lists compete in turn. -/
theorem pick_append (start : α) (xs ys : List α) :
    pick priority start (xs ++ ys) = pick priority (pick priority start xs) ys := List.foldl_append

/-- A nested loop lets the candidates of all inner lists compete. -/
theorem pick_flatMap {γ : Type w} (f : γ → List α) (start : α) (ys : List γ) :
    pick priority start (ys.flatMap f) = ys.foldl (fun best y => pick priority best (f y)) start := by
  induction ys generalizing start with
  | nil => rfl
  | cons y rest ih => rw [List.flatMap_cons, pick_append, ih, List.foldl_cons]

/-- The winner is no weaker than the candidates of one turn. -/
theorem le_compete (best candidate : α) :
    priority best ≤ priority (compete priority best candidate) ∧
      priority candidate ≤ priority (compete priority best candidate) := by
  unfold compete
  split_ifs with h
  · exact ⟨h.le, le_refl _⟩
  · exact ⟨le_refl _, not_lt.mp h⟩

variable (priority) in
/-- The winner is what there was already or a stronger candidate. -/
theorem pick_eq_start_or_mem (start : α) (xs : List α) :
    pick priority start xs = start ∨ (pick priority start xs ∈ xs ∧ priority start < priority (pick priority start xs)) := by
  induction xs generalizing start with
  | nil => exact .inl rfl
  | cons x rest ih =>
    rw [pick_cons]
    rcases ih (compete priority start x) with h | ⟨hmem, hlt⟩
    · rw [h]
      unfold compete
      split_ifs with hx
      · exact .inr ⟨List.mem_cons_self, hx⟩
      · exact .inl rfl
    · exact .inr ⟨List.mem_cons_of_mem _ hmem, (le_compete start x).1.trans_lt hlt⟩

/-- The winner is no weaker than what there was already. -/
theorem le_pick_start (start : α) (xs : List α) : priority start ≤ priority (pick priority start xs) := by
  rcases pick_eq_start_or_mem priority start xs with h | ⟨-, h⟩
  · rw [h]
  · exact h.le

/-- The winner is no weaker than any candidate. -/
theorem le_pick_of_mem {start x : α} {xs : List α} (h : x ∈ xs) : priority x ≤ priority (pick priority start xs) := by
  induction xs generalizing start with
  | nil => exact absurd h List.not_mem_nil
  | cons y rest ih =>
    rw [pick_cons]
    rcases List.mem_cons.mp h with rfl | h
    · exact (le_compete start x).2.trans (le_pick_start _ _)
    · exact ih h

/-- Among candidates that are all stronger than what there was already, the winner is one of the
greatest priority. -/
theorem greatest_pick {start : α} {xs : List α} (hne : xs ≠ []) (h : ∀ x ∈ xs, priority start < priority x) :
    Greatest priority xs (pick priority start xs) := by
  refine ⟨?_, fun y hy => le_pick_of_mem hy⟩
  obtain ⟨x, hx⟩ := List.exists_mem_of_ne_nil xs hne
  rcases pick_eq_start_or_mem priority start xs with hstart | ⟨hmem, -⟩
  · have hle : priority x ≤ priority (pick priority start xs) := le_pick_of_mem hx
    rw [hstart] at hle
    exact absurd (h x hx) (not_lt.mpr hle)
  · exact hmem

/-- Something in a list has the greatest priority. -/
theorem exists_greatest {xs : List α} (hne : xs ≠ []) : ∃ x, Greatest priority xs x := by
  induction xs with
  | nil => exact absurd rfl hne
  | cons y rest ih =>
    by_cases hrest : rest = []
    · subst hrest
      exact ⟨y, List.mem_cons_self, fun z hz => (congrArg priority (List.mem_singleton.mp hz)).le⟩
    · obtain ⟨x, hx⟩ := ih hrest
      rcases le_total (priority y) (priority x) with hle | hle
      · refine ⟨x, List.mem_cons_of_mem y hx.mem, fun z hz => ?_⟩
        rcases List.mem_cons.mp hz with rfl | hz
        · exact hle
        · exact hx.le z hz
      · refine ⟨y, List.mem_cons_self, fun z hz => ?_⟩
        rcases List.mem_cons.mp hz with rfl | hz
        · exact le_refl _
        · exact (hx.le z hz).trans hle

/-- A list whose strong candidates are among others, and that covers the strong ones of the others, has a winner
of the greatest priority among the others, if there is a strong one at all. -/
theorem pick_dominates {start : α} {xs ys : List α} (hfrom : ∀ x ∈ xs, priority start < priority x → x ∈ ys)
    (hto : ∀ y ∈ ys, priority start < priority y → ∃ x ∈ xs, priority y ≤ priority x) :
    (pick priority start xs = start ∧ ∀ y ∈ ys, priority y ≤ priority start) ∨
      (Greatest priority ys (pick priority start xs) ∧ priority start < priority (pick priority start xs)) := by
  have hle (y : α) (hy : y ∈ ys) : priority y ≤ priority (pick priority start xs) := by
    by_cases hstrong : priority start < priority y
    · obtain ⟨x, hx, hyx⟩ := hto y hy hstrong
      exact hyx.trans (le_pick_of_mem hx)
    · exact (not_lt.mp hstrong).trans (le_pick_start start xs)
  rcases pick_eq_start_or_mem priority start xs with hstart | ⟨hmem, hlt⟩
  · exact .inl ⟨hstart, fun y hy => by simpa [hstart] using hle y hy⟩
  · exact .inr ⟨⟨hfrom _ hmem hlt, hle⟩, hlt⟩

/-- Two candidates of the greatest priority carry the same when candidates of one priority do. -/
theorem Greatest.value_eq {value : α → β} {xs : List α} (h : Agree priority value xs) {x y : α}
    (hx : Greatest priority xs x) (hy : Greatest priority xs y) : value x = value y :=
  h x hx.mem y hy.mem (le_antisymm (hy.le x hx.mem) (hx.le y hy.mem))

/-- What the winner carries depends on the candidates as a set. -/
theorem pick_value_congr {value : α → β} {start : α} {xs ys : List α} (hmem : ∀ x, x ∈ xs ↔ x ∈ ys)
    (hagree : Agree priority value xs) (h : ∀ x ∈ xs, priority start < priority x) :
    value (pick priority start xs) = value (pick priority start ys) := by
  by_cases hne : xs = []
  · subst hne
    have hys : ys = [] := List.eq_nil_iff_forall_not_mem.mpr fun y hy => List.not_mem_nil ((hmem y).mpr hy)
    rw [hys]
  · have hys : ys ≠ [] := fun hnil => by
      obtain ⟨x, hx⟩ := List.exists_mem_of_ne_nil xs hne
      rw [hmem, hnil] at hx
      exact List.not_mem_nil hx
    obtain ⟨hin, hle⟩ := greatest_pick hys fun y hy => h y ((hmem y).mpr hy)
    exact (greatest_pick hne h).value_eq hagree ⟨(hmem _).mpr hin, fun y hy => hle y ((hmem y).mp hy)⟩

end Strongest
