import DbusBroker.Lib.SearchTree

/-!
# Heaps

Objects with an address. A new object gets an address that was never used before, so that
a stale address never refers to a younger object.
-/

universe u

open Std

/-- Objects by their address, all below the next one. -/
structure Heap (α : Type u) where
  cells : SearchTree (compare : ℕ → ℕ → Ordering) α
  next : ℕ
  fresh : ∀ i x, cells.find? i = some x → i < next

namespace Heap

variable {α : Type u}

/-- No objects. -/
def empty : Heap α := ⟨.empty, 0, fun _ _ h => by cases h⟩

/-- The object at an address. -/
def read (h : Heap α) (i : ℕ) : Option α := h.cells.find? i

/-- Create an object. -/
def alloc (h : Heap α) (x : α) : Heap α where
  cells := h.cells.insert h.next x
  next := h.next + 1
  fresh := by
    intro i y hi
    rw [h.cells.find?_insert] at hi
    split at hi
    · omega
    · exact Nat.lt_succ_of_lt (h.fresh i y hi)

/-- Destroy an object. -/
def free (h : Heap α) (i : ℕ) : Heap α where
  cells := h.cells.erase i
  next := h.next
  fresh := by
    intro j y hj
    rw [h.cells.find?_erase] at hj
    split at hj
    · cases hj
    · exact h.fresh j y hj

/-- Rewrite an object that exists. -/
def modify (h : Heap α) (i : ℕ) (f : α → α) : Heap α where
  cells := match h.cells.find? i with
    | some x => h.cells.insert i (f x)
    | none => h.cells
  next := h.next
  fresh := by
    intro j y hj
    split at hj
    · next x hx =>
      rw [h.cells.find?_insert] at hj
      split at hj
      · next heq => exact heq ▸ h.fresh i x hx
      · exact h.fresh j y hj
    · exact h.fresh j y hj

/-- There is nothing at the next address. -/
@[simp] theorem read_next (h : Heap α) : h.read h.next = none := by
  cases hx : h.read h.next with
  | none => rfl
  | some x => exact absurd (h.fresh h.next x hx) (Nat.lt_irrefl _)

/-- What a heap holds after an object was created. -/
theorem read_alloc (h : Heap α) (x : α) (i : ℕ) :
    (h.alloc x).read i = if i = h.next then some x else h.read i := h.cells.find?_insert h.next x i

/-- What a heap holds after an object was destroyed. -/
theorem read_free (h : Heap α) (i j : ℕ) : (h.free i).read j = if j = i then none else h.read j :=
  h.cells.find?_erase i j

/-- A created object is one more. -/
theorem cells_alloc_ne (h : Heap α) (x : α) : (h.alloc x).cells ≠ h.cells := by
  intro heq
  have hnew : (h.alloc x).read h.next = some x := by rw [read_alloc, if_pos rfl]
  rw [read, heq] at hnew
  have hnone := h.read_next
  rw [read, hnew] at hnone
  cases hnone

end Heap
