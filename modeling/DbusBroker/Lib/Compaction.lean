import Mathlib.Data.List.Basic
import Mathlib.Data.Nat.Notation

/-!
# Compaction of a sorted array

The usual loop that drops repeated elements of a sorted array in place: one index reads, the other
one writes behind the last element that is kept. What it keeps is strictly sorted and has the same
members, and what stands behind it in the array is left over.
-/

namespace Compaction

variable {α : Type} [DecidableEq α]

/-- One round of the loop: the element at the reading index is kept unless it is the last one kept already. -/
def step (blank : α) (s : ℕ × List α) (i : ℕ) : ℕ × List α :=
  if s.2.getD i blank ≠ s.2.getD s.1 blank then (s.1 + 1, s.2.set (s.1 + 1) (s.2.getD i blank)) else s

/-- The loop: the index of the last element that is kept, and the array. -/
def compact (blank : α) (l : List α) : ℕ × List α := (List.range' 1 (l.length - 1)).foldl (step blank) (0, l)

variable {blank : α} {kept stale rest : List α} {last x : α}

/-- The round that reads an element behind what is kept and what is left over. -/
theorem step_append (blank : α) (kept stale rest : List α) (last x : α) :
    step blank (kept.length, kept ++ last :: (stale ++ x :: rest)) (kept.length + 1 + stale.length) =
      if x ≠ last then (kept.length + 1, kept ++ last :: x :: ((stale ++ [x]).tail ++ rest))
      else (kept.length, kept ++ last :: (stale ++ x :: rest)) := by
  have hread : (kept ++ last :: (stale ++ x :: rest)).getD (kept.length + 1 + stale.length) blank = x := by
    have hsplit : kept ++ last :: (stale ++ x :: rest) = (kept ++ last :: stale) ++ x :: rest := by simp
    have hlength : (kept ++ last :: stale).length = kept.length + 1 + stale.length := by
      rw [List.length_append, List.length_cons]
      omega
    rw [hsplit, ← hlength, List.getD_eq_getElem?_getD, List.getElem?_append_right (Nat.le_refl _), Nat.sub_self]
    rfl
  have hlast : (kept ++ last :: (stale ++ x :: rest)).getD kept.length blank = last := by
    rw [List.getD_eq_getElem?_getD, List.getElem?_append_right (Nat.le_refl _), Nat.sub_self]
    rfl
  have hset : (kept ++ last :: (stale ++ x :: rest)).set (kept.length + 1) x =
      kept ++ last :: x :: ((stale ++ [x]).tail ++ rest) := by
    rw [List.set_append_right _ _ (Nat.le_succ _), Nat.succ_sub (Nat.le_refl _), Nat.sub_self]
    cases stale with
    | nil => rfl
    | cons y stale => simp
  rw [step]
  simp only [hread, hlast, hset]

/-- The array splits into what is kept and what is left over, with the elements that are still to be read. -/
theorem exists_of_foldl {r : α → α → Prop} (hanti : ∀ a b, r a b → r b a → a = b) (blank : α)
    (hsorted : (kept ++ last :: rest).Pairwise r) (hkept : (kept ++ [last]).Pairwise fun a b => r a b ∧ a ≠ b) :
    ∃ kept' stale', (List.range' (kept.length + 1 + stale.length) rest.length).foldl (step blank)
          (kept.length, kept ++ last :: (stale ++ rest)) = (kept'.length - 1, kept' ++ stale') ∧
        kept'.length + stale'.length = kept.length + 1 + stale.length + rest.length ∧
        (kept'.Pairwise fun a b => r a b ∧ a ≠ b) ∧ ∀ a, a ∈ kept' ↔ a ∈ kept ++ last :: rest := by
  induction rest generalizing kept stale last with
  | nil =>
    refine ⟨kept ++ [last], stale, ?_, ?_, hkept, fun a => Iff.rfl⟩
    · simp
    · rw [List.length_append, List.length_singleton, List.length_nil]
      omega
  | cons x rest ih =>
    rw [List.length_cons, List.range'_succ, List.foldl_cons, step_append]
    obtain ⟨-, htail, hacross⟩ := List.pairwise_append.mp hsorted
    have hlastx : r last x := (List.pairwise_cons.mp htail).1 x List.mem_cons_self
    by_cases hnew : x = last
    · -- a repetition is left over
      subst hnew
      have hshorter : (kept ++ x :: rest).Pairwise r :=
        hsorted.sublist (List.Sublist.append_left (List.sublist_cons_self _ _) _)
      obtain ⟨kept', stale', hfold, hlength, hstrict, hmem⟩ := @ih kept (stale ++ [x]) x hshorter hkept
      rw [List.length_append, List.length_singleton, ← Nat.add_assoc] at hfold hlength
      rw [List.append_assoc] at hfold
      rw [if_neg (not_not.mpr rfl)]
      refine ⟨kept', stale', hfold, by omega, hstrict, fun a => (hmem a).trans ?_⟩
      simp
    · -- a new element is put behind what is kept
      have hstale : ((stale ++ [x]).tail).length = stale.length := by
        rw [List.length_tail, List.length_append, List.length_singleton, Nat.add_sub_cancel]
      have hshift : kept ++ last :: x :: ((stale ++ [x]).tail ++ rest) =
          (kept ++ [last]) ++ x :: ((stale ++ [x]).tail ++ rest) := by simp
      have hsorted' : (kept ++ [last] ++ x :: rest).Pairwise r := by
        rwa [List.append_assoc]
      have hstrict : (kept ++ [last] ++ [x]).Pairwise fun a b => r a b ∧ a ≠ b := by
        refine List.pairwise_append.mpr ⟨hkept, List.pairwise_singleton _ _, fun a ha b hb => ?_⟩
        rw [List.mem_singleton.mp hb]
        rcases List.mem_append.mp ha with ha | ha
        · obtain ⟨hle, hne⟩ := (List.pairwise_append.mp hkept).2.2 a ha last (List.mem_singleton_self _)
          refine ⟨hacross a ha x (List.mem_cons_of_mem _ List.mem_cons_self), fun heq => ?_⟩
          rw [heq] at hle
          exact hnew (hanti x last hle hlastx)
        · rw [List.mem_singleton.mp ha]
          exact ⟨hlastx, fun heq => hnew heq.symm⟩
      obtain ⟨kept', stale', hfold, hlength, hstrict', hmem⟩ := @ih (kept ++ [last]) (stale ++ [x]).tail x hsorted' hstrict
      rw [hstale, List.length_append, List.length_singleton] at hfold hlength
      rw [if_pos hnew, hshift, Nat.add_right_comm (kept.length + 1)]
      refine ⟨kept', stale', hfold, by omega, hstrict', fun a => (hmem a).trans ?_⟩
      simp

/-- What the loop makes of a sorted array that is not empty: what it keeps is strictly sorted and has the same members,
and the rest of the array is left over. -/
theorem compact_eq {r : α → α → Prop} (hanti : ∀ a b, r a b → r b a → a = b) (blank : α) {l : List α}
    (hsorted : l.Pairwise r) (hne : l ≠ []) :
    ∃ kept stale, compact blank l = (kept.length - 1, kept ++ stale) ∧ kept.length + stale.length = l.length ∧
      (kept.Pairwise fun a b => r a b ∧ a ≠ b) ∧ ∀ a, a ∈ kept ↔ a ∈ l := by
  obtain ⟨first, rest, rfl⟩ := List.exists_cons_of_ne_nil hne
  obtain ⟨kept, stale, hfold, hlength, hstrict, hmem⟩ :=
    @exists_of_foldl α _ [] [] rest first r hanti blank hsorted (List.pairwise_singleton _ _)
  refine ⟨kept, stale, hfold, ?_, hstrict, hmem⟩
  rw [List.length_cons, hlength, List.length_nil, Nat.zero_add, Nat.add_comm]

/-- The array keeps its length. -/
theorem length_compact (blank : α) (l : List α) : (compact blank l).2.length = l.length := by
  have hstep (s : ℕ × List α) (i : ℕ) : (step blank s i).2.length = s.2.length := by
    rw [step]
    split
    · exact List.length_set
    · rfl
  have hfold (is : List ℕ) (s : ℕ × List α) : (is.foldl (step blank) s).2.length = s.2.length := by
    induction is generalizing s with
    | nil => rfl
    | cons i is ih => rw [List.foldl_cons, ih, hstep]
  exact hfold _ _

end Compaction
