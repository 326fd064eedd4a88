import DbusBroker.Lib.RedBlack
import Mathlib.Data.List.Nodup

/-!
# Walks through a tree

The nodes of a tree in the direction of a side, and the nodes with children before their
parents. Both orders are split at a position of the tree: into what lies behind it, the subtree
there, and what lies ahead. A walk that moves by one node is right when it moves to the first
node ahead.
-/

universe u

namespace ColourTree

variable {α : Type u}

/-- The nodes in the direction of a side. -/
def toward (s : Side) : ColourTree α → List α
  | nil => []
  | node _ l a r =>
    match s with
    | .right => toward s l ++ a :: toward s r
    | .left => toward s r ++ a :: toward s l

/-- To the right, that is the order of the tree. -/
theorem toward_right (t : ColourTree α) : t.toward .right = t.inorder := by
  induction t with
  | nil => rfl
  | node red l a r ihl ihr => rw [toward, inorder, ihl, ihr]

/-- To the left, it is the order backwards. -/
theorem toward_left (t : ColourTree α) : t.toward .left = t.inorder.reverse := by
  induction t with
  | nil => rfl
  | node red l a r ihl ihr =>
    rw [toward, inorder, ihl, ihr]
    simp

/-- The side that a walk comes from is passed first. -/
theorem toward_oriented (s : Side) (red : Bool) (near : ColourTree α) (a : α) (far : ColourTree α) :
    (oriented s red near a far).toward s.other = near.toward s.other ++ a :: far.toward s.other := by
  cases s <;> rfl

theorem perm_toward (s : Side) (t : ColourTree α) : (t.toward s).Perm t.inorder := by
  cases s with
  | right => rw [toward_right]
  | left =>
    rw [toward_left]
    exact List.reverse_perm _

theorem perm_postorder (t : ColourTree α) : t.postorder.Perm t.inorder := by
  induction t with
  | nil => exact .nil
  | node red l a r ihl ihr =>
    rw [postorder, inorder]
    refine List.perm_append_comm.trans ?_
    exact ((ihl.append ihr).cons a).trans List.perm_middle.symm

theorem length_postorder (t : ColourTree α) : t.postorder.length = t.inorder.length := t.perm_postorder.length_eq

/-- The root comes last, after its children. -/
theorem getLast?_postorder (t : ColourTree α) : t.postorder.getLast? = t.root? := by
  cases t with
  | nil => rfl
  | node red l a r =>
    rw [postorder, List.getLast?_concat]
    rfl

end ColourTree

open ColourTree

namespace Frame

variable {α : Type u}

/-- The nodes past a position in the direction of a side. -/
def ahead (s : Side) : List (Frame α) → List α
  | [] => []
  | f :: rest => if f.side = s then ahead s rest else f.node :: f.sibling.toward s ++ ahead s rest

/-- The nodes before a position in the direction of a side. -/
def behind (s : Side) : List (Frame α) → List α
  | [] => []
  | f :: rest => if f.side = s then behind s rest ++ f.sibling.toward s ++ [f.node] else behind s rest

/-- A tree around a position, in the direction of a side. -/
theorem toward_plug (s : Side) (path : List (Frame α)) (t : ColourTree α) :
    (plug path t).toward s = behind s path ++ t.toward s ++ ahead s path := by
  induction path generalizing t with
  | nil => simp [behind, ahead]
  | cons f rest ih =>
    obtain ⟨side, red, node, sibling⟩ := f
    rw [plug_cons, ih, fill]
    rcases side.eq_or_eq_other s with rfl | rfl
    · have hfill := toward_oriented side.other red sibling node t
      rw [oriented_other, Side.other_other] at hfill
      rw [hfill, behind, ahead, if_pos rfl, if_pos rfl]
      simp only [List.append_assoc, List.cons_append, List.nil_append]
    · have hfill := toward_oriented s.other red t node sibling
      rw [Side.other_other] at hfill
      rw [hfill, behind, ahead, if_neg (Side.other_ne s), if_neg (Side.other_ne s)]
      simp only [List.append_assoc, List.cons_append]

/-- The nodes after a subtree in post-order. -/
def postAhead : List (Frame α) → List α
  | [] => []
  | f :: rest =>
    match f.side with
    | .left => f.sibling.postorder ++ f.node :: postAhead rest
    | .right => f.node :: postAhead rest

/-- The nodes before a subtree in post-order. -/
def postBehind : List (Frame α) → List α
  | [] => []
  | f :: rest =>
    match f.side with
    | .left => postBehind rest
    | .right => postBehind rest ++ f.sibling.postorder

/-- A tree around a position, in post-order. -/
theorem postorder_plug (path : List (Frame α)) (t : ColourTree α) :
    (plug path t).postorder = postBehind path ++ t.postorder ++ postAhead path := by
  induction path generalizing t with
  | nil => simp [postBehind, postAhead]
  | cons f rest ih =>
    obtain ⟨side, red, node, sibling⟩ := f
    rw [plug_cons, ih]
    cases side <;> simp [fill, oriented, postorder, postBehind, postAhead]

end Frame

/-- Where a list without repetitions is split at an element is determined. -/
theorem List.Nodup.split_unique {α : Type u} {xs ys xs' ys' : List α} {a : α} (h : (xs ++ a :: ys).Nodup)
    (heq : xs ++ a :: ys = xs' ++ a :: ys') : xs = xs' ∧ ys = ys' := by
  have h' := h
  rw [heq] at h'
  rw [List.nodup_middle, List.nodup_cons, List.mem_append, not_or] at h h'
  obtain ⟨hxs, -, hys⟩ := (List.append_cons_inj_of_notMem h'.1.1 h'.1.2).mp heq.symm
  exact ⟨hxs.symm, hys.symm⟩
