import Mathlib.Data.Nat.Notation
import Mathlib.Data.Nat.Log
import Mathlib.Data.List.Basic
import Mathlib.Algebra.Order.Ring.Nat

/-!
# Red-black trees with a position

A binary tree with coloured nodes, and the same tree seen from one of its positions: the
subtree there and the frames above it, innermost first. The red-black conditions split at
every position into one on the subtree and one on the frames, so that a repair that climbs
the tree is an induction on the frames.
-/

universe u

/-- A side of a node. -/
inductive Side where
  | left
  | right
  deriving DecidableEq, Repr

/-- The other side. -/
def Side.other : Side → Side
  | .left => .right
  | .right => .left

@[simp] theorem Side.other_other (s : Side) : s.other.other = s := by cases s <;> rfl

@[simp] theorem Side.other_ne (s : Side) : s.other ≠ s := by cases s <;> decide

@[simp] theorem Side.ne_other (s : Side) : s ≠ s.other := by cases s <;> decide

theorem Side.eq_or_eq_other (s t : Side) : s = t ∨ s = t.other := by cases s <;> cases t <;> decide

/-- A binary tree with a colour at every node. -/
inductive ColourTree (α : Type u) where
  | nil
  | node (red : Bool) (left : ColourTree α) (a : α) (right : ColourTree α)
  deriving DecidableEq, Repr

namespace ColourTree

variable {α : Type u}

/-- The colour of the root; a missing tree is black. -/
def isRed : ColourTree α → Bool
  | nil => false
  | node red _ _ _ => red

/-- The root. -/
def root? : ColourTree α → Option α
  | nil => none
  | node _ _ a _ => some a

/-- The same tree with another colour at the root. -/
def paint (red : Bool) : ColourTree α → ColourTree α
  | nil => nil
  | node _ l a r => node red l a r

/-- The nodes from left to right. -/
def inorder : ColourTree α → List α
  | nil => []
  | node _ l a r => l.inorder ++ a :: r.inorder

/-- The nodes, children before their parents. -/
def postorder : ColourTree α → List α
  | nil => []
  | node _ l a r => l.postorder ++ r.postorder ++ [a]

/-- The length of the longest path down. -/
def depth : ColourTree α → ℕ
  | nil => 0
  | node _ l _ r => max l.depth r.depth + 1

/-- A node with the child of one side named first. -/
def oriented (s : Side) (red : Bool) (near : ColourTree α) (a : α) (far : ColourTree α) : ColourTree α :=
  match s with
  | .left => node red near a far
  | .right => node red far a near

/-- No red node has a red child, and every path down passes the same number of black nodes. -/
def Coloured : ColourTree α → ℕ → Prop
  | nil, n => n = 0
  | node true l _ r, n => l.isRed = false ∧ r.isRed = false ∧ l.Coloured n ∧ r.Coloured n
  | node false _ _ _, 0 => False
  | node false l _ r, n + 1 => l.Coloured n ∧ r.Coloured n

/-- The conditions of a red-black tree. -/
def RedBlack (t : ColourTree α) : Prop := t.isRed = false ∧ ∃ n, t.Coloured n

@[simp] theorem isRed_paint (red : Bool) (t : ColourTree α) : (t.paint red).isRed = (red && t.root?.isSome) := by
  cases t <;> simp [paint, isRed, root?]

@[simp] theorem root?_paint (red : Bool) (t : ColourTree α) : (t.paint red).root? = t.root? := by cases t <;> rfl

@[simp] theorem inorder_paint (red : Bool) (t : ColourTree α) : (t.paint red).inorder = t.inorder := by cases t <;> rfl

@[simp] theorem paint_isRed (t : ColourTree α) : t.paint t.isRed = t := by cases t <;> rfl

@[simp] theorem isRed_oriented (s : Side) (red : Bool) (near : ColourTree α) (a : α) (far : ColourTree α) :
    (oriented s red near a far).isRed = red := by cases s <;> rfl

@[simp] theorem root?_oriented (s : Side) (red : Bool) (near : ColourTree α) (a : α) (far : ColourTree α) :
    (oriented s red near a far).root? = some a := by cases s <;> rfl

@[simp] theorem paint_oriented (c : Bool) (s : Side) (red : Bool) (near : ColourTree α) (a : α) (far : ColourTree α) :
    (oriented s red near a far).paint c = oriented s c near a far := by cases s <;> rfl

/-- A node seen from either side. -/
theorem oriented_other (s : Side) (red : Bool) (near : ColourTree α) (a : α) (far : ColourTree α) :
    oriented s.other red near a far = oriented s red far a near := by cases s <;> rfl

/-- Every tree that is not empty has a child on each side. -/
theorem exists_oriented (s : Side) {t : ColourTree α} {a : α} (h : t.root? = some a) :
    ∃ near far, t = oriented s t.isRed near a far := by
  cases t with
  | nil => cases h
  | node red l b r =>
    cases h
    cases s with
    | left => exact ⟨l, r, rfl⟩
    | right => exact ⟨r, l, rfl⟩

theorem mem_inorder_oriented {s : Side} {red : Bool} {near far : ColourTree α} {a b : α} :
    b ∈ (oriented s red near a far).inorder ↔ b = a ∨ b ∈ near.inorder ∨ b ∈ far.inorder := by
  cases s
  · simp only [oriented, inorder, List.mem_append, List.mem_cons]
    exact or_left_comm
  · simp only [oriented, inorder, List.mem_append, List.mem_cons]
    rw [or_comm, or_assoc]

theorem root?_eq_none_iff {t : ColourTree α} : t.root? = none ↔ t = nil := by cases t <;> simp [root?]

/-- A red tree is not empty. -/
theorem exists_root_of_isRed {t : ColourTree α} (h : t.isRed = true) : ∃ a, t.root? = some a := by
  cases t with
  | nil => cases h
  | node red l a r => exact ⟨a, rfl⟩

theorem mem_inorder_of_root? {t : ColourTree α} {a : α} (h : t.root? = some a) : a ∈ t.inorder := by
  cases t with
  | nil => cases h
  | node red l b r =>
    cases h
    simp [inorder]

@[simp] theorem coloured_nil {n : ℕ} : (nil : ColourTree α).Coloured n ↔ n = 0 := by cases n <;> simp [Coloured]

theorem coloured_red {s : Side} {near far : ColourTree α} {a : α} {n : ℕ} :
    (oriented s true near a far).Coloured n ↔
      near.isRed = false ∧ far.isRed = false ∧ near.Coloured n ∧ far.Coloured n := by
  cases s
  · rfl
  · show _ ∧ _ ∧ _ ∧ _ ↔ _
    tauto

theorem coloured_black {s : Side} {near far : ColourTree α} {a : α} {n : ℕ} :
    (oriented s false near a far).Coloured (n + 1) ↔ near.Coloured n ∧ far.Coloured n := by
  cases s
  · rfl
  · exact And.comm

theorem not_coloured_black_zero {s : Side} {near far : ColourTree α} {a : α} :
    ¬(oriented s false near a far).Coloured 0 := by
  cases s <;> exact id

/-- A node over two black trees of the same height. -/
theorem coloured_over {s : Side} {red : Bool} {near far : ColourTree α} {a : α} {k : ℕ} (hnear : near.Coloured k)
    (hfar : far.Coloured k) (hn : near.isRed = false) (hf : far.isRed = false) :
    (oriented s red near a far).Coloured (if red then k else k + 1) := by
  cases red with
  | true => exact coloured_red.mpr ⟨hn, hf, hnear, hfar⟩
  | false => exact coloured_black.mpr ⟨hnear, hfar⟩

/-- A black root may be painted red when its children are black. -/
theorem Coloured.paint_black {t : ColourTree α} {n : ℕ} (h : t.Coloured n) (hred : t.isRed = true) :
    (t.paint false).Coloured (n + 1) := by
  cases t with
  | nil => cases hred
  | node red l a r =>
    cases hred
    exact ⟨h.2.2.1, h.2.2.2⟩

/-- Below a position where a black node is counted there is a tree. -/
theorem Coloured.exists_root {t : ColourTree α} {n : ℕ} (h : t.Coloured (n + 1)) : ∃ a, t.root? = some a := by
  cases t with
  | nil => cases h
  | node red l a r => exact ⟨a, rfl⟩

/-- The black nodes of one path are a bound on the size: a tree with `n` of them has at least `2 ^ n - 1` nodes. -/
theorem Coloured.le_length {t : ColourTree α} {n : ℕ} (h : t.Coloured n) : 2 ^ n ≤ t.inorder.length + 1 := by
  induction t generalizing n with
  | nil =>
    rw [coloured_nil.mp h]
    exact Nat.le_refl _
  | node red l a r ihl ihr =>
    cases red with
    | true =>
      have hl := ihl h.2.2.1
      simp only [inorder, List.length_append, List.length_cons]
      omega
    | false =>
      cases n with
      | zero => exact absurd h id
      | succ n =>
        have hl := ihl h.1
        have hr := ihr h.2
        simp only [inorder, List.length_append, List.length_cons, pow_succ]
        omega

/-- A path down has at most one red node for each black one, and one more where the root is red. -/
theorem Coloured.depth_le {t : ColourTree α} {n : ℕ} (h : t.Coloured n) : t.depth ≤ 2 * n + t.isRed.toNat := by
  induction t generalizing n with
  | nil => exact Nat.zero_le _
  | node red l a r ihl ihr =>
    cases red with
    | true =>
      have hl := ihl h.2.2.1
      have hr := ihr h.2.2.2
      rw [h.1] at hl
      rw [h.2.1] at hr
      simp only [depth, isRed, Bool.toNat_true, Bool.toNat_false] at *
      omega
    | false =>
      cases n with
      | zero => exact absurd h id
      | succ n =>
        have hl := ihl h.1
        have hr := ihr h.2
        have hboundL : l.isRed.toNat ≤ 1 := Bool.toNat_le _
        have hboundR : r.isRed.toNat ≤ 1 := Bool.toNat_le _
        simp only [depth, isRed, Bool.toNat_false]
        omega

/-- The depth of a red-black tree is at most twice the logarithm of its size. -/
theorem RedBlack.depth_le {t : ColourTree α} (h : t.RedBlack) : t.depth ≤ 2 * Nat.log2 (t.inorder.length + 1) := by
  obtain ⟨hblack, n, hn⟩ := h
  have hdepth := hn.depth_le
  have hlog : n ≤ Nat.log2 (t.inorder.length + 1) := (Nat.le_log2 (by omega)).mpr hn.le_length
  rw [hblack, Bool.toNat_false] at hdepth
  omega

end ColourTree

/-- One step down: the side that was taken, the node it was taken from, and the tree on its other side. -/
structure Frame (α : Type u) where
  side : Side
  red : Bool
  node : α
  sibling : ColourTree α

open ColourTree

namespace Frame

variable {α : Type u}

/-- Put a tree below a frame. -/
def fill (f : Frame α) (t : ColourTree α) : ColourTree α := oriented f.side f.red t f.node f.sibling

/-- Put a tree below the frames of a path, innermost first. -/
def plug : List (Frame α) → ColourTree α → ColourTree α
  | [], t => t
  | f :: rest, t => plug rest (f.fill t)

/-- The nodes left of a position. -/
def before : List (Frame α) → List α
  | [] => []
  | f :: rest => before rest ++ match f.side with
    | .left => []
    | .right => f.sibling.inorder ++ [f.node]

/-- The nodes right of a position. -/
def after : List (Frame α) → List α
  | [] => []
  | f :: rest => (match f.side with
    | .left => f.node :: f.sibling.inorder
    | .right => []) ++ after rest

/-- What a position asks of the tree below it: a colour and the number of its black nodes. -/
def Admits : List (Frame α) → Bool → ℕ → Prop
  | [], red, _ => red = false
  | f :: rest, red, n => f.sibling.Coloured n ∧
      if f.red then red = false ∧ f.sibling.isRed = false ∧ Admits rest true n else Admits rest false (n + 1)

@[simp] theorem plug_nil (t : ColourTree α) : plug [] t = t := rfl

@[simp] theorem plug_cons (f : Frame α) (rest : List (Frame α)) (t : ColourTree α) :
    plug (f :: rest) t = plug rest (f.fill t) := rfl

theorem plug_append (path path' : List (Frame α)) (t : ColourTree α) :
    plug (path ++ path') t = plug path' (plug path t) := by
  induction path generalizing t with
  | nil => rfl
  | cons f rest ih => exact ih (f.fill t)

/-- The order of a tree around a position. -/
theorem inorder_plug (path : List (Frame α)) (t : ColourTree α) :
    (plug path t).inorder = before path ++ t.inorder ++ after path := by
  induction path generalizing t with
  | nil => simp [before, after]
  | cons f rest ih =>
    rw [plug_cons, ih]
    obtain ⟨side, red, node, sibling⟩ := f
    cases side <;> simp [fill, oriented, inorder, before, after]

/-- Trees with the same order may be exchanged. -/
theorem inorder_plug_congr {path : List (Frame α)} {t t' : ColourTree α} (h : t'.inorder = t.inorder) :
    (plug path t').inorder = (plug path t).inorder := by rw [inorder_plug, inorder_plug, h]

/-- A position that a red tree fits takes a black one as well. -/
theorem Admits.black {path : List (Frame α)} {red : Bool} {n : ℕ} (h : Admits path red n) : Admits path false n := by
  cases path with
  | nil => rfl
  | cons f rest =>
    refine ⟨h.1, ?_⟩
    have hrest := h.2
    split at hrest
    · next hred =>
      rw [if_pos hred]
      exact ⟨rfl, hrest.2⟩
    · next hred =>
      rw [if_neg hred]
      exact hrest

/-- What a node admits when the position below it admits a black tree. -/
theorem Admits.above {f : Frame α} {rest : List (Frame α)} {k : ℕ} (h : Admits (f :: rest) false k) :
    Admits rest f.red (if f.red then k else k + 1) := by
  have hrest := h.2
  cases hred : f.red with
  | true =>
    rw [if_pos hred] at hrest
    exact hrest.2.2
  | false =>
    rw [if_neg (by simp [hred])] at hrest
    exact hrest

/-- A tree that a position asks for makes the whole a red-black tree. -/
theorem Admits.redBlack {path : List (Frame α)} {t : ColourTree α} {n : ℕ} (h : Admits path t.isRed n)
    (ht : t.Coloured n) : (plug path t).RedBlack := by
  induction path generalizing t n with
  | nil => exact ⟨h, n, ht⟩
  | cons f rest ih =>
    obtain ⟨hsibling, hrest⟩ := h
    rw [plug_cons]
    cases hred : f.red with
    | true =>
      rw [if_pos hred] at hrest
      refine ih (n := n) ?_ ?_
      · rw [fill, isRed_oriented, hred]
        exact hrest.2.2
      · rw [fill, hred, coloured_red]
        exact ⟨hrest.1, hrest.2.1, ht, hsibling⟩
    | false =>
      rw [if_neg (by simp [hred])] at hrest
      refine ih (n := n + 1) ?_ ?_
      · rw [fill, isRed_oriented, hred]
        exact hrest
      · rw [fill, hred, coloured_black]
        exact ⟨ht, hsibling⟩

/-- What a position of a red-black tree asks for is what is there. -/
theorem admits_of_redBlack {path : List (Frame α)} {t : ColourTree α} (h : (plug path t).RedBlack) :
    ∃ n, t.Coloured n ∧ Admits path t.isRed n := by
  induction path generalizing t with
  | nil => exact ⟨h.2.choose, h.2.choose_spec, h.1⟩
  | cons f rest ih =>
    obtain ⟨n, hfill, hrest⟩ := ih (t := f.fill t) h
    rw [fill, isRed_oriented] at hrest
    rw [fill] at hfill
    cases hred : f.red with
    | true =>
      rw [hred] at hfill hrest
      obtain ⟨hblack, hsibling, ht, hs⟩ := coloured_red.mp hfill
      refine ⟨n, ht, hs, ?_⟩
      rw [if_pos hred]
      exact ⟨hblack, hsibling, hrest⟩
    | false =>
      rw [hred] at hfill hrest
      cases n with
      | zero => exact absurd hfill not_coloured_black_zero
      | succ n =>
        obtain ⟨ht, hs⟩ := coloured_black.mp hfill
        refine ⟨n, ht, hs, ?_⟩
        rw [if_neg (by simp [hred])]
        exact hrest

/-- A position is no deeper than the tree. -/
theorem length_le_depth_plug (path : List (Frame α)) (t : ColourTree α) :
    path.length + t.depth ≤ (plug path t).depth := by
  induction path generalizing t with
  | nil => simp
  | cons f rest ih =>
    have hrest := ih (f.fill t)
    have hfill : t.depth + 1 ≤ (f.fill t).depth := by
      rw [fill]
      cases f.side <;> simp [oriented, depth]
    rw [plug_cons, List.length_cons]
    omega

/-- There is nothing before a position that frames leading left go down to. -/
theorem before_of_left {path : List (Frame α)} (h : ∀ f ∈ path, f.side = .left) : before path = [] := by
  induction path with
  | nil => rfl
  | cons f rest ih =>
    rw [before, ih fun g hg => h g (List.mem_cons_of_mem f hg), h f List.mem_cons_self]
    rfl

/-- What a position admits does not depend on which nodes are above it. -/
theorem admits_relabel (path rest : List (Frame α)) (s : Side) (red : Bool) (a b : α) (t : ColourTree α) {c : Bool}
    {n : ℕ} (h : Admits (path ++ ⟨s, red, a, t⟩ :: rest) c n) : Admits (path ++ ⟨s, red, b, t⟩ :: rest) c n := by
  induction path generalizing c n with
  | nil => exact h
  | cons f path ih =>
    obtain ⟨hsib, hrest⟩ := h
    refine ⟨hsib, ?_⟩
    cases hred : f.red with
    | true =>
      rw [if_pos hred] at hrest
      exact ⟨hrest.1, hrest.2.1, ih hrest.2.2⟩
    | false =>
      rw [if_neg (by simp [hred])] at hrest
      exact ih hrest

/-- Every node of a tree is at a position. -/
theorem exists_plug {t : ColourTree α} {a : α} (h : a ∈ t.inorder) :
    ∃ path red l r, t = plug path (.node red l a r) := by
  suffices hplug : ∀ path, ∃ path' red l r, plug path t = plug path' (.node red l a r) from hplug []
  induction t with
  | nil => cases h
  | node red l b r ihl ihr =>
    intro path
    rcases List.mem_append.mp h with hl | hr
    · exact ihl hl (⟨.left, red, b, r⟩ :: path)
    · rcases List.mem_cons.mp hr with rfl | hr
      · exact ⟨path, red, l, r, rfl⟩
      · exact ihr hr (⟨.right, red, b, l⟩ :: path)

/-! ### Search -/

/-- Go down to a node that a comparison calls equal, or to the empty position where it would be. -/
def search (f : α → Ordering) : List (Frame α) → ColourTree α → List (Frame α) × ColourTree α
  | path, .nil => (path, .nil)
  | path, .node red l a r =>
    match f a with
    | .lt => search f (⟨.left, red, a, r⟩ :: path) l
    | .gt => search f (⟨.right, red, a, l⟩ :: path) r
    | .eq => (path, .node red l a r)

/-- A comparison follows the order of a tree: behind a node that it does not go past, every node is too large. -/
def Guides (f : α → Ordering) (t : ColourTree α) : Prop := t.inorder.Pairwise fun a b => f a = .gt ∨ f b = .lt

/-- A search ends at a position of the tree. -/
theorem plug_search (f : α → Ordering) (path : List (Frame α)) (t : ColourTree α) :
    plug (search f path t).1 (search f path t).2 = plug path t := by
  induction t generalizing path with
  | nil => rfl
  | node red l a r ihl ihr =>
    rw [search]
    cases f a with
    | lt => exact ihl _
    | gt => exact ihr _
    | eq => rfl

/-- What a search finds is equal to what it looks for. -/
theorem eq_of_root?_search {f : α → Ordering} {path : List (Frame α)} {t : ColourTree α} {a : α}
    (h : (search f path t).2.root? = some a) : f a = .eq := by
  induction t generalizing path with
  | nil => cases h
  | node red l b r ihl ihr =>
    rw [search] at h
    cases hf : f b with
    | lt => rw [hf] at h; exact ihl h
    | gt => rw [hf] at h; exact ihr h
    | eq =>
      rw [hf] at h
      cases h
      exact hf

/-- A guided search passes only nodes that are too small on the left and too large on the right. -/
theorem search_between {f : α → Ordering} {path : List (Frame α)} {t : ColourTree α} (hguides : Guides f (plug path t))
    (hbefore : ∀ b ∈ before path, f b = .gt) (hafter : ∀ b ∈ after path, f b = .lt) :
    (∀ b ∈ before (search f path t).1, f b = .gt) ∧ ∀ b ∈ after (search f path t).1, f b = .lt := by
  induction t generalizing path with
  | nil => exact ⟨hbefore, hafter⟩
  | node red l a r ihl ihr =>
    have hnode : (ColourTree.node red l a r).inorder.Pairwise fun a b => f a = .gt ∨ f b = .lt := by
      rw [Guides, inorder_plug, List.pairwise_append, List.pairwise_append] at hguides
      exact hguides.1.2.1
    rw [inorder, List.pairwise_append, List.pairwise_cons] at hnode
    obtain ⟨-, ⟨hright, -⟩, hleft⟩ := hnode
    rw [search]
    cases hf : f a with
    | lt =>
      refine ihl hguides ?_ fun b hb => ?_
      · simpa [before] using hbefore
      · simp only [after, List.cons_append, List.mem_cons, List.mem_append] at hb
        rcases hb with rfl | hb | hb
        · exact hf
        · exact (hright b hb).resolve_left fun hgt => by simp [hf] at hgt
        · exact hafter b hb
    | gt =>
      refine ihr hguides (fun b hb => ?_) ?_
      · simp only [before, List.mem_append, List.mem_singleton] at hb
        rcases hb with hb | hb | rfl
        · exact hbefore b hb
        · exact (hleft b hb a List.mem_cons_self).resolve_right fun hlt => by simp [hf] at hlt
        · exact hf
      · simpa [after] using hafter
    | eq => exact ⟨hbefore, hafter⟩

end Frame
