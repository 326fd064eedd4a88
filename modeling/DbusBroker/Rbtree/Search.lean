import DbusBroker.Lib.SearchTree
import DbusBroker.Rbtree.Link
import DbusBroker.Rbtree.Unlink

/-!
# Search in c-rbtree

A search follows the child pointers that the comparison of the caller picks. It walks no more
nodes than the tree is deep, so its rounds are bounded by twice the logarithm of the number of
nodes. What it finds is what the search tree of the same entries has under the key, and the
slot it ends at is the one that keeps the order.
-/

namespace DbusBroker.Rbtree

open ColourTree Frame Std

variable {α κ : Type}

/-- The loop of `c_rbtree_find_node`. -/
def cRbtreeFindNodeFrom (f : α → Ordering) : ℕ → Memory α → Option α → Option (Option α)
  | _, _, none => some none
  | 0, _, some _ => none
  | fuel + 1, m, some i =>
    match f i with
    | .lt => cRbtreeFindNodeFrom f fuel m (m.nodes i).left
    | .gt => cRbtreeFindNodeFrom f fuel m (m.nodes i).right
    | .eq => some (some i)

/-- `c_rbtree_find_node`. The comparison is given with its key. -/
def cRbtreeFindNode (f : α → Ordering) (fuel : ℕ) (m : Memory α) : Option (Option α) :=
  cRbtreeFindNodeFrom f fuel m m.root

/-- What `c_rbtree_find_slot` returns: the conflicting node, or the slot to link a node at. -/
inductive FoundSlot (α : Type) where
  | conflict (a : α)
  | slot (s : Option (α × Side))
  deriving DecidableEq, Repr

/-- The pointer in a slot. -/
def Memory.load (m : Memory α) : Option (α × Side) → Option α
  | none => m.root
  | some (p, s) => (m.nodes p).child s

/-- The loop of `c_rbtree_find_slot`. The parent of the slot is the node that the slot is in. -/
def cRbtreeFindSlotFrom (f : α → Ordering) : ℕ → Memory α → Option (α × Side) → Option (FoundSlot α)
  | 0, m, slot =>
    match m.load slot with
    | none => some (.slot slot)
    | some _ => none
  | fuel + 1, m, slot =>
    match m.load slot with
    | none => some (.slot slot)
    | some i =>
      match f i with
      | .lt => cRbtreeFindSlotFrom f fuel m (some (i, .left))
      | .gt => cRbtreeFindSlotFrom f fuel m (some (i, .right))
      | .eq => some (.conflict i)

/-- `c_rbtree_find_slot`. -/
def cRbtreeFindSlot (f : α → Ordering) (fuel : ℕ) (m : Memory α) : Option (FoundSlot α) :=
  cRbtreeFindSlotFrom f fuel m none

/-- The answer of `c_rbtree_find_slot` to the position at which a search ends. -/
def foundSlot (path : List (Frame α)) (t : ColourTree α) : FoundSlot α :=
  match t.root? with
  | none => .slot (slotOf path)
  | some a => .conflict a

/-- The loop follows the search, a node a round. -/
theorem cRbtreeFindNodeFrom_eq {f : α → Ordering} {fuel : ℕ} {m : Memory α} {up : Option α} {t : ColourTree α}
    (path : List (Frame α)) (h : Held m up t) (hfuel : t.depth ≤ fuel) :
    cRbtreeFindNodeFrom f fuel m t.root? = some (search f path t).2.root? := by
  induction t generalizing fuel up path with
  | nil => cases fuel <;> rfl
  | node red l a r ihl ihr =>
    obtain ⟨hnode, hl, hr⟩ := h
    rw [depth] at hfuel
    obtain ⟨fuel, rfl⟩ : ∃ n, fuel = n + 1 := ⟨fuel - 1, by omega⟩
    rw [root?, cRbtreeFindNodeFrom, search, hnode]
    cases f a with
    | lt => exact ihl _ hl (by omega)
    | gt => exact ihr _ hr (by omega)
    | eq => rfl

theorem load_slotOf {m : Memory α} {path : List (Frame α)} {t : ColourTree α} (h : RepresentsAt m path t) :
    m.load (slotOf path) = t.root? := by
  cases path with
  | nil => exact h.frames
  | cons f rest =>
    show (m.nodes f.node).child f.side = _
    rw [h.frames.1, child_cell]

/-- The loop follows the search to the slot it ends at. -/
theorem cRbtreeFindSlotFrom_eq {f : α → Ordering} {fuel : ℕ} {m : Memory α} {path : List (Frame α)}
    {t : ColourTree α} (h : RepresentsAt m path t) (hfuel : t.depth ≤ fuel) :
    cRbtreeFindSlotFrom f fuel m (slotOf path) = some (foundSlot (search f path t).1 (search f path t).2) := by
  induction t generalizing fuel path with
  | nil =>
    have hload := load_slotOf h
    cases fuel <;> (rw [cRbtreeFindSlotFrom, hload]; rfl)
  | node red l a r ihl ihr =>
    have hload := load_slotOf h
    rw [depth] at hfuel
    obtain ⟨fuel, rfl⟩ : ∃ n, fuel = n + 1 := ⟨fuel - 1, by omega⟩
    have hleft : RepresentsAt m (⟨.left, red, a, r⟩ :: path) l := RepresentsAt.down h
    have hright : RepresentsAt m (⟨.right, red, a, l⟩ :: path) r := RepresentsAt.down h
    rw [cRbtreeFindSlotFrom, hload, search]
    dsimp only [root?]
    cases f a with
    | lt => exact ihl hleft (by omega)
    | gt => exact ihr hright (by omega)
    | eq => rfl

/-! ### Registries -/

/-- The objects a registry files: the memory of their nodes, and the keys that are stored in them. -/
structure Objects (κ α : Type) where
  memory : Memory α
  keys : α → κ

/-- The comparison that a registry passes with a key. -/
def Objects.compare (cmp : κ → κ → Ordering) (s : Objects κ α) (k : κ) (a : α) : Ordering := cmp k (s.keys a)

/-- The memory files objects under their keys: it holds a red-black tree of them in key order, and the nodes of other
objects are marked as unlinked. -/
structure FiledBy (cmp : κ → κ → Ordering) (s : Objects κ α) (index : SearchTree cmp α) (t : ColourTree α) :
    Prop where
  represents : Represents s.memory t
  redBlack : t.RedBlack
  entries : index.entries = t.inorder.map fun a => (s.keys a, a)
  unlinked : ∀ a ∉ t.inorder, s.memory.parent a = some a

/-- The memory files the entries of a search tree. -/
def Files (cmp : κ → κ → Ordering) (s : Objects κ α) (index : SearchTree cmp α) : Prop :=
  ∃ t, FiledBy cmp s index t

section

variable {cmp : κ → κ → Ordering} {s : Objects κ α} {index : SearchTree cmp α} {t : ColourTree α}

/-- The entries are the nodes of the tree. -/
theorem FiledBy.values_eq (h : FiledBy cmp s index t) : index.values = t.inorder := by
  rw [SearchTree.values, h.entries, List.map_map]
  exact List.map_id _

theorem FiledBy.length_inorder (h : FiledBy cmp s index t) : t.inorder.length = index.size := by
  rw [SearchTree.size, h.entries, List.length_map]

/-- Two rounds for every doubling of the entries are enough to reach the bottom. -/
theorem FiledBy.depth_le (h : FiledBy cmp s index t) : t.depth ≤ 2 * Nat.log2 (index.size + 1) :=
  h.length_inorder ▸ h.redBlack.depth_le

theorem FiledBy.mem_entries (h : FiledBy cmp s index t) {k : κ} {a : α} :
    (k, a) ∈ index.entries ↔ a ∈ t.inorder ∧ s.keys a = k := by
  rw [h.entries, List.mem_map]
  constructor
  · rintro ⟨b, hb, heq⟩
    cases heq
    exact ⟨hb, rfl⟩
  · rintro ⟨ha, rfl⟩
    exact ⟨a, ha, rfl⟩

variable [TransCmp cmp] [LawfulEqCmp cmp]

/-- A comparison of keys follows the order of the tree. -/
theorem FiledBy.guides (h : FiledBy cmp s index t) (k : κ) : Guides (s.compare cmp k) t := by
  have hsorted := index.sorted
  rw [h.entries, List.pairwise_map] at hsorted
  refine hsorted.imp fun {a b} hab => ?_
  cases hk : cmp k (s.keys a) with
  | lt => exact .inr (TransCmp.lt_trans hk hab)
  | eq =>
    have hka : k = s.keys a := LawfulEqCmp.eq_of_compare hk
    rw [← hka] at hab
    exact .inr hab
  | gt => exact .inl hk

/-- The nodes left of where a search ends have smaller keys, and those right of it larger ones. -/
theorem FiledBy.search_between (h : FiledBy cmp s index t) (k : κ) :
    (∀ b ∈ before (search (s.compare cmp k) [] t).1, cmp k (s.keys b) = .gt) ∧
      ∀ b ∈ after (search (s.compare cmp k) [] t).1, cmp k (s.keys b) = .lt :=
  Frame.search_between (h.guides k) (fun b hb => by cases hb) fun b hb => by cases hb

/-- A search ends at the entry under the key. -/
theorem FiledBy.root?_search (h : FiledBy cmp s index t) (k : κ) :
    (search (s.compare cmp k) [] t).2.root? = index.find? k := by
  have hplug := plug_search (s.compare cmp k) [] t
  rw [plug_nil] at hplug
  cases hroot : (search (s.compare cmp k) [] t).2.root? with
  | some a =>
    have hcompare : s.compare cmp k a = .eq := eq_of_root?_search hroot
    have hk : k = s.keys a := LawfulEqCmp.eq_of_compare hcompare
    refine ((index.find?_eq_some_iff k a).mpr (h.mem_entries.mpr ⟨?_, hk.symm⟩)).symm
    rw [← hplug, inorder_plug]
    simp [mem_inorder_of_root? hroot]
  | none =>
    refine ((index.find?_eq_none_iff k).mpr fun a ha => ?_).symm
    obtain ⟨hmem, rfl⟩ := h.mem_entries.mp ha
    obtain ⟨hbefore, hafter⟩ := h.search_between (s.keys a)
    have hself : cmp (s.keys a) (s.keys a) = .eq := ReflCmp.compare_self
    rw [← hplug, inorder_plug, root?_eq_none_iff.mp hroot] at hmem
    simp only [inorder, List.append_nil, List.mem_append] at hmem
    rcases hmem with hb | hb
    · exact absurd ((hbefore a hb).symm.trans hself) (by decide)
    · exact absurd ((hafter a hb).symm.trans hself) (by decide)

/-- `c_rbtree_find_node` answers with the entry under the key. -/
theorem FiledBy.findNode (h : FiledBy cmp s index t) (k : κ) {fuel : ℕ}
    (hfuel : 2 * Nat.log2 (index.size + 1) ≤ fuel) :
    cRbtreeFindNode (s.compare cmp k) fuel s.memory = some (index.find? k) := by
  rw [cRbtreeFindNode, h.represents.root, ← h.root?_search k]
  exact cRbtreeFindNodeFrom_eq [] h.represents.held (h.depth_le.trans hfuel)

omit [TransCmp cmp] [LawfulEqCmp cmp] in
/-- `c_rbtree_find_slot` ends where the search does. -/
theorem FiledBy.findSlot (h : FiledBy cmp s index t) (k : κ) {fuel : ℕ}
    (hfuel : 2 * Nat.log2 (index.size + 1) ≤ fuel) :
    cRbtreeFindSlot (s.compare cmp k) fuel s.memory =
      some (foundSlot (search (s.compare cmp k) [] t).1 (search (s.compare cmp k) [] t).2) := by
  have hroot : RepresentsAt s.memory [] t := representsAt_iff.mp h.represents
  exact cRbtreeFindSlotFrom_eq hroot (h.depth_le.trans hfuel)

end

end DbusBroker.Rbtree
