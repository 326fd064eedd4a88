import DbusBroker.Rbtree.Memory
import Mathlib.Data.List.Nodup

/-!
# Trees in memory

The memory holds a tree when every node of it has the parent, colour and children that the
tree says, and the root points to the tree itself. The same is said of a path of frames with a
hole below it. A rotation changes a few named nodes, the parent words of the subtrees that
move, and the slot the subtree hangs in; the lemmas below carry everything else over.
-/

namespace DbusBroker.Rbtree

open ColourTree Frame

variable {α : Type}

/-- A node with the child of one side named first. -/
def orient (s : Side) (raw : RawParent α) (flags : CRBFlags) (near far : Option α) : CRBNode α :=
  match s with
  | .left => ⟨raw, flags, near, far⟩
  | .right => ⟨raw, flags, far, near⟩

/-- The parent word of a linked node; the root points to the tree. -/
def word : Option α → RawParent α
  | none => .tree
  | some p => .node p

/-- The contents of a linked node. -/
def cell (s : Side) (up : Option α) (red : Bool) (near far : Option α) : CRBNode α :=
  orient s (word up) ⟨red, up.isNone⟩ near far

/-- The memory holds a tree below a parent. -/
def Held (m : Memory α) : Option α → ColourTree α → Prop
  | _, .nil => True
  | up, .node red l a r =>
    m.nodes a = cell .left up red l.root? r.root? ∧ Held m (some a) l ∧ Held m (some a) r

/-- The node a path ends at. -/
def above (path : List (Frame α)) : Option α := path.head?.map Frame.node

/-- The memory holds the frames of a path, with a pointer in the hole below it. -/
def HeldPath (m : Memory α) : List (Frame α) → Option α → Prop
  | [], hole => m.root = hole
  | f :: rest, hole =>
    m.nodes f.node = cell f.side (above rest) f.red hole f.sibling.root? ∧
      Held m (some f.node) f.sibling ∧ HeldPath m rest (some f.node)

/-- The nodes of the frames of a path. -/
def frameNodes : List (Frame α) → List α
  | [] => []
  | f :: rest => f.node :: f.sibling.inorder ++ frameNodes rest

/-- The memory of a tree: its root, its nodes, and no node twice. -/
structure Represents (m : Memory α) (t : ColourTree α) : Prop where
  root : m.root = t.root?
  held : Held m none t
  nodup : t.inorder.Nodup

/-- The same at a position of the tree. -/
structure RepresentsAt (m : Memory α) (path : List (Frame α)) (t : ColourTree α) : Prop where
  frames : HeldPath m path t.root?
  held : Held m (above path) t
  nodup : (t.inorder ++ frameNodes path).Nodup

/-! ### Nodes -/

@[simp] theorem child_orient (s : Side) (raw : RawParent α) (flags : CRBFlags) (near far : Option α) :
    (orient s raw flags near far).child s = near := by cases s <;> rfl

@[simp] theorem child_other_orient (s : Side) (raw : RawParent α) (flags : CRBFlags) (near far : Option α) :
    (orient s raw flags near far).child s.other = far := by cases s <;> rfl

@[simp] theorem setChild_orient (s : Side) (raw : RawParent α) (flags : CRBFlags) (near far v : Option α) :
    (orient s raw flags near far).setChild s v = orient s raw flags v far := by cases s <;> rfl

@[simp] theorem setChild_other_orient (s : Side) (raw : RawParent α) (flags : CRBFlags) (near far v : Option α) :
    (orient s raw flags near far).setChild s.other v = orient s raw flags near v := by cases s <;> rfl

@[simp] theorem setParent_orient (s : Side) (raw raw' : RawParent α) (flags flags' : CRBFlags)
    (near far : Option α) :
    (orient s raw flags near far).setParent raw' flags' = orient s raw' flags' near far := by cases s <;> rfl

@[simp] theorem flags_orient (s : Side) (raw : RawParent α) (flags : CRBFlags) (near far : Option α) :
    (orient s raw flags near far).flags = flags := by cases s <;> rfl

@[simp] theorem raw_orient (s : Side) (raw : RawParent α) (flags : CRBFlags) (near far : Option α) :
    (orient s raw flags near far).raw = raw := by cases s <;> rfl

@[simp] theorem parent_setChild (s : Side) (n : CRBNode α) (v : Option α) : (n.setChild s v).parent = n.parent := by
  cases s <;> rfl

@[simp] theorem flags_setChild (s : Side) (n : CRBNode α) (v : Option α) : (n.setChild s v).flags = n.flags := by
  cases s <;> rfl

@[simp] theorem flags_setParent (n : CRBNode α) (p : RawParent α) (flags : CRBFlags) :
    (n.setParent p flags).flags = flags := rfl

/-- The parent of a linked node. -/
@[simp] theorem parent_cell (s : Side) (up : Option α) (red : Bool) (near far : Option α) :
    (cell s up red near far).parent = up := by
  cases s <;> cases up <;> rfl

@[simp] theorem flags_cell (s : Side) (up : Option α) (red : Bool) (near far : Option α) :
    (cell s up red near far).flags = ⟨red, up.isNone⟩ := flags_orient ..

@[simp] theorem child_cell (s : Side) (up : Option α) (red : Bool) (near far : Option α) :
    (cell s up red near far).child s = near := child_orient ..

@[simp] theorem child_other_cell (s : Side) (up : Option α) (red : Bool) (near far : Option α) :
    (cell s up red near far).child s.other = far := child_other_orient ..

@[simp] theorem setChild_cell (s : Side) (up : Option α) (red : Bool) (near far v : Option α) :
    (cell s up red near far).setChild s v = cell s up red v far := setChild_orient ..

@[simp] theorem setChild_other_cell (s : Side) (up : Option α) (red : Bool) (near far v : Option α) :
    (cell s up red near far).setChild s.other v = cell s up red near v := setChild_other_orient ..

/-! ### Trees and paths -/

theorem held_oriented {m : Memory α} {s : Side} {up : Option α} {red : Bool} {near far : ColourTree α} {a : α} :
    Held m up (oriented s red near a far) ↔
      m.nodes a = cell s up red near.root? far.root? ∧ Held m (some a) near ∧ Held m (some a) far := by
  cases s
  · rfl
  · exact and_congr_right fun _ => and_comm

@[simp] theorem above_cons (f : Frame α) (rest : List (Frame α)) : above (f :: rest) = some f.node := rfl

@[simp] theorem above_nil : above ([] : List (Frame α)) = none := rfl

theorem perm_oriented (s : Side) (red : Bool) (near : ColourTree α) (a : α) (far : ColourTree α) :
    (oriented s red near a far).inorder.Perm (a :: (near.inorder ++ far.inorder)) := by
  cases s
  · exact List.perm_middle
  · exact List.perm_middle.trans ((List.perm_append_comm).cons a)

/-- No node stands twice in a tree, seen from a side. -/
theorem nodup_oriented {s : Side} {red : Bool} {near far : ColourTree α} {a : α} :
    (oriented s red near a far).inorder.Nodup ↔ (a ∉ near.inorder ∧ a ∉ far.inorder) ∧
      near.inorder.Nodup ∧ far.inorder.Nodup ∧ ∀ b ∈ near.inorder, ∀ c ∈ far.inorder, b ≠ c := by
  rw [(perm_oriented s red near a far).nodup_iff, List.nodup_cons, List.mem_append, not_or, List.nodup_append]

theorem mem_frameNodes_of_above {path : List (Frame α)} {b : α} (h : above path = some b) : b ∈ frameNodes path := by
  cases path with
  | nil => cases h
  | cons f rest =>
    cases h
    simp [frameNodes]

theorem perm_plug (path : List (Frame α)) (t : ColourTree α) :
    (plug path t).inorder.Perm (t.inorder ++ frameNodes path) := by
  induction path generalizing t with
  | nil => simp [frameNodes]
  | cons f rest ih =>
    refine (ih (f.fill t)).trans ?_
    refine ((perm_oriented f.side f.red t f.node f.sibling).append_right _).trans ?_
    simp only [frameNodes, List.cons_append, List.append_assoc]
    exact List.perm_middle.symm

theorem frameNodes_append (path rest : List (Frame α)) : frameNodes (path ++ rest) = frameNodes path ++ frameNodes rest := by
  induction path with
  | nil => rfl
  | cons f path ih => simp [frameNodes, ih]

/-- The root above a position is one of the frames. -/
theorem exists_root_plug (f : Frame α) (rest : List (Frame α)) :
    ∃ b ∈ frameNodes (f :: rest), ∀ t, (plug (f :: rest) t).root? = some b := by
  induction rest generalizing f with
  | nil => exact ⟨f.node, by simp [frameNodes], fun t => root?_oriented ..⟩
  | cons g rest ih =>
    obtain ⟨b, hb, hroot⟩ := ih g
    exact ⟨b, by simp [frameNodes] at hb ⊢; tauto, fun t => hroot (f.fill t)⟩

/-- The memory of a tree, at any of its positions. -/
theorem representsAt_iff {m : Memory α} {path : List (Frame α)} {t : ColourTree α} :
    Represents m (plug path t) ↔ RepresentsAt m path t := by
  have hheld : m.root = (plug path t).root? ∧ Held m none (plug path t) ↔
      HeldPath m path t.root? ∧ Held m (above path) t := by
    induction path generalizing t with
    | nil => exact Iff.rfl
    | cons f rest ih =>
      refine ih.trans ?_
      rw [fill, held_oriented, root?_oriented, HeldPath, above_cons]
      tauto
  have hdup := (perm_plug path t).nodup_iff
  constructor
  · rintro ⟨hroot, hholds, hnodup⟩
    have h := hheld.mp ⟨hroot, hholds⟩
    exact ⟨h.1, h.2, hdup.mp hnodup⟩
  · rintro ⟨hframes, hholds, hnodup⟩
    have h := hheld.mpr ⟨hframes, hholds⟩
    exact ⟨h.1, h.2, hdup.mpr hnodup⟩

/-- A tree is held as long as its nodes stay as they are. -/
theorem Held.congr {m m' : Memory α} {up : Option α} {t : ColourTree α} (h : Held m up t)
    (hsame : ∀ b ∈ t.inorder, m'.nodes b = m.nodes b) : Held m' up t := by
  induction t generalizing up with
  | nil => trivial
  | node red l a r ihl ihr =>
    refine ⟨(hsame a (by simp [inorder])).trans h.1, ihl h.2.1 fun b hb => hsame b ?_, ihr h.2.2 fun b hb => hsame b ?_⟩
    · simp [inorder, hb]
    · simp [inorder, hb]

/-- A tree whose root gets another parent and colour is held there. -/
theorem Held.hang {m m' : Memory α} {up up' : Option α} {red : Bool} {t : ColourTree α} (h : Held m up t)
    (k : CRBFlags → CRBFlags) (hnodup : t.inorder.Nodup) (hk : k ⟨t.isRed, up.isNone⟩ = ⟨red, up'.isNone⟩)
    (hroot : ∀ a, t.root? = some a → m'.nodes a = (m.nodes a).setParent (word up') (k (m.nodes a).flags))
    (hrest : ∀ b ∈ t.inorder, t.root? ≠ some b → m'.nodes b = m.nodes b) : Held m' up' (t.paint red) := by
  cases t with
  | nil => trivial
  | node c l a r =>
    rw [inorder, List.nodup_middle, List.nodup_cons, List.mem_append, not_or] at hnodup
    refine ⟨?_, h.2.1.congr fun b hb => hrest b ?_ ?_, h.2.2.congr fun b hb => hrest b ?_ ?_⟩
    · rw [hroot a rfl, h.1, flags_cell]
      rw [isRed] at hk
      rw [hk, cell, setParent_orient]
      rfl
    · simp [inorder, hb]
    · rintro ⟨⟩
      exact hnodup.1.1 hb
    · simp [inorder, hb]
    · rintro ⟨⟩
      exact hnodup.1.2 hb

/-- The slot a path ends in gets another pointer. -/
structure Rehung (m m' : Memory α) (path : List (Frame α)) (new : Option α) : Prop where
  frame : ∀ f rest, path = f :: rest → m'.nodes f.node = (m.nodes f.node).setChild f.side new
  root : m'.root = if path = [] then new else m.root

theorem HeldPath.congr {m m' : Memory α} {path : List (Frame α)} {hole : Option α} (h : HeldPath m path hole)
    (hroot : m'.root = m.root) (hsame : ∀ b ∈ frameNodes path, m'.nodes b = m.nodes b) : HeldPath m' path hole := by
  induction path generalizing hole with
  | nil => exact hroot.trans h
  | cons f rest ih =>
    refine ⟨(hsame f.node (by simp [frameNodes])).trans h.1, h.2.1.congr fun b hb => hsame b ?_,
      ih h.2.2 fun b hb => hsame b ?_⟩
    · simp [frameNodes, hb]
    · simp [frameNodes, hb]

/-- A path is held with the pointer its slot gets. -/
theorem HeldPath.rehang {m m' : Memory α} {path : List (Frame α)} {hole new : Option α} (h : HeldPath m path hole)
    (hnodup : (frameNodes path).Nodup) (hnew : Rehung m m' path new)
    (hrest : ∀ b ∈ frameNodes path, above path ≠ some b → m'.nodes b = m.nodes b) : HeldPath m' path new := by
  cases path with
  | nil => exact hnew.root
  | cons f rest =>
    have hroot := hnew.root
    rw [if_neg (List.cons_ne_nil f rest)] at hroot
    simp only [frameNodes, List.cons_append, List.nodup_cons, List.mem_append, not_or] at hnodup
    refine ⟨?_, h.2.1.congr fun b hb => hrest b ?_ ?_, h.2.2.congr hroot fun b hb => hrest b ?_ ?_⟩
    · rw [hnew.frame f rest rfl, h.1, setChild_cell]
    · simp [frameNodes, hb]
    · rintro ⟨⟩
      exact hnodup.1.1 hb
    · simp [frameNodes, hb]
    · rintro ⟨⟩
      exact hnodup.1.2 hb

/-! ### Memory -/

variable [DecidableEq α]

@[simp] theorem nodes_modify (m : Memory α) (a b : α) (f : CRBNode α → CRBNode α) :
    (m.modify a f).nodes b = if b = a then f (m.nodes a) else m.nodes b := Function.update_apply ..

@[simp] theorem root_modify (m : Memory α) (a : α) (f : CRBNode α → CRBNode α) : (m.modify a f).root = m.root := rfl

@[simp] theorem nodes_setParentIf (m : Memory α) (x : Option α) (p : RawParent α) (flags : CRBFlags → CRBFlags)
    (b : α) : (m.setParentIf x p flags).nodes b =
      if x = some b then (m.nodes b).setParent p (flags (m.nodes b).flags) else m.nodes b := by
  cases x with
  | none => rfl
  | some a =>
    simp only [Memory.setParentIf, Memory.setParentAndFlags, nodes_modify, Option.some.injEq]
    by_cases hba : b = a
    · rw [if_pos hba, if_pos hba.symm, hba]
    · rw [if_neg hba, if_neg (Ne.symm hba)]

@[simp] theorem root_setParentIf (m : Memory α) (x : Option α) (p : RawParent α) (flags : CRBFlags → CRBFlags) :
    (m.setParentIf x p flags).root = m.root := by cases x <;> rfl

@[simp] theorem nodes_store (m : Memory α) (s : Side) (n b : α) (v : Option α) :
    (m.store s n v).nodes b = if b = n then (m.nodes n).setChild s v else m.nodes b := nodes_modify ..

@[simp] theorem root_store (m : Memory α) (s : Side) (n : α) (v : Option α) : (m.store s n v).root = m.root := rfl

@[simp] theorem nodes_setParentAndFlags (m : Memory α) (n b : α) (p : RawParent α) (flags : CRBFlags → CRBFlags) :
    (m.setParentAndFlags n p flags).nodes b =
      if b = n then (m.nodes n).setParent p (flags (m.nodes n).flags) else m.nodes b := nodes_modify ..

@[simp] theorem root_setParentAndFlags (m : Memory α) (n : α) (p : RawParent α) (flags : CRBFlags → CRBFlags) :
    (m.setParentAndFlags n p flags).root = m.root := rfl

@[simp] theorem pushRoot_false (m : Memory α) (n : Option α) : m.pushRoot n false = m := rfl

@[simp] theorem nodes_pushRoot (m : Memory α) (n : Option α) (b : α) : (m.pushRoot n true).nodes b =
    if n = some b then (m.nodes b).setParent .tree { (m.nodes b).flags with root := true } else m.nodes b :=
  nodes_setParentIf ..

@[simp] theorem root_pushRoot (m : Memory α) (n : Option α) : (m.pushRoot n true).root = n := rfl

/-- A node below another is popped as it is. -/
theorem popRoot_of_root_false {m : Memory α} {n : α} (h : (m.nodes n).flags.root = false) :
    m.popRoot n = (false, m) := by
  rw [Memory.popRoot, if_neg (by simp [h])]

/-- The root loses its pointer to the tree. -/
theorem popRoot_of_root {m : Memory α} {n : α} (h : (m.nodes n).flags.root = true) :
    m.popRoot n = (true, m.setParentAndFlags n .null fun flags => { flags with root := false }) := by
  rw [Memory.popRoot, if_pos h]

/-- Without a parent there is no slot to change. -/
theorem swapChild_of_none {m : Memory α} {old : α} {new : Option α} (h : m.parent old = none) :
    m.swapChild old new = m := by
  rw [Memory.swapChild, h]

/-- The side of a child is found by the left pointer of its parent. -/
theorem sideOf_eq {m : Memory α} {p : α} {s : Side} {up : Option α} {red : Bool} {near far : Option α}
    (h : m.nodes p = cell s up red near far) (hne : far ≠ near) : m.sideOf p near = s := by
  rw [Memory.sideOf, h]
  cases s with
  | left => exact if_pos rfl
  | right => exact if_neg hne

/-- The slot of a node in the frame above it. -/
theorem swapChild_of_frame {m : Memory α} {old : α} {new : Option α} (f : Frame α) (rest : List (Frame α))
    (h : m.parent old = some f.node)
    (hcell : m.nodes f.node = cell f.side (above rest) f.red (some old) f.sibling.root?)
    (hne : f.sibling.root? ≠ some old) : m.swapChild old new = m.store f.side f.node new := by
  rw [Memory.swapChild, h]
  show m.store (m.sideOf f.node (some old)) f.node new = _
  rw [sideOf_eq hcell hne]

/-- The slot of a path before the node in it is replaced. -/
structure Slot (m : Memory α) (path : List (Frame α)) (g : α) : Prop where
  frame : ∀ f rest, path = f :: rest →
    m.nodes f.node = cell f.side (above rest) f.red (some g) f.sibling.root? ∧ f.sibling.root? ≠ some g ∧ f.node ≠ g
  root : path = [] → m.root = some g

omit [DecidableEq α] in
/-- A path is held with a node in its slot. -/
theorem HeldPath.slot {m : Memory α} {path : List (Frame α)} {g : α} (h : HeldPath m path (some g))
    (hg : g ∉ frameNodes path) : Slot m path g := by
  constructor
  · rintro f rest rfl
    simp only [frameNodes, List.cons_append, List.mem_cons, List.mem_append, not_or] at hg
    exact ⟨h.1, fun hroot => hg.2.1 (mem_inorder_of_root? hroot), Ne.symm hg.1⟩
  · rintro rfl
    exact h

omit [DecidableEq α] in
/-- The memory of the node at a position. -/
theorem RepresentsAt.nodes_root {m : Memory α} {path : List (Frame α)} {t : ColourTree α} {n : α}
    (h : RepresentsAt m path t) (hroot : t.root? = some n) (s : Side) :
    ∃ near far, t = oriented s t.isRed near n far ∧
      m.nodes n = cell s (above path) t.isRed near.root? far.root? := by
  obtain ⟨near, far, ht⟩ := exists_oriented s hroot
  have hheld := h.held
  rw [ht] at hheld
  exact ⟨near, far, ht, (held_oriented.mp hheld).1⟩

omit [DecidableEq α] in
theorem RepresentsAt.parent_root {m : Memory α} {path : List (Frame α)} {t : ColourTree α} {n : α}
    (h : RepresentsAt m path t) (hroot : t.root? = some n) : m.parent n = above path := by
  obtain ⟨near, far, -, hn⟩ := h.nodes_root hroot .left
  rw [Memory.parent, hn, parent_cell]

omit [DecidableEq α] in
theorem RepresentsAt.isRed_root {m : Memory α} {path : List (Frame α)} {t : ColourTree α} {n : α}
    (h : RepresentsAt m path t) (hroot : t.root? = some n) : m.isRed n = t.isRed := by
  obtain ⟨near, far, -, hn⟩ := h.nodes_root hroot .left
  rw [Memory.isRed, hn, flags_cell]

omit [DecidableEq α] in
theorem RepresentsAt.up {m : Memory α} {f : Frame α} {rest : List (Frame α)} {t : ColourTree α}
    (h : RepresentsAt m (f :: rest) t) : RepresentsAt m rest (f.fill t) := by
  have hwhole : Represents m (plug (f :: rest) t) := representsAt_iff.mpr h
  exact representsAt_iff.mp hwhole

omit [DecidableEq α] in
theorem RepresentsAt.down {m : Memory α} {f : Frame α} {rest : List (Frame α)} {t : ColourTree α}
    (h : RepresentsAt m rest (f.fill t)) : RepresentsAt m (f :: rest) t := by
  have hwhole : Represents m (plug rest (f.fill t)) := representsAt_iff.mpr h
  exact representsAt_iff.mp hwhole

omit [DecidableEq α] in
theorem RepresentsAt.up_append {m : Memory α} {path rest : List (Frame α)} {t : ColourTree α}
    (h : RepresentsAt m (path ++ rest) t) : RepresentsAt m rest (plug path t) := by
  have hwhole : Represents m (plug (path ++ rest) t) := representsAt_iff.mpr h
  rw [plug_append] at hwhole
  exact representsAt_iff.mp hwhole

omit [DecidableEq α] in
theorem RepresentsAt.down_append {m : Memory α} {path rest : List (Frame α)} {t : ColourTree α}
    (h : RepresentsAt m rest (plug path t)) : RepresentsAt m (path ++ rest) t := by
  have hwhole : Represents m (plug rest (plug path t)) := representsAt_iff.mpr h
  rw [← plug_append] at hwhole
  exact representsAt_iff.mp hwhole

omit [DecidableEq α] in
theorem RepresentsAt.isRed_frame {m : Memory α} {f : Frame α} {rest : List (Frame α)} {t : ColourTree α}
    (h : RepresentsAt m (f :: rest) t) : m.isRed f.node = f.red := by
  rw [h.up.isRed_root (root?_oriented ..), fill, isRed_oriented]

omit [DecidableEq α] in
/-- The colour of a subtree that may be missing. -/
theorem Held.isBlackOrNull {m : Memory α} {up : Option α} {t : ColourTree α} (h : Held m up t) :
    m.isBlackOrNull t.root? = !t.isRed := by
  cases t with
  | nil => rfl
  | node red l a r =>
    show (!(m.nodes a).flags.red) = _
    rw [h.1, flags_cell]
    rfl

omit [DecidableEq α] in
/-- The memory of the node above a position. Its other child is not the one at the position. -/
theorem RepresentsAt.nodes_frame {m : Memory α} {f : Frame α} {rest : List (Frame α)} {t : ColourTree α}
    (h : RepresentsAt m (f :: rest) t) :
    m.nodes f.node = cell f.side (above rest) f.red t.root? f.sibling.root? ∧
      (f.sibling.root? = t.root? → t.root? = none) := by
  refine ⟨h.frames.1, fun heq => ?_⟩
  cases hroot : t.root? with
  | none => rfl
  | some n =>
    have hsib : n ∈ f.sibling.inorder := mem_inorder_of_root? (heq.trans hroot)
    exact absurd rfl ((List.nodup_append.mp h.nodup).2.2 n (mem_inorder_of_root? hroot) n (by simp [frameNodes, hsib]))

/-- A subtree is rewritten in memory: it is held at its position, and only its own nodes and those above it changed. -/
structure Rewrites (m m' : Memory α) (path : List (Frame α)) (t : ColourTree α) : Prop where
  holds : RepresentsAt m' path t
  outside : ∀ b, b ∉ t.inorder → b ∉ frameNodes path → m'.nodes b = m.nodes b

omit [DecidableEq α] in
theorem Rewrites.refl {m : Memory α} {path : List (Frame α)} {t : ColourTree α} (h : RepresentsAt m path t) :
    Rewrites m m path t := ⟨h, fun _ _ _ => rfl⟩

omit [DecidableEq α] in
theorem Rewrites.trans {m m₁ m' : Memory α} {path : List (Frame α)} {t t' : ColourTree α} (h : Rewrites m m₁ path t)
    (h' : Rewrites m₁ m' path t') (hsub : t.inorder ⊆ t'.inorder) : Rewrites m m' path t' :=
  ⟨h'.holds, fun b hb hpath => (h'.outside b hb hpath).trans (h.outside b (fun hmem => hb (hsub hmem)) hpath)⟩

/-- The memory holds a red-black tree of a given order, and the nodes outside of a scope are as before. -/
def Restores (m m' : Memory α) (scope order : List α) : Prop :=
  ∃ t, Represents m' t ∧ t.RedBlack ∧ t.inorder = order ∧ ∀ b ∉ scope, m'.nodes b = m.nodes b

omit [DecidableEq α] in
/-- A subtree that its position admits makes the whole a red-black tree again. -/
theorem Rewrites.restores {m m' : Memory α} {path : List (Frame α)} {t t' : ColourTree α} {k : ℕ}
    (h : Rewrites m m' path t') (ht : t'.Coloured k) (hpath : Admits path t'.isRed k)
    (horder : t'.inorder = t.inorder) : Restores m m' (plug path t).inorder (plug path t).inorder := by
  refine ⟨plug path t', representsAt_iff.mpr h.holds, hpath.redBlack ht, inorder_plug_congr horder, fun b hb => ?_⟩
  rw [(perm_plug path t).mem_iff, List.mem_append, not_or] at hb
  exact h.outside b (horder ▸ hb.1) hb.2

omit [DecidableEq α] in
theorem Restores.trans {m m₁ m' : Memory α} {scope scope' order : List α} (h : Restores m₁ m' scope order)
    (hscope : scope ⊆ scope') (hsame : ∀ b ∉ scope', m₁.nodes b = m.nodes b) : Restores m m' scope' order := by
  obtain ⟨t, ht, hcol, horder, hout⟩ := h
  exact ⟨t, ht, hcol, horder, fun b hb => (hout b fun hmem => hb (hscope hmem)).trans (hsame b hb)⟩

omit [DecidableEq α] in
/-- A node inside of the subtree was rewritten as well. -/
theorem Rewrites.up {m m' : Memory α} {f : Frame α} {rest : List (Frame α)} {t : ColourTree α}
    (h : Rewrites m m' (f :: rest) t) : Rewrites m m' rest (f.fill t) := by
  refine ⟨h.holds.up, fun b hb hrest => h.outside b (fun ht => hb ?_) fun hpath => ?_⟩
  · exact mem_inorder_oriented.mpr (.inr (.inl ht))
  · rw [frameNodes, List.cons_append, List.mem_cons, List.mem_append] at hpath
    rcases hpath with heq | hsib | hin
    · exact hb (mem_inorder_oriented.mpr (.inl heq))
    · exact hb (mem_inorder_oriented.mpr (.inr (.inr hsib)))
    · exact hrest hin

/-- The root of a subtree gets another colour in memory. -/
theorem RepresentsAt.repaint {m : Memory α} {path : List (Frame α)} {t : ColourTree α} {n : α}
    (h : RepresentsAt m path t) (hroot : t.root? = some n) {raw : RawParent α} (hraw : raw = word (above path))
    (k : CRBFlags → CRBFlags) {red : Bool} (hk : ∀ flags, k flags = ⟨red, flags.root⟩) :
    Rewrites m (m.setParentAndFlags n raw k) path (t.paint red) := by
  have hmem := mem_inorder_of_root? hroot
  have hnodup := List.nodup_append.mp h.nodup
  refine ⟨⟨?_, h.held.hang k hnodup.1 (hk _) (fun b hb => ?_) fun b hb hne => ?_, ?_⟩, fun b hb hpath => ?_⟩
  · rw [root?_paint]
    refine h.frames.congr rfl fun b hb => ?_
    have hbn : b ≠ n := fun heq => hnodup.2.2 n hmem b hb heq.symm
    simp [hbn]
  · rw [hroot] at hb
    cases hb
    simp [hraw]
  · have hbn : b ≠ n := fun heq => hne (by rw [hroot, heq])
    simp [hbn]
  · rw [inorder_paint]
    exact h.nodup
  · rw [inorder_paint] at hb
    have hbn : b ≠ n := fun heq => hb (heq ▸ hmem)
    simp [hbn]

end DbusBroker.Rbtree
