import DbusBroker.Lib.RedBlack
import Mathlib.Logic.Function.Basic

/-!
# The nodes of c-rbtree in memory

Trees are embedded in the objects they file, so a node is its address and its fields are the
memory at that address. The parent word of a node also holds its colour and, at the root, a
flag that turns it into a pointer to the tree. Every function below is the sequence of loads
and stores of its source; a load through NULL and a failed assertion are `none`, and loops
have a bound on their rounds. Where the source spells a branch out for the left side and
mirrors it for the right one, the branch is written once, for the side it is taken on.
-/

namespace DbusBroker.Rbtree

/-- What the parent word of a node points to, without its flags. -/
inductive RawParent (α : Type) where
  | null
  | node (a : α)
  | tree
  deriving DecidableEq, Repr

/-- The flags in the parent word: `C_RBNODE_RED` and `C_RBNODE_ROOT`. -/
structure CRBFlags where
  red : Bool
  root : Bool
  deriving DecidableEq, Repr

/-- `CRBNode`. -/
structure CRBNode (α : Type) where
  raw : RawParent α
  flags : CRBFlags
  left : Option α
  right : Option α
  deriving DecidableEq, Repr

/-- The memory of all nodes, and the `root` of the `CRBTree`. -/
structure Memory (α : Type) where
  nodes : α → CRBNode α
  root : Option α

/-- A pointer to a node as a parent word. -/
def RawParent.ofNode {α : Type} : Option α → RawParent α
  | none => .null
  | some a => .node a

variable {α : Type} [DecidableEq α]

namespace CRBNode

/-- The child of a node on one side. -/
def child (s : Side) (n : CRBNode α) : Option α :=
  match s with
  | .left => n.left
  | .right => n.right

/-- `c_rbtree_store` to the child on one side. -/
def setChild (s : Side) (v : Option α) (n : CRBNode α) : CRBNode α :=
  match s with
  | .left => { n with left := v }
  | .right => { n with right := v }

/-- A store to the parent word. -/
def setParent (p : RawParent α) (flags : CRBFlags) (n : CRBNode α) : CRBNode α := { n with raw := p, flags := flags }

/-- `c_rbnode_parent`. -/
def parent (n : CRBNode α) : Option α :=
  if n.flags.root then none
  else match n.raw with
    | .node a => some a
    | _ => none

end CRBNode

namespace Memory

/-- Rewrite one node. -/
def modify (m : Memory α) (a : α) (f : CRBNode α → CRBNode α) : Memory α :=
  { m with nodes := Function.update m.nodes a (f (m.nodes a)) }

/-- `c_rbnode_parent`. -/
def parent (m : Memory α) (n : α) : Option α := (m.nodes n).parent

/-- `c_rbnode_is_red`. -/
def isRed (m : Memory α) (n : α) : Bool := (m.nodes n).flags.red

/-- `c_rbnode_is_linked`, for a node that is not NULL. -/
def isLinked (m : Memory α) (n : α) : Bool := m.parent n != some n

/-- The pointer is NULL or to a black node. -/
def isBlackOrNull (m : Memory α) : Option α → Bool
  | none => true
  | some n => !m.isRed n

/-- `c_rbtree_store` to a child slot of a node. -/
def store (m : Memory α) (s : Side) (n : α) (v : Option α) : Memory α := m.modify n (CRBNode.setChild s v)

/-- `c_rbnode_set_parent_and_flags`, with flags that are made from those of the node. -/
def setParentAndFlags (m : Memory α) (n : α) (p : RawParent α) (flags : CRBFlags → CRBFlags) : Memory α :=
  m.modify n fun x => x.setParent p (flags x.flags)

/-- `c_rbnode_set_parent_and_flags` of a node unless it is NULL. -/
def setParentIf (m : Memory α) (n : Option α) (p : RawParent α) (flags : CRBFlags → CRBFlags) : Memory α :=
  match n with
  | none => m
  | some n => m.setParentAndFlags n p flags

/-- `c_rbnode_pop_root`: whether the node was the root, which it no longer is. -/
def popRoot (m : Memory α) (n : α) : Bool × Memory α :=
  if (m.nodes n).flags.root then
    (true, m.setParentAndFlags n .null fun flags => { flags with root := false })
  else (false, m)

/-- `c_rbnode_push_root`. -/
def pushRoot (m : Memory α) (n : Option α) (t : Bool) : Memory α :=
  if t then { m.setParentIf n .tree fun flags => { flags with root := true } with root := n } else m

/-- The side of its parent that a node is on, as tests like `p == g->left` find it. -/
def sideOf (m : Memory α) (p : α) (n : Option α) : Side := if (m.nodes p).left = n then .left else .right

/-- `c_rbnode_swap_child`. -/
def swapChild (m : Memory α) (old : α) (new : Option α) : Memory α :=
  match m.parent old with
  | none => m
  | some p => m.store (m.sideOf p (some old)) p new

end Memory

/-- The flags with `C_RBNODE_RED` cleared. -/
def CRBFlags.toBlack (flags : CRBFlags) : CRBFlags := { flags with red := false }

/-- The flags with `C_RBNODE_RED` set. -/
def CRBFlags.toRed (flags : CRBFlags) : CRBFlags := { flags with red := true }

/-- The flags with another colour. -/
def CRBFlags.withRed (red : Bool) (flags : CRBFlags) : CRBFlags := { flags with red := red }

/-! ### Adding a node -/

/-- The rotation of `c_rbtree_paint_terminal` on the parent, for a node on the inner side of it. -/
def cRbtreePaintInner (m : Memory α) (s : Side) (p n : α) : Memory α :=
  let x := (m.nodes n).child s
  let m := m.store s.other p x
  let m := m.store s n (some p)
  let m := m.setParentIf x (.node p) id
  m.setParentAndFlags p (.node n) id

/-- The rotation of `c_rbtree_paint_terminal` on the grandparent. -/
def cRbtreePaintOuter (m : Memory α) (s : Side) (p g : α) (gg : Option α) : Memory α :=
  let x := (m.nodes p).child s.other
  let (t, m) := m.popRoot g
  let m := m.store s g x
  let m := m.store s.other p (some g)
  let m := m.swapChild g (some p)
  let m := m.setParentIf x (.node g) CRBFlags.toBlack
  let m := m.setParentAndFlags p (.ofNode gg) CRBFlags.toBlack
  let m := m.setParentAndFlags g (.node p) CRBFlags.toRed
  m.pushRoot (some p) t

/-- `c_rbtree_paint_terminal`. -/
def cRbtreePaintTerminal (m : Memory α) (n : α) : Option (Memory α) := do
  let p ← m.parent n
  let g ← m.parent p
  let gg := m.parent g
  guard (m.isRed p ∧ m.isRed g = false)
  guard ((m.nodes g).left = some p ∨ m.isBlackOrNull (m.nodes g).left)
  guard ((m.nodes g).right = some p ∨ m.isBlackOrNull (m.nodes g).right)
  let s := m.sideOf g (some p)
  if (m.nodes p).child s.other = some n then
    -- the node stands for its old parent from here on
    return cRbtreePaintOuter (cRbtreePaintInner m s p n) s n g gg
  else return cRbtreePaintOuter m s p g gg

/-- `c_rbtree_paint_path`. -/
def cRbtreePaintPath : ℕ → Memory α → α → Option (Memory α × Option α)
  | 0, _, _ => none
  | fuel + 1, m, n =>
    match m.parent n with
    | none => some (m.setParentAndFlags n (m.nodes n).raw CRBFlags.toBlack, none)
    | some p =>
      if m.isRed p then do
        let g ← m.parent p
        match (m.nodes g).child (m.sideOf g (some p)).other with
        | none => some (m, some n)
        | some u =>
          if m.isRed u then
            let m := m.setParentAndFlags p (.node g) CRBFlags.toBlack
            let m := m.setParentAndFlags u (.node g) CRBFlags.toBlack
            let m := m.setParentAndFlags g (m.nodes g).raw CRBFlags.toRed
            cRbtreePaintPath fuel m g
          else some (m, some n)
      else some (m, none)

/-- `c_rbtree_paint`. -/
def cRbtreePaint (fuel : ℕ) (m : Memory α) (n : α) : Option (Memory α) := do
  let (m, n) ← cRbtreePaintPath fuel m n
  match n with
  | none => some m
  | some n => cRbtreePaintTerminal m n

/-- The store of a fresh node that `c_rbtree_add` and `c_rbnode_link` begin with. -/
def Memory.initNode (m : Memory α) (n : α) (p : Option α) : Memory α :=
  let m := m.setParentAndFlags n (.ofNode p) fun _ => ⟨true, false⟩
  let m := m.store .left n none
  m.store .right n none

/-- `c_rbtree_add`. The slot is a side of the parent, or the root of the tree. -/
def cRbtreeAdd (fuel : ℕ) (m : Memory α) (slot : Option (α × Side)) (n : α) : Option (Memory α) :=
  match slot with
  | some (p, s) => cRbtreePaint fuel ((m.initNode n (some p)).store s p (some n)) n
  | none => cRbtreePaint fuel ((m.initNode n none).pushRoot (some n) true) n

/-! ### Removing a node -/

/-- The rotation of case 2 of `c_rbnode_rebalance_terminal`: a red sibling is moved onto the short side. Its new
sibling is returned. -/
def cRbnodeRebalanceRed (m : Memory α) (s : Side) (p sibling : α) : Option (Memory α × α) := do
  let (t, m) := m.popRoot p
  let g := m.parent p
  let x ← (m.nodes sibling).child s
  let m := m.store s.other p (some x)
  let m := m.store s sibling (some p)
  let m := m.swapChild p (some sibling)
  let m := m.setParentAndFlags x (.node p) CRBFlags.toBlack
  let m := m.setParentAndFlags sibling (.ofNode g) CRBFlags.toBlack
  let m := m.setParentAndFlags p (.node sibling) CRBFlags.toRed
  return (m.pushRoot (some sibling) t, x)

/-- Case 6 of `c_rbnode_rebalance_terminal`. The child of the sibling that is turned black is given. -/
def cRbnodeRebalanceRotate (m : Memory α) (s : Side) (p sibling x : α) : Memory α :=
  let (t, m) := m.popRoot p
  let g := m.parent p
  let y := (m.nodes sibling).child s
  let m := m.store s.other p y
  let m := m.store s sibling (some p)
  let m := m.swapChild p (some sibling)
  let m := m.setParentAndFlags x (.node sibling) CRBFlags.toBlack
  let m := m.setParentIf y (.node p) id
  let m := m.setParentAndFlags sibling (.ofNode g) fun _ => (m.nodes p).flags
  let m := m.setParentAndFlags p (.node sibling) CRBFlags.toBlack
  m.pushRoot (some sibling) t

/-- Case 5 of `c_rbnode_rebalance_terminal`, which goes on with case 6. -/
def cRbnodeRebalanceInner (m : Memory α) (s : Side) (p sibling y : α) : Memory α :=
  let x := (m.nodes y).child s.other
  let m := m.store s sibling x
  let m := m.store s.other y (some sibling)
  let m := m.store s.other p (some y)
  m.setParentIf x (.node sibling) CRBFlags.toBlack

/-- The cases 3 to 6 of `c_rbnode_rebalance_terminal`, with a black sibling. -/
def cRbnodeRebalanceBlack (m : Memory α) (s : Side) (p sibling : α) : Option (Memory α) := do
  let x := (m.nodes sibling).child s.other
  if m.isBlackOrNull x then
    let y := (m.nodes sibling).child s
    if m.isBlackOrNull y then
      guard (m.isRed p)
      let m := m.setParentAndFlags sibling (.node p) CRBFlags.toRed
      return m.setParentAndFlags p (.ofNode (m.parent p)) CRBFlags.toBlack
    else
      let y ← y
      return cRbnodeRebalanceRotate (cRbnodeRebalanceInner m s p sibling y) s p y sibling
  else
    let x ← x
    return cRbnodeRebalanceRotate m s p sibling x

/-- `c_rbnode_rebalance_terminal`. -/
def cRbnodeRebalanceTerminal (m : Memory α) (p : α) (previous : Option α) : Option (Memory α) := do
  let s := m.sideOf p previous
  let sibling ← (m.nodes p).child s.other
  let (m, sibling) ← if m.isRed sibling then cRbnodeRebalanceRed m s p sibling else some (m, sibling)
  cRbnodeRebalanceBlack m s p sibling

/-- `c_rbnode_rebalance_path`: the node where a rotation is needed, and the child of it that is short. -/
def cRbnodeRebalancePath : ℕ → Memory α → Option α → Option α → Option (Memory α × Option (α × Option α))
  | 0, _, _, _ => none
  | _ + 1, m, none, _ => some (m, none)
  | fuel + 1, m, some p, previous => do
    let s ← (m.nodes p).child (m.sideOf p previous).other
    let nl := (m.nodes s).left
    let nr := (m.nodes s).right
    if m.isRed s ∨ m.isBlackOrNull nl = false ∨ m.isBlackOrNull nr = false then
      some (m, some (p, previous))
    else
      let m := m.setParentAndFlags s (.node p) CRBFlags.toRed
      if m.isRed p then
        some (m.setParentAndFlags p (.ofNode (m.parent p)) CRBFlags.toBlack, none)
      else cRbnodeRebalancePath fuel m (m.parent p) (some p)

/-- `c_rbnode_rebalance`. -/
def cRbnodeRebalance (fuel : ℕ) (m : Memory α) (n : Option α) : Option (Memory α) := do
  let (m, stop) ← cRbnodeRebalancePath fuel m n none
  match stop with
  | none => some m
  | some (n, previous) => cRbnodeRebalanceTerminal m n previous

/-- The loop of `c_rbnode_leftmost` and, on the other side, of `c_rbnode_rightmost`. -/
def cRbnodeOutermost (s : Side) : ℕ → Memory α → α → Option α
  | 0, _, _ => none
  | fuel + 1, m, n =>
    match (m.nodes n).child s with
    | none => some n
    | some c => cRbnodeOutermost s fuel m c

/-- `c_rbnode_leftmost` of a node. -/
def cRbnodeLeftmost (fuel : ℕ) (m : Memory α) (n : α) : Option α := cRbnodeOutermost .left fuel m n

/-- The replacement of a node by its only child, as in the cases 1.1 and 1.2 of `c_rbnode_unlink_stale`. -/
def cRbnodeReplaceByChild (m : Memory α) (n c : α) : Memory α :=
  let (t, m) := m.popRoot n
  let m := m.swapChild n (some c)
  let m := m.setParentAndFlags c (.ofNode (m.parent n)) CRBFlags.toBlack
  m.pushRoot (some c) t

/-- The search of case 1.3 of `c_rbnode_unlink_stale` for the successor: the successor, its parent once the node is
gone, and its child. -/
def cRbnodeDetachSuccessor (fuel : ℕ) (m : Memory α) (right : α) : Option (Memory α × α × α × Option α) :=
  match (m.nodes right).left with
  | none => some (m, right, right, (m.nodes right).right)
  | some _ => do
    let s ← cRbnodeLeftmost fuel m right
    let p ← m.parent s
    let c := (m.nodes s).right
    let m := m.store .left p c
    let m := m.store .right s (some right)
    return (m.setParentAndFlags right (.node s) id, s, p, c)

/-- The rest of case 1.3: the successor takes the place of the node. The node to rebalance on is returned as well. -/
def cRbnodeReplaceBySuccessor (m : Memory α) (t : Bool) (n l s p : α) (c : Option α) : Memory α × Option α :=
  let m := m.store .left s (some l)
  let m := m.setParentAndFlags l (.node s) id
  let next := if c.isNone ∧ m.isRed s = false then some p else none
  let m := m.setParentIf c (.node p) CRBFlags.toBlack
  let m := m.setParentAndFlags s (.ofNode (m.parent n)) (CRBFlags.withRed (m.isRed n))
  let m := m.swapChild n (some s)
  (m.pushRoot (some s) t, next)

/-- `c_rbnode_unlink_stale`. -/
def cRbnodeUnlinkStale (fuel : ℕ) (m : Memory α) (n : α) : Option (Memory α) := do
  guard (m.isLinked n)
  match (m.nodes n).left, (m.nodes n).right with
  | none, none =>
    let (t, m) := m.popRoot n
    let m := m.swapChild n none
    let m := m.pushRoot none t
    if m.isRed n then return m else cRbnodeRebalance fuel m (m.parent n)
  | none, some r => return cRbnodeReplaceByChild m n r
  | some l, none => return cRbnodeReplaceByChild m n l
  | some l, some r =>
    let (t, m) := m.popRoot n
    let (m, s, p, c) ← cRbnodeDetachSuccessor fuel m r
    let (m, next) := cRbnodeReplaceBySuccessor m t n l s p c
    if next.isSome then cRbnodeRebalance fuel m next else return m

/-- `c_rbnode_unlink`, with `c_rbnode_init` of the node. -/
def cRbnodeUnlink (fuel : ℕ) (m : Memory α) (n : α) : Option (Memory α) :=
  if m.isLinked n then do
    let m ← cRbnodeUnlinkStale fuel m n
    return m.modify n fun _ => ⟨.node n, ⟨false, false⟩, none, none⟩
  else some m

end DbusBroker.Rbtree
