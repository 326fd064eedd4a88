import DbusBroker.Lib.TreeWalk
import DbusBroker.Rbtree.Search

/-!
# Traversal in c-rbtree

The functions that find the first node of a tree and the next node after one, in key order in
both directions and in post-order, and the loops that the iteration macros spell out with
them. A safe loop fetches the next node before its body runs. In key order the body may unlink
the node it is run for, which rebalances the tree below the loop; in post-order the nodes that
were visited are gone, and nothing the rest of the loop does reads them again.
-/

namespace DbusBroker.Rbtree

open ColourTree Frame

variable {α : Type} [DecidableEq α]

/-- The climb of `c_rbnode_next` and, on the other side, of `c_rbnode_prev`. -/
def cRbnodeClimb (s : Side) : ℕ → Memory α → α → Option (Option α)
  | 0, _, _ => none
  | fuel + 1, m, n =>
    match m.parent n with
    | none => some none
    | some p => if (m.nodes p).child s = some n then cRbnodeClimb s fuel m p else some (some p)

/-- `c_rbnode_next` and, for the other side, `c_rbnode_prev`, of a node that may be NULL. -/
def cRbnodeStep (s : Side) (fuel : ℕ) (m : Memory α) : Option α → Option (Option α)
  | none => some none
  | some n =>
    if m.isLinked n then
      match (m.nodes n).child s with
      | some c => (cRbnodeOutermost s.other fuel m c).map some
      | none => cRbnodeClimb s fuel m n
    else some none

/-- `c_rbnode_next`. -/
def cRbnodeNext (fuel : ℕ) (m : Memory α) (n : Option α) : Option (Option α) := cRbnodeStep .right fuel m n

/-- `c_rbnode_prev`. -/
def cRbnodePrev (fuel : ℕ) (m : Memory α) (n : Option α) : Option (Option α) := cRbnodeStep .left fuel m n

/-- `c_rbtree_first` and, for the other side, `c_rbtree_last`: where a walk to a side begins. -/
def cRbtreeBegin (s : Side) (fuel : ℕ) (m : Memory α) : Option (Option α) :=
  match m.root with
  | none => some none
  | some n => (cRbnodeOutermost s.other fuel m n).map some

/-- `c_rbtree_first`. -/
def cRbtreeFirst (fuel : ℕ) (m : Memory α) : Option (Option α) := cRbtreeBegin .right fuel m

/-- `c_rbtree_last`. -/
def cRbtreeLast (fuel : ℕ) (m : Memory α) : Option (Option α) := cRbtreeBegin .left fuel m

/-- The loop of `c_rbnode_leftdeepest`. -/
def cRbnodeLeftdeepest : ℕ → Memory α → α → Option α
  | 0, _, _ => none
  | fuel + 1, m, n =>
    match (m.nodes n).left with
    | some l => cRbnodeLeftdeepest fuel m l
    | none =>
      match (m.nodes n).right with
      | some r => cRbnodeLeftdeepest fuel m r
      | none => some n

/-- `c_rbnode_next_postorder`. -/
def cRbnodeNextPostorder (fuel : ℕ) (m : Memory α) : Option α → Option (Option α)
  | none => some none
  | some n =>
    if m.isLinked n then
      match m.parent n with
      | none => some none
      | some p =>
        match (m.nodes p).right with
        | none => some (some p)
        | some r => if (m.nodes p).left = some n then (cRbnodeLeftdeepest fuel m r).map some else some (some p)
    else some none

/-- The climb of `c_rbnode_prev_postorder`. -/
def cRbnodePrevPostorderClimb : ℕ → Memory α → α → Option (Option α)
  | 0, _, _ => none
  | fuel + 1, m, n =>
    match m.parent n with
    | none => some none
    | some p =>
      match (m.nodes p).left with
      | none => cRbnodePrevPostorderClimb fuel m p
      | some l => if l = n then cRbnodePrevPostorderClimb fuel m p else some (some l)

/-- `c_rbnode_prev_postorder`. -/
def cRbnodePrevPostorder (fuel : ℕ) (m : Memory α) : Option α → Option (Option α)
  | none => some none
  | some n =>
    if m.isLinked n then
      match (m.nodes n).right with
      | some r => some (some r)
      | none =>
        match (m.nodes n).left with
        | some l => some (some l)
        | none => cRbnodePrevPostorderClimb fuel m n
    else some none

/-- `c_rbtree_first_postorder`. -/
def cRbtreeFirstPostorder (fuel : ℕ) (m : Memory α) : Option (Option α) :=
  match m.root with
  | none => some none
  | some n => (cRbnodeLeftdeepest fuel m n).map some

/-- `c_rbtree_last_postorder`. -/
def cRbtreeLastPostorder (m : Memory α) : Option α := m.root

/-- The rounds of `c_rbtree_for_each_safe`, with the nodes that the body is run for. -/
def cRbtreeForEachSafeFrom (body : Memory α → α → Option (Memory α)) (fuel : ℕ) :
    ℕ → Memory α → Option α → Option α → Option (Memory α × List α)
  | _, m, none, _ => some (m, [])
  | 0, _, some _, _ => none
  | rounds + 1, m, some i, safe => do
    let m ← body m i
    let next ← cRbnodeNext fuel m safe
    let (m, visited) ← cRbtreeForEachSafeFrom body fuel rounds m safe next
    return (m, i :: visited)

/-- `c_rbtree_for_each_safe`. -/
def cRbtreeForEachSafe (body : Memory α → α → Option (Memory α)) (fuel rounds : ℕ) (m : Memory α) :
    Option (Memory α × List α) := do
  let iter ← cRbtreeFirst fuel m
  let safe ← cRbnodeNext fuel m iter
  cRbtreeForEachSafeFrom body fuel rounds m iter safe

/-- The rounds of `c_rbtree_for_each_safe_postorder_unlink`. The body is given the nodes it was run for so far, the
last one first. -/
def cRbtreeForEachSafePostorderUnlinkFrom (body : List α → Memory α → Memory α) (fuel : ℕ) :
    ℕ → List α → Memory α → Option α → Option α → Option (Memory α × List α)
  | _, seen, m, none, _ => some ({ m with root := none }, seen)
  | 0, _, _, some _, _ => none
  | rounds + 1, seen, m, some i, safe => do
    let m := m.modify i fun _ => ⟨.node i, ⟨false, false⟩, none, none⟩
    let m := body (i :: seen) m
    let next ← cRbnodeNextPostorder fuel m safe
    cRbtreeForEachSafePostorderUnlinkFrom body fuel rounds (i :: seen) m safe next

/-- `c_rbtree_for_each_safe_postorder_unlink`. -/
def cRbtreeForEachSafePostorderUnlink (body : List α → Memory α → Memory α) (fuel rounds : ℕ) (m : Memory α) :
    Option (Memory α × List α) := do
  let iter ← cRbtreeFirstPostorder fuel m
  let safe ← cRbnodeNextPostorder fuel m iter
  cRbtreeForEachSafePostorderUnlinkFrom body fuel rounds [] m iter safe

/-! ### Key order -/

omit [DecidableEq α] in
/-- The outermost node of a subtree is the first one in the other direction. -/
theorem cRbnodeOutermost_eq (s : Side) {fuel : ℕ} {m : Memory α} {up : Option α} {t : ColourTree α} {a : α}
    (h : Held m up t) (hroot : t.root? = some a) (hfuel : t.depth ≤ fuel) :
    cRbnodeOutermost s fuel m a = (t.toward s.other).head? := by
  induction fuel generalizing up t a with
  | zero =>
    cases t with
    | nil => cases hroot
    | node red l b r => simp [depth] at hfuel
  | succ fuel ih =>
    obtain ⟨near, far, ht⟩ := exists_oriented s hroot
    rw [ht] at h hfuel
    obtain ⟨hnode, hnear, -⟩ := held_oriented.mp h
    have hdepth : near.depth ≤ fuel := by
      cases s <;> (simp only [oriented, depth] at hfuel; omega)
    rw [ht, cRbnodeOutermost, hnode, child_cell, toward_oriented]
    cases hn : near.root? with
    | none => rw [root?_eq_none_iff.mp hn]; rfl
    | some c =>
      have hfirst := ih hnear hn hdepth
      cases near with
      | nil => cases hn
      | node red l b r =>
        rw [List.head?_append_of_ne_nil _ (fun hnil => ?_)]
        · exact hfirst
        · have hmem : b ∈ (ColourTree.node red l b r).toward s.other :=
            (perm_toward ..).mem_iff.mpr (mem_inorder_of_root? rfl)
          rw [hnil] at hmem
          cases hmem

/-- The climb ends at the first node ahead of a subtree. -/
theorem cRbnodeClimb_eq (s : Side) {fuel : ℕ} {m : Memory α} {path : List (Frame α)} {t : ColourTree α} {n : α}
    (h : RepresentsAt m path t) (hroot : t.root? = some n) (hfuel : path.length < fuel) :
    cRbnodeClimb s fuel m n = some (ahead s path).head? := by
  induction path generalizing fuel t n with
  | nil =>
    obtain ⟨fuel, rfl⟩ : ∃ k, fuel = k + 1 := ⟨fuel - 1, by omega⟩
    rw [cRbnodeClimb, h.parent_root hroot]
    rfl
  | cons f rest ih =>
    obtain ⟨fuel, rfl⟩ : ∃ k, fuel = k + 1 := ⟨fuel - 1, by omega⟩
    obtain ⟨hnode, hne⟩ := h.nodes_frame
    rw [cRbnodeClimb, h.parent_root hroot]
    dsimp only [above_cons]
    rw [hnode, ahead]
    rcases s.eq_or_eq_other f.side with rfl | rfl
    · rw [child_cell, if_pos hroot, if_pos rfl]
      exact ih h.up (root?_oriented ..) (by simpa using hfuel)
    · rw [child_other_cell, if_neg fun heq => ?_, if_neg (Side.ne_other f.side)]
      · rfl
      · have hnil := hne (heq.trans hroot.symm)
        rw [hroot] at hnil
        cases hnil

/-- A step goes to the node that follows in its direction. -/
theorem Represents.step {m : Memory α} {t : ColourTree α} (h : Represents m t) (s : Side) {fuel : ℕ}
    (hfuel : t.depth < fuel) {xs ys : List α} {a : α} (hsplit : t.toward s = xs ++ a :: ys) :
    cRbnodeStep s fuel m (some a) = some ys.head? := by
  have ha : a ∈ t.inorder := (perm_toward s t).mem_iff.mp (hsplit ▸ by simp)
  have hnodup : (t.toward s).Nodup := (perm_toward s t).nodup_iff.mpr h.nodup
  obtain ⟨path, red, l, r, rfl⟩ := exists_plug ha
  have hat : RepresentsAt m path (.node red l a r) := representsAt_iff.mp h
  have hdepth := length_le_depth_plug path (.node red l a r)
  have hlinked : m.isLinked a = true := hat.isLinked rfl
  obtain ⟨far, near, ht, hnode⟩ := hat.nodes_root rfl s
  rw [← oriented_other] at ht
  rw [ht] at hat hnodup hsplit hdepth
  have hnode' := toward_oriented s.other (ColourTree.node red l a r).isRed near a far
  rw [Side.other_other] at hnode'
  rw [toward_plug, hnode', List.append_assoc, List.append_assoc, List.cons_append, ← List.append_assoc] at hsplit
  rw [toward_plug, hnode', List.append_assoc, List.append_assoc, List.cons_append, ← List.append_assoc] at hnodup
  obtain ⟨-, rfl⟩ := hnodup.split_unique hsplit
  rw [cRbnodeStep, if_pos hlinked, hnode, child_cell]
  have hfuel' : path.length + far.depth < fuel := by
    rw [ht] at hfuel
    have hfar : far.depth + 1 ≤ (oriented s.other (ColourTree.node red l a r).isRed near a far).depth := by
      cases s <;> simp [oriented, Side.other, depth]
    omega
  cases hfar : far.root? with
  | none =>
    rw [root?_eq_none_iff.mp hfar]
    exact cRbnodeClimb_eq s hat (root?_oriented ..) (by omega)
  | some c =>
    have hheld : Held m (some a) far := (held_oriented.mp hat.held).2.2
    dsimp only
    rw [cRbnodeOutermost_eq s.other hheld hfar (by omega), Side.other_other]
    cases horder : far.toward s with
    | nil =>
      have hmem := (perm_toward s far).mem_iff.mpr (mem_inorder_of_root? hfar)
      rw [horder] at hmem
      cases hmem
    | cons b rest => rfl

omit [DecidableEq α] in
/-- A walk begins at the first node in its direction. -/
theorem Represents.begin {m : Memory α} {t : ColourTree α} (h : Represents m t) (s : Side) {fuel : ℕ}
    (hfuel : t.depth ≤ fuel) : cRbtreeBegin s fuel m = some (t.toward s).head? := by
  rw [cRbtreeBegin, h.root]
  cases hroot : t.root? with
  | none => rw [root?_eq_none_iff.mp hroot]; rfl
  | some n =>
    dsimp only
    rw [cRbnodeOutermost_eq s.other h.held hroot hfuel, Side.other_other]
    cases horder : t.toward s with
    | nil =>
      have hmem := (perm_toward s t).mem_iff.mpr (mem_inorder_of_root? hroot)
      rw [horder] at hmem
      cases hmem
    | cons b rest => rfl

/-- The node after one of a list, or after NULL. -/
theorem Represents.next {m : Memory α} {t : ColourTree α} (h : Represents m t) {fuel : ℕ} (hfuel : t.depth < fuel)
    {xs ys : List α} (hsplit : t.inorder = xs ++ ys) : cRbnodeNext fuel m ys.head? = some ys.tail.head? := by
  cases ys with
  | nil => rfl
  | cons a rest => exact h.step .right hfuel (by rw [toward_right]; exact hsplit)

/-- The body of a loop that unlinks some of the nodes. -/
def unlinkIf (drop : α → Bool) (fuel : ℕ) (m : Memory α) (n : α) : Option (Memory α) :=
  if drop n then cRbnodeUnlink fuel m n else some m

/-- What a safe loop leaves of the nodes that are still to come. -/
theorem cRbtreeForEachSafeFrom_unlinkIf (drop : α → Bool) {fuel rounds : ℕ} {m : Memory α} {t : ColourTree α}
    {kept rest : List α} (h : Represents m t) (hcol : t.RedBlack) (horder : t.inorder = kept ++ rest)
    (hfuel : 2 * Nat.log2 (t.inorder.length + 1) < fuel) (hrounds : rest.length ≤ rounds) :
    ∃ m', cRbtreeForEachSafeFrom (unlinkIf drop fuel) fuel rounds m rest.head? rest.tail.head? = some (m', rest) ∧
      Restores m m' t.inorder (kept ++ rest.filter fun a => !drop a) ∧
      ∀ a ∈ rest, drop a = true → m'.parent a = some a := by
  induction rest generalizing rounds m t kept with
  | nil =>
    refine ⟨m, by cases rounds <;> rfl, ⟨t, h, hcol, ?_, fun b _ => rfl⟩, fun a ha => by cases ha⟩
    simpa using horder
  | cons i rest ih =>
    obtain ⟨rounds, rfl⟩ : ∃ k, rounds = k + 1 := ⟨rounds - 1, by rw [List.length_cons] at hrounds; omega⟩
    have hi : i ∈ t.inorder := horder ▸ by simp
    have hdepth := hcol.depth_le
    have hnodup := h.nodup
    rw [horder, List.nodup_middle, List.nodup_cons, List.mem_append, not_or] at hnodup
    -- the loop goes on from the memory that the body leaves
    have hgo {m₁ : Memory α} {t₁ : ColourTree α} {kept₁ : List α} (hbody : unlinkIf drop fuel m i = some m₁)
        (h₁ : Represents m₁ t₁) (hcol₁ : t₁.RedBlack) (horder₁ : t₁.inorder = kept₁ ++ rest)
        (hlength : t₁.inorder.length ≤ t.inorder.length) :
        ∃ m', cRbtreeForEachSafeFrom (unlinkIf drop fuel) fuel (rounds + 1) m (some i) rest.head? =
            some (m', i :: rest) ∧ Restores m₁ m' t₁.inorder (kept₁ ++ rest.filter fun a => !drop a) ∧
          ∀ a ∈ rest, drop a = true → m'.parent a = some a := by
      have hlog : Nat.log2 (t₁.inorder.length + 1) ≤ Nat.log2 (t.inorder.length + 1) := by
        rw [Nat.log2_eq_log_two, Nat.log2_eq_log_two]
        exact Nat.log_mono_right (by omega)
      have hdepth₁ := hcol₁.depth_le
      obtain ⟨m', hm', hrestores, hdropped⟩ :=
        ih h₁ hcol₁ horder₁ (by omega) (Nat.le_of_succ_le_succ hrounds)
      have hnext : cRbnodeNext fuel m₁ rest.head? = some rest.tail.head? := h₁.next (by omega) horder₁
      refine ⟨m', ?_, hrestores, hdropped⟩
      rw [cRbtreeForEachSafeFrom, hbody]
      simp only [hnext, hm', Option.bind_eq_bind, Option.bind_some, Option.pure_def]
    show ∃ m', cRbtreeForEachSafeFrom (unlinkIf drop fuel) fuel (rounds + 1) m (some i) rest.head? = _ ∧ _
    cases hdrop : drop i with
    | false =>
      have hkept : t.inorder = (kept ++ [i]) ++ rest := by rw [horder, List.append_cons]
      obtain ⟨m', hm', hrestores, hdropped⟩ :=
        hgo (by rw [unlinkIf, hdrop]; rfl) h hcol hkept (Nat.le_refl _)
      refine ⟨m', hm', ?_, fun a ha hd => ?_⟩
      · simpa [hdrop] using hrestores
      · rcases List.mem_cons.mp ha with rfl | ha
        · rw [hdrop] at hd
          cases hd
        · exact hdropped a ha hd
    | true =>
      obtain ⟨m₁, hm₁, ⟨t₁, ht₁, hcol₁, horder₁, hsame₁⟩, hparent⟩ :=
        cRbnodeUnlink_restores fuel h hcol hi (by omega)
      have herase : t₁.inorder = kept ++ rest := by
        rw [horder₁, horder, List.erase_append_right _ hnodup.1.1, List.erase_cons_head]
      obtain ⟨m', hm', hrestores, hdropped⟩ := hgo (by rw [unlinkIf, hdrop, if_pos rfl]; exact hm₁) ht₁ hcol₁ herase
        (by rw [herase, horder]; simp)
      obtain ⟨t', ht', hcol', horder', hsame'⟩ := hrestores
      have hi' : i ∉ t₁.inorder := by
        rw [herase, List.mem_append, not_or]
        exact hnodup.1
      refine ⟨m', hm', ⟨t', ht', hcol', ?_, fun b hb => ?_⟩, fun a ha hd => ?_⟩
      · rw [horder', List.filter_cons, hdrop]
        simp
      · refine (hsame' b fun hmem => hb ?_).trans (hsame₁ b hb)
        rw [herase] at hmem
        rw [horder]
        simp only [List.mem_append, List.mem_cons] at hmem ⊢
        tauto
      · rcases List.mem_cons.mp ha with rfl | ha
        · show (m'.nodes a).parent = some a
          rw [hsame' a hi']
          exact hparent
        · exact hdropped a ha hd

/-- A safe loop that unlinks the nodes it drops: it visits every node in order, the nodes that stay are a red-black
tree in their order, and those that were dropped are unlinked. -/
theorem cRbtreeForEachSafe_unlinkIf (drop : α → Bool) (fuel rounds : ℕ) (m : Memory α) (t : ColourTree α)
    (h : Represents m t) (hcol : t.RedBlack) (hfuel : 2 * Nat.log2 (t.inorder.length + 1) < fuel)
    (hrounds : t.inorder.length ≤ rounds) :
    ∃ m', cRbtreeForEachSafe (unlinkIf drop fuel) fuel rounds m = some (m', t.inorder) ∧
      Restores m m' t.inorder (t.inorder.filter fun a => !drop a) ∧
      ∀ a ∈ t.inorder, drop a = true → m'.parent a = some a := by
  have hdepth := hcol.depth_le
  have hfirst : cRbtreeFirst fuel m = some t.inorder.head? := by
    rw [← toward_right]
    exact h.begin .right (by omega)
  obtain ⟨m', hm', hrestores, hdropped⟩ :=
    cRbtreeForEachSafeFrom_unlinkIf drop h hcol (List.nil_append _).symm hfuel hrounds
  refine ⟨m', ?_, hrestores, hdropped⟩
  rw [cRbtreeForEachSafe, hfirst]
  simp only [Option.bind_eq_bind, Option.bind_some, h.next (by omega : t.depth < fuel) (List.nil_append _).symm, hm']

/-- A root with a red child on its left. -/
def pairTree : ColourTree ℕ := .node false (.node true .nil 0 .nil) 1 .nil

/-- The memory of these two nodes. -/
def pairMemory : Memory ℕ :=
  ⟨fun a => if a = 1 then cell .left none false (some 0) none else cell .left (some 1) true none none, some 1⟩

theorem pairMemory_represents : Represents pairMemory pairTree :=
  ⟨rfl, ⟨rfl, ⟨rfl, trivial, trivial⟩, trivial⟩, by decide⟩

theorem pairTree_redBlack : pairTree.RedBlack := ⟨rfl, 1, ⟨rfl, rfl, rfl, rfl⟩, rfl⟩

/-- The root is dropped while the loop is at it, and its child stays. -/
theorem cRbtreeForEachSafe_unlinkIf_root : ∃ m',
    cRbtreeForEachSafe (unlinkIf (fun a => a == 1) 4) 4 2 pairMemory = some (m', [0, 1]) ∧
      Restores pairMemory m' [0, 1] [0] ∧ ∀ a ∈ [0, 1], (a == 1) = true → m'.parent a = some a :=
  cRbtreeForEachSafe_unlinkIf (fun a => a == 1) 4 2 pairMemory pairTree pairMemory_represents pairTree_redBlack
    (by decide) (by decide)

/-! ### Post-order -/

omit [DecidableEq α] in
theorem postorder_ne_nil {t : ColourTree α} {a : α} (h : t.root? = some a) : t.postorder ≠ [] := fun hnil => by
  have hlast := t.getLast?_postorder
  rw [hnil, h] at hlast
  cases hlast

omit [DecidableEq α] in
/-- The left-deepest node of a subtree is the first one in post-order. -/
theorem cRbnodeLeftdeepest_eq {fuel : ℕ} {m : Memory α} {up : Option α} {t : ColourTree α} {a : α} (h : Held m up t)
    (hroot : t.root? = some a) (hfuel : t.depth ≤ fuel) : cRbnodeLeftdeepest fuel m a = t.postorder.head? := by
  induction t generalizing fuel up a with
  | nil => cases hroot
  | node red l b r ihl ihr =>
    cases hroot
    obtain ⟨hnode, hl, hr⟩ := h
    rw [depth] at hfuel
    obtain ⟨fuel, rfl⟩ : ∃ k, fuel = k + 1 := ⟨fuel - 1, by omega⟩
    have hleft : (m.nodes b).left = l.root? := by rw [hnode]; rfl
    have hright : (m.nodes b).right = r.root? := by rw [hnode]; rfl
    rw [cRbnodeLeftdeepest, hleft, hright, postorder]
    cases hlroot : l.root? with
    | some c =>
      rw [List.append_assoc, List.head?_append_of_ne_nil _ (postorder_ne_nil hlroot)]
      exact ihl hl hlroot (by omega)
    | none =>
      rw [root?_eq_none_iff.mp hlroot, postorder, List.nil_append]
      cases hrroot : r.root? with
      | some c =>
        rw [List.head?_append_of_ne_nil _ (postorder_ne_nil hrroot)]
        exact ihr hr hrroot (by omega)
      | none =>
        rw [root?_eq_none_iff.mp hrroot]
        rfl

/-- The step in post-order from the root of a subtree reads only that node and those ahead of it. -/
theorem cRbnodeNextPostorder_eq {fuel : ℕ} {m m' : Memory α} {path : List (Frame α)} {t : ColourTree α} {n : α}
    (h : RepresentsAt m path t) (hroot : t.root? = some n) (hnode : m'.nodes n = m.nodes n)
    (hahead : ∀ b ∈ postAhead path, m'.nodes b = m.nodes b) (hfuel : (plug path t).depth ≤ fuel) :
    cRbnodeNextPostorder fuel m' (some n) = some (postAhead path).head? := by
  have hlinked : m'.isLinked n = true := by
    rw [Memory.isLinked, Memory.parent, hnode]
    exact h.isLinked hroot
  have hparent : m'.parent n = above path := by
    rw [Memory.parent, hnode]
    exact h.parent_root hroot
  rw [cRbnodeNextPostorder, if_pos hlinked, hparent]
  cases path with
  | nil => rfl
  | cons f rest =>
    obtain ⟨hframe, hne⟩ := h.nodes_frame
    have hfnode : m'.nodes f.node = m.nodes f.node := hahead f.node (by cases hs : f.side <;> simp [postAhead, hs])
    rw [← hfnode, hroot] at hframe
    dsimp only [above_cons]
    cases hs : f.side with
    | left =>
      have hleft : (m'.nodes f.node).left = some n := by rw [hframe, hs]; rfl
      have hright : (m'.nodes f.node).right = f.sibling.root? := by rw [hframe, hs]; rfl
      rw [hleft, hright, postAhead, hs]
      cases hsib : f.sibling.root? with
      | none =>
        rw [root?_eq_none_iff.mp hsib]
        rfl
      | some r =>
        have hheld : Held m' (some f.node) f.sibling := h.frames.2.1.congr fun b hb =>
          hahead b (by simp [postAhead, hs, (perm_postorder f.sibling).mem_iff.mpr hb])
        have hdepth := length_le_depth_plug rest (f.fill t)
        have hsibling : f.sibling.depth ≤ (f.fill t).depth := by
          rw [fill, hs, oriented, depth]
          omega
        rw [plug_cons] at hfuel
        dsimp only
        rw [if_pos rfl, cRbnodeLeftdeepest_eq hheld hsib (by omega),
          List.head?_append_of_ne_nil _ (postorder_ne_nil hsib)]
        cases hfirst : f.sibling.postorder with
        | nil => exact absurd hfirst (postorder_ne_nil hsib)
        | cons b rest => rfl
    | right =>
      have hleft : (m'.nodes f.node).left = f.sibling.root? := by rw [hframe, hs]; rfl
      have hright : (m'.nodes f.node).right = some n := by rw [hframe, hs]; rfl
      have hother : f.sibling.root? ≠ some n := fun heq => by
        have hnil := hne (heq.trans hroot.symm)
        rw [hroot] at hnil
        cases hnil
      rw [hleft, hright, postAhead, hs]
      dsimp only
      rw [if_neg hother]
      rfl

omit [DecidableEq α] in
/-- A tree is split at one of its nodes in post-order. -/
theorem Represents.exists_position {m : Memory α} {t : ColourTree α} (h : Represents m t) {xs ys : List α} {a : α}
    (hsplit : t.postorder = xs ++ a :: ys) :
    ∃ path red l r, t = plug path (.node red l a r) ∧ RepresentsAt m path (.node red l a r) ∧
      xs = postBehind path ++ (l.postorder ++ r.postorder) ∧ ys = postAhead path := by
  have ha : a ∈ t.inorder := (perm_postorder t).mem_iff.mp (hsplit ▸ by simp)
  have hnodup : t.postorder.Nodup := (perm_postorder t).nodup_iff.mpr h.nodup
  obtain ⟨path, red, l, r, rfl⟩ := exists_plug ha
  have horder : (plug path (.node red l a r)).postorder =
      (postBehind path ++ (l.postorder ++ r.postorder)) ++ a :: postAhead path := by
    rw [postorder_plug, postorder]
    simp only [List.append_assoc, List.cons_append, List.nil_append]
  rw [horder] at hsplit hnodup
  obtain ⟨hxs, hys⟩ := hnodup.split_unique hsplit
  exact ⟨path, red, l, r, rfl, representsAt_iff.mp h, hxs.symm, hys.symm⟩

/-- A step in post-order, in a memory where the nodes behind may have gone. -/
theorem Represents.nextPostorder {m m' : Memory α} {t : ColourTree α} (h : Represents m t) {fuel : ℕ}
    (hfuel : t.depth ≤ fuel) {xs ys : List α} (hsplit : t.postorder = xs ++ ys)
    (hsame : ∀ b ∈ ys, m'.nodes b = m.nodes b) : cRbnodeNextPostorder fuel m' ys.head? = some ys.tail.head? := by
  cases ys with
  | nil => rfl
  | cons a rest =>
    obtain ⟨path, red, l, r, rfl, hat, -, rfl⟩ := h.exists_position hsplit
    exact cRbnodeNextPostorder_eq hat rfl (hsame a List.mem_cons_self)
      (fun b hb => hsame b (List.mem_cons_of_mem a hb)) hfuel

/-- The climb backwards in post-order ends at the last node behind a subtree. -/
theorem cRbnodePrevPostorderClimb_eq {fuel : ℕ} {m : Memory α} {path : List (Frame α)} {t : ColourTree α} {n : α}
    (h : RepresentsAt m path t) (hroot : t.root? = some n) (hfuel : path.length < fuel) :
    cRbnodePrevPostorderClimb fuel m n = some (postBehind path).getLast? := by
  induction path generalizing fuel t n with
  | nil =>
    obtain ⟨fuel, rfl⟩ : ∃ k, fuel = k + 1 := ⟨fuel - 1, by omega⟩
    rw [cRbnodePrevPostorderClimb, h.parent_root hroot]
    rfl
  | cons f rest ih =>
    obtain ⟨fuel, rfl⟩ : ∃ k, fuel = k + 1 := ⟨fuel - 1, by omega⟩
    obtain ⟨hframe, hne⟩ := h.nodes_frame
    have hrest := ih h.up (root?_oriented ..) (Nat.lt_of_succ_lt_succ hfuel)
    rw [cRbnodePrevPostorderClimb, h.parent_root hroot]
    dsimp only [above_cons]
    cases hs : f.side with
    | left =>
      have hleft : (m.nodes f.node).left = some n := by rw [hframe, hs, hroot]; rfl
      rw [hleft, postBehind, hs]
      dsimp only
      rwa [if_pos rfl]
    | right =>
      have hleft : (m.nodes f.node).left = f.sibling.root? := by rw [hframe, hs]; rfl
      rw [hleft, postBehind, hs]
      cases hsib : f.sibling.root? with
      | none =>
        rw [root?_eq_none_iff.mp hsib]
        dsimp only [postorder]
        rwa [List.append_nil]
      | some l =>
        have hln : l ≠ n := fun heq => by
          have hnil := hne (by rw [hsib, hroot, heq])
          rw [hroot] at hnil
          cases hnil
        dsimp only
        rw [if_neg hln, List.getLast?_append_of_ne_nil _ (postorder_ne_nil hsib), getLast?_postorder, hsib]

/-- A step backwards in post-order. -/
theorem Represents.prevPostorder {m : Memory α} {t : ColourTree α} (h : Represents m t) {fuel : ℕ}
    (hfuel : t.depth < fuel) {xs ys : List α} {a : α} (hsplit : t.postorder = xs ++ a :: ys) :
    cRbnodePrevPostorder fuel m (some a) = some xs.getLast? := by
  obtain ⟨path, red, l, r, rfl, hat, rfl, -⟩ := h.exists_position hsplit
  have hdepth := length_le_depth_plug path (.node red l a r)
  have hnode := hat.held.1
  have hleft : (m.nodes a).left = l.root? := by rw [hnode]; rfl
  have hright : (m.nodes a).right = r.root? := by rw [hnode]; rfl
  rw [cRbnodePrevPostorder, if_pos (hat.isLinked rfl), hleft, hright]
  cases hr : r.root? with
  | some c =>
    rw [← List.append_assoc, List.getLast?_append_of_ne_nil _ (postorder_ne_nil hr), getLast?_postorder, hr]
  | none =>
    rw [root?_eq_none_iff.mp hr, postorder, List.append_nil]
    cases hl : l.root? with
    | some c => rw [List.getLast?_append_of_ne_nil _ (postorder_ne_nil hl), getLast?_postorder, hl]
    | none =>
      rw [root?_eq_none_iff.mp hl, postorder, List.append_nil]
      exact cRbnodePrevPostorderClimb_eq hat rfl (by omega)

omit [DecidableEq α] in
/-- A walk in post-order begins at the first node. -/
theorem Represents.firstPostorder {m : Memory α} {t : ColourTree α} (h : Represents m t) {fuel : ℕ}
    (hfuel : t.depth ≤ fuel) : cRbtreeFirstPostorder fuel m = some t.postorder.head? := by
  rw [cRbtreeFirstPostorder, h.root]
  cases hroot : t.root? with
  | none => rw [root?_eq_none_iff.mp hroot]; rfl
  | some n =>
    dsimp only
    rw [cRbnodeLeftdeepest_eq h.held hroot hfuel]
    cases hfirst : t.postorder with
    | nil => exact absurd hfirst (postorder_ne_nil hroot)
    | cons b rest => rfl

/-! ### Loops -/

/-- The rounds of a loop that a step function drives, with the nodes that it visits. -/
def cRbtreeForEachFrom (step : Option α → Option (Option α)) : ℕ → Option α → Option (List α)
  | _, none => some []
  | 0, some _ => none
  | rounds + 1, some i => do
    let next ← step (some i)
    let visited ← cRbtreeForEachFrom step rounds next
    return i :: visited

/-- `c_rbtree_for_each`. -/
def cRbtreeForEach (fuel rounds : ℕ) (m : Memory α) : Option (List α) := do
  let iter ← cRbtreeFirst fuel m
  cRbtreeForEachFrom (cRbnodeNext fuel m) rounds iter

/-- The loop from `c_rbtree_last` on with `c_rbnode_prev`. -/
def cRbtreeForEachReverse (fuel rounds : ℕ) (m : Memory α) : Option (List α) := do
  let iter ← cRbtreeLast fuel m
  cRbtreeForEachFrom (cRbnodePrev fuel m) rounds iter

/-- `c_rbtree_for_each_postorder`. -/
def cRbtreeForEachPostorder (fuel rounds : ℕ) (m : Memory α) : Option (List α) := do
  let iter ← cRbtreeFirstPostorder fuel m
  cRbtreeForEachFrom (cRbnodeNextPostorder fuel m) rounds iter

/-- The loop from `c_rbtree_last_postorder` on with `c_rbnode_prev_postorder`. -/
def cRbtreeForEachPostorderReverse (fuel rounds : ℕ) (m : Memory α) : Option (List α) :=
  cRbtreeForEachFrom (cRbnodePrevPostorder fuel m) rounds (cRbtreeLastPostorder m)

omit [DecidableEq α] in
/-- A step function that follows a list visits it. -/
theorem cRbtreeForEachFrom_eq {step : Option α → Option (Option α)} {order : List α}
    (hstep : ∀ xs a ys, order = xs ++ a :: ys → step (some a) = some ys.head?) {rounds : ℕ} {xs ys : List α}
    (hsplit : order = xs ++ ys) (hrounds : ys.length ≤ rounds) : cRbtreeForEachFrom step rounds ys.head? = some ys := by
  induction ys generalizing xs rounds with
  | nil => cases rounds <;> rfl
  | cons a rest ih =>
    obtain ⟨rounds, rfl⟩ : ∃ k, rounds = k + 1 := ⟨rounds - 1, by rw [List.length_cons] at hrounds; omega⟩
    have hrest := ih (by rw [hsplit, List.append_cons]) (Nat.le_of_succ_le_succ hrounds)
    rw [List.head?_cons, cRbtreeForEachFrom, hstep xs a rest hsplit]
    simp only [hrest, Option.bind_eq_bind, Option.bind_some, Option.pure_def]

/-- The four walks through a red-black tree in memory visit its nodes in order, backwards, in post-order and in
post-order backwards, with twice the logarithm of the number of nodes as the bound for every step. -/
theorem cRbtreeForEach_orders (fuel rounds : ℕ) (m : Memory α) (t : ColourTree α) (h : Represents m t)
    (hcol : t.RedBlack) (hfuel : 2 * Nat.log2 (t.inorder.length + 1) < fuel) (hrounds : t.inorder.length ≤ rounds) :
    cRbtreeForEach fuel rounds m = some t.inorder ∧
      cRbtreeForEachReverse fuel rounds m = some t.inorder.reverse ∧
      cRbtreeForEachPostorder fuel rounds m = some t.postorder ∧
      cRbtreeForEachPostorderReverse fuel rounds m = some t.postorder.reverse := by
  have hdepth : t.depth < fuel := Nat.lt_of_le_of_lt hcol.depth_le hfuel
  have hside (s : Side) : (do
      let iter ← cRbtreeBegin s fuel m
      cRbtreeForEachFrom (cRbnodeStep s fuel m) rounds iter) = some (t.toward s) := by
    rw [h.begin s (Nat.le_of_lt hdepth)]
    exact cRbtreeForEachFrom_eq (fun xs a ys hsplit => h.step s hdepth hsplit) (List.nil_append _).symm
      (by rwa [(perm_toward s t).length_eq])
  refine ⟨?_, ?_, ?_, ?_⟩
  · rw [← toward_right]
    exact hside .right
  · rw [← toward_left]
    exact hside .left
  · rw [cRbtreeForEachPostorder, h.firstPostorder (Nat.le_of_lt hdepth)]
    refine cRbtreeForEachFrom_eq (fun xs a ys hsplit => ?_) (List.nil_append _).symm (by rwa [length_postorder])
    show cRbnodeNextPostorder fuel m (a :: ys).head? = _
    exact h.nextPostorder (Nat.le_of_lt hdepth) hsplit fun b _ => rfl
  · have hlast : cRbtreeLastPostorder m = t.postorder.reverse.head? := by
      rw [cRbtreeLastPostorder, h.root, List.head?_reverse, getLast?_postorder]
    rw [cRbtreeForEachPostorderReverse, hlast]
    refine cRbtreeForEachFrom_eq (fun xs a ys hsplit => ?_) (List.nil_append _).symm
      (by rwa [List.length_reverse, length_postorder])
    have hsplit' : t.postorder = ys.reverse ++ a :: xs.reverse := by
      rw [← List.reverse_reverse t.postorder, hsplit]
      simp
    rw [h.prevPostorder hdepth hsplit', List.getLast?_reverse]

/-- Both nodes are visited either way. -/
theorem cRbtreeForEach_orders_pair :
    cRbtreeForEach 3 2 pairMemory = some [0, 1] ∧ cRbtreeForEachReverse 3 2 pairMemory = some [1, 0] ∧
      cRbtreeForEachPostorder 3 2 pairMemory = some [0, 1] ∧
      cRbtreeForEachPostorderReverse 3 2 pairMemory = some [1, 0] :=
  cRbtreeForEach_orders 3 2 pairMemory pairTree pairMemory_represents pairTree_redBlack (by decide) (by decide)

omit [DecidableEq α] in
/-- Steps to the neighbours in a list are inverse. -/
theorem neighbours_inverse {next prev : Option α → Option (Option α)} {order : List α}
    (hnext : ∀ xs a ys, order = xs ++ a :: ys → next (some a) = some ys.head?)
    (hprev : ∀ xs a ys, order = xs ++ a :: ys → prev (some a) = some xs.getLast?) {a b : α} (ha : a ∈ order) :
    next (some a) = some (some b) ↔ b ∈ order ∧ prev (some b) = some (some a) := by
  constructor
  · intro h
    obtain ⟨xs, ys, hsplit⟩ := List.append_of_mem ha
    rw [hnext xs a ys hsplit, Option.some.injEq] at h
    cases ys with
    | nil => cases h
    | cons c rest =>
      cases h
      rw [List.append_cons] at hsplit
      refine ⟨by simp [hsplit], ?_⟩
      rw [hprev _ _ _ hsplit, List.getLast?_concat]
  · rintro ⟨hb, h⟩
    obtain ⟨xs, ys, hsplit⟩ := List.append_of_mem hb
    rw [hprev xs b ys hsplit, Option.some.injEq, List.getLast?_eq_some_iff] at h
    obtain ⟨zs, rfl⟩ := h
    rw [List.append_assoc, List.singleton_append] at hsplit
    rw [hnext _ _ _ hsplit, List.head?_cons]

/-- The steps forwards and backwards are inverse, in key order and in post-order. -/
theorem cRbnodeNext_inverse (fuel : ℕ) (m : Memory α) (t : ColourTree α) (h : Represents m t) (hfuel : t.depth < fuel)
    (a b : α) (ha : a ∈ t.inorder) :
    (cRbnodeNext fuel m (some a) = some (some b) ↔
      b ∈ t.inorder ∧ cRbnodePrev fuel m (some b) = some (some a)) ∧
    (cRbnodeNextPostorder fuel m (some a) = some (some b) ↔
      b ∈ t.inorder ∧ cRbnodePrevPostorder fuel m (some b) = some (some a)) := by
  constructor
  · refine neighbours_inverse (fun xs c ys hsplit => ?_) (fun xs c ys hsplit => ?_) ha
    · exact h.step .right hfuel (by rw [toward_right]; exact hsplit)
    · have hback : t.toward .left = ys.reverse ++ c :: xs.reverse := by
        rw [toward_left, hsplit]
        simp
      rw [cRbnodePrev, h.step .left hfuel hback, List.head?_reverse]
  · rw [← (perm_postorder t).mem_iff] at ha ⊢
    refine neighbours_inverse (fun xs c ys hsplit => ?_) (fun xs c ys hsplit => h.prevPostorder hfuel hsplit) ha
    show cRbnodeNextPostorder fuel m (c :: ys).head? = _
    exact h.nextPostorder (Nat.le_of_lt hfuel) hsplit fun b _ => rfl

/-- From the child to the root and back. -/
theorem cRbnodeNext_inverse_pair :
    (cRbnodeNext 3 pairMemory (some 0) = some (some 1) ↔
      1 ∈ pairTree.inorder ∧ cRbnodePrev 3 pairMemory (some 1) = some (some 0)) ∧
    (cRbnodeNextPostorder 3 pairMemory (some 0) = some (some 1) ↔
      1 ∈ pairTree.inorder ∧ cRbnodePrevPostorder 3 pairMemory (some 1) = some (some 0)) :=
  cRbnodeNext_inverse 3 pairMemory pairTree pairMemory_represents (by decide) 0 1 (by decide)

/-- What the rest of a safe loop in post-order does, once the nodes behind are gone. -/
theorem cRbtreeForEachSafePostorderUnlinkFrom_eq {body : List α → Memory α → Memory α}
    (hbody : ∀ seen m b, b ∉ seen → (body seen m).nodes b = m.nodes b) {fuel rounds : ℕ} {m m' : Memory α}
    {t : ColourTree α} (h : Represents m t) (hfuel : t.depth ≤ fuel) {seen rest : List α}
    (hsplit : t.postorder = seen.reverse ++ rest) (hsame : ∀ b ∈ rest, m'.nodes b = m.nodes b)
    (hrounds : rest.length ≤ rounds) :
    ∃ m'', cRbtreeForEachSafePostorderUnlinkFrom body fuel rounds seen m' rest.head? rest.tail.head? =
        some (m'', t.postorder.reverse) ∧ m''.root = none ∧ ∀ b ∉ t.inorder, m''.nodes b = m'.nodes b := by
  induction rest generalizing rounds seen m' with
  | nil =>
    rw [hsplit, List.append_nil, List.reverse_reverse]
    exact ⟨{ m' with root := none }, by cases rounds <;> rfl, rfl, fun b _ => rfl⟩
  | cons i rest ih =>
    obtain ⟨rounds, rfl⟩ : ∃ k, rounds = k + 1 := ⟨rounds - 1, by rw [List.length_cons] at hrounds; omega⟩
    have hnodup : t.postorder.Nodup := (perm_postorder t).nodup_iff.mpr h.nodup
    have hsplit' : t.postorder = (i :: seen).reverse ++ rest := by rw [hsplit]; simp
    have hmem (b : α) (hb : b ∈ i :: seen) : b ∈ t.inorder := by
      rw [← (perm_postorder t).mem_iff, hsplit']
      exact List.mem_append_left _ (List.mem_reverse.mpr hb)
    obtain ⟨m₁, hm₁⟩ : ∃ m₁, body (i :: seen) (m'.modify i fun _ => ⟨.node i, ⟨false, false⟩, none, none⟩) = m₁ :=
      ⟨_, rfl⟩
    have hother (b : α) (hb : b ∉ i :: seen) : m₁.nodes b = m'.nodes b := by
      rw [← hm₁, hbody _ _ b hb, nodes_modify, if_neg fun heq => hb (by simp [heq])]
    have hrest (b : α) (hb : b ∈ rest) : m₁.nodes b = m.nodes b := by
      rw [hsplit'] at hnodup
      rw [hother b fun hseen => (List.nodup_append.mp hnodup).2.2 b (List.mem_reverse.mpr hseen) b hb rfl]
      exact hsame b (List.mem_cons_of_mem i hb)
    have hnext : cRbnodeNextPostorder fuel m₁ rest.head? = some rest.tail.head? := h.nextPostorder hfuel hsplit' hrest
    obtain ⟨m'', hm'', hroot, hout⟩ := ih hsplit' hrest (Nat.le_of_succ_le_succ hrounds)
    refine ⟨m'', ?_, hroot, fun b hb => (hout b hb).trans (hother b fun hseen => hb (hmem b hseen))⟩
    rw [List.head?_cons, List.tail_cons, cRbtreeForEachSafePostorderUnlinkFrom, hm₁]
    simp only [hnext, hm'', Option.bind_eq_bind, Option.bind_some]

/-- Tearing a tree down in post-order: whatever the body does to the nodes it was run for, it is run for every node of
the tree, children before their parents, and the tree is empty in the end. -/
theorem cRbtreeForEachSafePostorderUnlink_visits (body : List α → Memory α → Memory α) (fuel rounds : ℕ)
    (m : Memory α) (t : ColourTree α) (h : Represents m t)
    (hbody : ∀ seen m b, b ∉ seen → (body seen m).nodes b = m.nodes b) (hfuel : t.depth ≤ fuel)
    (hrounds : t.inorder.length ≤ rounds) :
    ∃ m', cRbtreeForEachSafePostorderUnlink body fuel rounds m = some (m', t.postorder.reverse) ∧
      Represents m' .nil ∧ ∀ b ∉ t.inorder, m'.nodes b = m.nodes b := by
  have hsecond : cRbnodeNextPostorder fuel m t.postorder.head? = some t.postorder.tail.head? :=
    h.nextPostorder hfuel (List.nil_append _).symm fun b _ => rfl
  have hsplit : t.postorder = ([] : List α).reverse ++ t.postorder := rfl
  obtain ⟨m', hm', hroot, hout⟩ := cRbtreeForEachSafePostorderUnlinkFrom_eq hbody h hfuel hsplit (fun b _ => rfl)
    (by rwa [length_postorder] : t.postorder.length ≤ rounds)
  refine ⟨m', ?_, ⟨hroot, trivial, List.nodup_nil⟩, hout⟩
  rw [cRbtreeForEachSafePostorderUnlink, h.firstPostorder hfuel]
  simp only [hsecond, hm', Option.bind_eq_bind, Option.bind_some]

/-- A body that overwrites all nodes it was run for with pointers to nowhere. -/
def overwrite (seen : List ℕ) (m : Memory ℕ) : Memory ℕ :=
  { m with nodes := fun b => if seen.contains b then ⟨.null, ⟨true, true⟩, some 7, some 7⟩ else m.nodes b }

/-- Both nodes are visited although they are overwritten. -/
theorem cRbtreeForEachSafePostorderUnlink_visits_overwritten :
    ∃ m', cRbtreeForEachSafePostorderUnlink overwrite 2 2 pairMemory = some (m', [1, 0]) ∧
      Represents m' .nil ∧ ∀ b ∉ [0, 1], m'.nodes b = pairMemory.nodes b :=
  cRbtreeForEachSafePostorderUnlink_visits overwrite 2 2 pairMemory pairTree pairMemory_represents
    (fun seen m b hb => by simp [overwrite, hb]) (by decide) (by decide)

end DbusBroker.Rbtree
