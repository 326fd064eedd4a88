import DbusBroker.Rbtree.Rebalance

/-!
# Removing a node

A node without children is cut off, one with a single child is replaced by it, and one with two
children hands its place to its successor, which has no left child. What is left is a tree in
memory with at most one position that is a black node short.
-/

namespace DbusBroker.Rbtree

open ColourTree Frame

variable {α : Type} [DecidableEq α]

/-- A node leaves the tree: its place is rewritten, and apart from the node itself and those above it only the subtree
that takes the place changed. -/
structure Vacates (m m' : Memory α) (path : List (Frame α)) (n : α) (t : ColourTree α) : Prop where
  holds : RepresentsAt m' path t
  outside : ∀ b, b ≠ n → b ∉ t.inorder → b ∉ frameNodes path → m'.nodes b = m.nodes b

/-- The pointer to the tree is taken from the node; nothing else changes. -/
theorem RepresentsAt.pop {m : Memory α} {path : List (Frame α)} {t : ColourTree α} {n : α} (h : RepresentsAt m path t)
    (hroot : t.root? = some n) :
    ∃ m₁, m.popRoot n = (path.isEmpty, m₁) ∧ m₁.root = m.root ∧ m₁.parent n = above path ∧ m₁.isRed n = t.isRed ∧
      ∀ b, b ≠ n → m₁.nodes b = m.nodes b := by
  obtain ⟨near, far, -, hn⟩ := h.nodes_root hroot .left
  cases path with
  | nil =>
    refine ⟨_, popRoot_of_root (by rw [hn]; rfl), rfl, ?_, ?_, fun b hb => ?_⟩
    · simp [Memory.parent, CRBNode.parent, hn, cell]
    · simp [Memory.isRed, hn]
    · simp [hb]
  | cons f rest =>
    refine ⟨m, popRoot_of_root_false (by rw [hn]; rfl), rfl, h.parent_root hroot, h.isRed_root hroot, fun b _ => rfl⟩

/-- The slot of a node that was popped. -/
theorem swapChild_slot {m : Memory α} {path : List (Frame α)} {n : α} (new : Option α) (hslot : Slot m path n)
    (hparent : m.parent n = above path) :
    (∀ f rest, path = f :: rest → (m.swapChild n new).nodes f.node = (m.nodes f.node).setChild f.side new) ∧
      (∀ b, above path ≠ some b → (m.swapChild n new).nodes b = m.nodes b) ∧ (m.swapChild n new).root = m.root := by
  cases path with
  | nil =>
    rw [swapChild_of_none hparent]
    exact ⟨fun f rest h => (by cases h), fun b _ => rfl, rfl⟩
  | cons f rest =>
    obtain ⟨hcell, hsib, -⟩ := hslot.frame f rest rfl
    rw [swapChild_of_frame f rest hparent hcell hsib]
    refine ⟨fun g path h => ?_, fun b hb => ?_, rfl⟩
    · cases h
      simp
    · have hbf : b ≠ f.node := fun heq => hb (by rw [heq, above_cons])
      simp [hbf]

omit [DecidableEq α] in
/-- The slot of a path stays while other nodes change. -/
theorem Slot.congr {m m₁ : Memory α} {path : List (Frame α)} {n : α} (h : Slot m path n) (hroot : m₁.root = m.root)
    (hsame : ∀ b, above path = some b → m₁.nodes b = m.nodes b) : Slot m₁ path n := by
  refine ⟨fun f rest hpath => ?_, fun hpath => hroot.trans (h.root hpath)⟩
  obtain ⟨hcell, hsib, hne⟩ := h.frame f rest hpath
  exact ⟨(hsame f.node (by rw [hpath, above_cons])).trans hcell, hsib, hne⟩

/-- A path whose slot was given another pointer, once the pointer to the tree is put back. -/
theorem rehung_pushRoot {m m₁ m₂ : Memory α} {path : List (Frame α)} {new : Option α}
    (hframe : ∀ f rest, path = f :: rest → m₂.nodes f.node = (m₁.nodes f.node).setChild f.side new)
    (hsame : ∀ b, above path = some b → m₁.nodes b = m.nodes b) (hroot : m₂.root = m.root) :
    Rehung m (m₂.pushRoot new path.isEmpty) path new := by
  cases path with
  | nil => exact ⟨fun f rest h => (by cases h), rfl⟩
  | cons f rest =>
    refine ⟨fun g path h => ?_, hroot⟩
    rw [← hsame g.node (by rw [h, above_cons])]
    exact hframe g path h

/-- The nodes that neither are the new root nor were touched before. -/
theorem nodes_pushRoot_of_ne {m : Memory α} {new : Option α} {t : Bool} {b : α} (h : new ≠ some b) :
    (m.pushRoot new t).nodes b = m.nodes b := by
  cases t with
  | false => rfl
  | true => rw [nodes_pushRoot, if_neg h]

/-- Case 1.0: a node without children is cut off. -/
theorem RepresentsAt.cut {m : Memory α} {path : List (Frame α)} {n : α} {red : Bool}
    (h : RepresentsAt m path (.node red .nil n .nil)) :
    ∃ m₁, m.popRoot n = (path.isEmpty, m₁) ∧
      let m' := (m₁.swapChild n none).pushRoot none path.isEmpty
      Vacates m m' path n .nil ∧ m'.parent n = above path ∧ m'.isRed n = red := by
  have hn : n ∉ frameNodes path := (List.nodup_cons.mp h.nodup).1
  have habove : above path ≠ some n := fun heq => hn (mem_frameNodes_of_above heq)
  obtain ⟨m₁, hpop, hroot₁, hparent, hred, hsame⟩ := h.pop rfl
  have hpath (b : α) (hb : above path = some b) : m₁.nodes b = m.nodes b := hsame b fun heq => habove (heq ▸ hb)
  obtain ⟨hframe, hother, hroot⟩ := swapChild_slot none ((h.frames.slot hn).congr hroot₁ hpath) hparent
  have hnodes (b : α) (hb : above path ≠ some b) :
      ((m₁.swapChild n none).pushRoot none path.isEmpty).nodes b = m₁.nodes b :=
    (nodes_pushRoot_of_ne (by simp)).trans (hother b hb)
  refine ⟨m₁, hpop, ⟨⟨?_, trivial, (List.nodup_cons.mp h.nodup).2⟩, fun b hbn _ hb => ?_⟩, ?_, ?_⟩
  · refine h.frames.rehang (List.nodup_cons.mp h.nodup).2 (rehung_pushRoot hframe hpath (hroot.trans hroot₁))
      fun b hb hne => (hnodes b hne).trans (hsame b fun heq => hn (heq ▸ hb))
  · exact (hnodes b fun heq => hb (mem_frameNodes_of_above heq)).trans (hsame b hbn)
  · rw [Memory.parent, hnodes n habove]
    exact hparent
  · rw [Memory.isRed, hnodes n habove]
    exact hred

/-- Cases 1.1 and 1.2: a node with one child is replaced by it. -/
theorem RepresentsAt.replaceByChild {m : Memory α} {path : List (Frame α)} {s : Side} {n c : α} {red : Bool}
    {t : ColourTree α} (h : RepresentsAt m path (oriented s red t n .nil)) (hc : t.root? = some c) :
    Vacates m (cRbnodeReplaceByChild m n c) path n (t.paint false) := by
  obtain ⟨m₁, hpop, hroot₁, hparent, hred, hsame⟩ := h.pop (root?_oriented ..)
  obtain ⟨hframes, hheld, hnodup⟩ := h
  obtain ⟨hnode, ht, -⟩ := held_oriented.mp hheld
  rw [root?_oriented] at hframes
  simp only [List.nodup_append, nodup_oriented, mem_inorder_oriented, inorder] at hnodup
  have habove (b : α) (hb : above path = some b) := mem_frameNodes_of_above hb
  have hcmem := mem_inorder_of_root? hc
  have hpath (b : α) (hb : above path = some b) : m₁.nodes b = m.nodes b := hsame b (by grind)
  obtain ⟨hframe, hother, hroot⟩ := swapChild_slot (some c) ((hframes.slot (by grind)).congr hroot₁ hpath) hparent
  have hparent' : (m₁.swapChild n (some c)).parent n = above path := by
    rw [Memory.parent, hother n (by grind)]
    exact hparent
  have hunfold : cRbnodeReplaceByChild m n c = (((m₁.swapChild n (some c)).setParentAndFlags c
      (.ofNode (above path)) CRBFlags.toBlack).pushRoot (some c) path.isEmpty) := by
    rw [cRbnodeReplaceByChild, hpop]
    dsimp only
    rw [hparent']
  have hcnodes : (m.nodes c).flags.root = false := by
    obtain ⟨near, far, htree⟩ := exists_oriented s hc
    rw [htree] at ht
    rw [(held_oriented.mp ht).1, flags_cell]
    rfl
  have hcsame : (m₁.swapChild n (some c)).nodes c = m.nodes c := (hother c (by grind)).trans (hsame c (by grind))
  have hcell : (cRbnodeReplaceByChild m n c).nodes c =
      (m.nodes c).setParent (word (above path)) ⟨false, (above path).isNone⟩ := by
    rw [hunfold]
    cases path with
    | nil =>
      simp [hcsame, RawParent.ofNode, word, CRBNode.setParent, CRBFlags.toBlack]
    | cons f rest =>
      simp [hcsame, RawParent.ofNode, word, CRBFlags.toBlack, hcnodes]
  have hrest (b : α) (hbn : b ≠ n) (hbc : b ≠ c) (hb : above path ≠ some b) :
      (cRbnodeReplaceByChild m n c).nodes b = m.nodes b := by
    rw [hunfold, nodes_pushRoot_of_ne (by simpa using Ne.symm hbc), nodes_setParentAndFlags, if_neg hbc, hother b hb,
      hsame b hbn]
  refine ⟨⟨?_, ht.hang (fun _ => ⟨false, (above path).isNone⟩) (by grind) rfl (fun b hb => ?_) fun b hb hne => ?_, ?_⟩,
    fun b hbn hbt hb => ?_⟩
  · rw [root?_paint, hc, hunfold]
    refine hframes.rehang (by grind) (rehung_pushRoot (fun f rest heq => ?_) hpath (hroot.trans hroot₁)) fun b hb hne => ?_
    · have hf := habove f.node (by rw [heq, above_cons])
      rw [nodes_setParentAndFlags, if_neg (by grind)]
      exact hframe f rest heq
    · rw [← hunfold]
      exact hrest b (by grind) (by grind) hne
  · rw [hc] at hb
    cases hb
    exact hcell
  · exact hrest b (by grind) (by grind) (by grind)
  · simp only [List.nodup_append, inorder_paint]
    grind
  · rw [inorder_paint] at hbt
    exact hrest b hbn (by grind) (by grind)

/-- What the last part of case 1.3 leaves in memory. -/
theorem cRbnodeReplaceBySuccessor_nodes {m : Memory α} {path : List (Frame α)} {n l s p : α} {c : Option α}
    {red : Bool} (hslot : Slot m path n) (hparent : m.parent n = above path) (hred : m.isRed n = red)
    (hsroot : (m.nodes s).flags.root = false) (hls : l ≠ s) (hcs : c ≠ some s) (hcl : c ≠ some l) (hsn : s ≠ n)
    (hln : l ≠ n) (hcn : c ≠ some n)
    (hframe : ∀ f rest, path = f :: rest → f.node ≠ s ∧ f.node ≠ l ∧ c ≠ some f.node) :
    let result := cRbnodeReplaceBySuccessor m path.isEmpty n l s p c
    result.1.nodes s = ((m.nodes s).setChild .left (some l)).setParent (word (above path))
      ⟨red, (above path).isNone⟩ ∧
    result.1.nodes l = (m.nodes l).setParent (.node s) (m.nodes l).flags ∧
    (∀ b, c = some b → result.1.nodes b = (m.nodes b).setParent (.node p) (m.nodes b).flags.toBlack) ∧
    Rehung m result.1 path (some s) ∧
    (∀ b, b ≠ s → b ≠ l → c ≠ some b → above path ≠ some b → result.1.nodes b = m.nodes b) ∧
    result.2 = if c.isNone ∧ m.isRed s = false then some p else none := by
  obtain ⟨m₄, hm₄⟩ : ∃ m₄, ((((m.store .left s (some l)).setParentAndFlags l (.node s) id).setParentIf c (.node p)
      CRBFlags.toBlack).setParentAndFlags s (.ofNode (above path)) (CRBFlags.withRed red)) = m₄ := ⟨_, rfl⟩
  have hlink (b : α) (hbs : b ≠ s) (hbl : b ≠ l) (hbc : c ≠ some b) : m₄.nodes b = m.nodes b := by
    rw [← hm₄]
    simp [hbs, hbl, hbc]
  have hnsame := hlink n hsn.symm hln.symm hcn
  have hparent₄ : m₄.parent n = above path := by rw [Memory.parent, hnsame, ← hparent, Memory.parent]
  have hunfold : cRbnodeReplaceBySuccessor m path.isEmpty n l s p c =
      ((m₄.swapChild n (some s)).pushRoot (some s) path.isEmpty,
        if c.isNone ∧ m.isRed s = false then some p else none) := by
    have hnp : (((m.store .left s (some l)).setParentAndFlags l (.node s) id).setParentIf c (.node p)
        CRBFlags.toBlack).nodes n = m.nodes n := by simp [hsn.symm, hln.symm, hcn]
    have hs : ((m.store .left s (some l)).setParentAndFlags l (.node s) id).isRed s = m.isRed s := by
      simp [Memory.isRed, hls.symm]
    rw [cRbnodeReplaceBySuccessor, hs, Memory.parent, Memory.isRed, hnp, ← hm₄, ← hparent, ← hred]
    rfl
  have hpath (b : α) (hb : above path = some b) : m₄.nodes b = m.nodes b := by
    cases path with
    | nil => cases hb
    | cons f rest =>
      cases hb
      obtain ⟨hfs, hfl, hfc⟩ := hframe f rest rfl
      exact hlink f.node hfs hfl hfc
  have hroot₄ : m₄.root = m.root := by rw [← hm₄]; simp
  obtain ⟨hslotted, hother, hroot⟩ := swapChild_slot (some s) (hslot.congr hroot₄ hpath) hparent₄
  have habove (b : α) (hb : above path = some b) : b ≠ s ∧ b ≠ l ∧ c ≠ some b := by
    cases path with
    | nil => cases hb
    | cons f rest =>
      cases hb
      exact hframe f rest rfl
  have houter (b : α) (hbs : b ≠ s) (hb : above path ≠ some b) :
      ((m₄.swapChild n (some s)).pushRoot (some s) path.isEmpty).nodes b = m₄.nodes b :=
    (nodes_pushRoot_of_ne (by simpa using Ne.symm hbs)).trans (hother b hb)
  have hs₄ : (m₄.swapChild n (some s)).nodes s = ((m.nodes s).setChild .left (some l)).setParent
      (.ofNode (above path)) ⟨red, false⟩ := by
    rw [hother s fun heq => (habove s heq).1 rfl, ← hm₄]
    simp [hcs, hls.symm, hsroot, CRBFlags.withRed]
  rw [hunfold]
  refine ⟨?_, ?_, fun b hb => ?_, rehung_pushRoot hslotted hpath (hroot.trans hroot₄), fun b hbs hbl hbc hb => ?_, rfl⟩
  · cases path with
    | nil =>
      dsimp only [List.isEmpty_nil]
      rw [nodes_pushRoot, if_pos rfl, hs₄]
      rfl
    | cons f rest => exact hs₄
  · rw [houter l hls fun heq => (habove l heq).2.1 rfl, ← hm₄]
    simp [hls, hcl]
  · have hbs : b ≠ s := fun heq => hcs (by rw [hb, heq])
    have hbl : b ≠ l := fun heq => hcl (by rw [hb, heq])
    rw [houter b hbs fun heq => (habove b heq).2.2 hb, ← hm₄]
    simp [hb, hbs, hbl]
  · rw [houter b hbs hb, hlink b hbs hbl hbc]

/-- Case 1.3 where the right child is the successor. -/
theorem RepresentsAt.replaceByRight {m : Memory α} {path : List (Frame α)} {n a s : α} {red sred : Bool}
    {l c : ColourTree α} (h : RepresentsAt m path (.node red l n (.node sred .nil s c))) (hl : l.root? = some a) :
    ∃ m₁, m.popRoot n = (path.isEmpty, m₁) ∧ (m₁.nodes s).left = none ∧ (m₁.nodes s).right = c.root? ∧
      let result := cRbnodeReplaceBySuccessor m₁ path.isEmpty n a s s c.root?
      Vacates m result.1 path n (.node red l s (c.paint false)) ∧
        result.2 = if c.root?.isNone ∧ sred = false then some s else none := by
  obtain ⟨m₁, hpop, hroot₁, hparent, hred, hsame⟩ := h.pop rfl
  obtain ⟨hframes, hheld, hnodup⟩ := h
  obtain ⟨-, hlheld, hs, -, hcheld⟩ := hheld
  simp only [inorder, List.nodup_append, List.nodup_cons, List.mem_append, List.mem_cons, List.nil_append] at hnodup
  have habove (b : α) (hb : above path = some b) := mem_frameNodes_of_above hb
  have hmem (t : ColourTree α) (b : α) (hb : t.root? = some b) : b ∈ t.inorder := mem_inorder_of_root? hb
  have ha := hmem l a hl
  have hpath (b : α) (hb : above path = some b) : m₁.nodes b = m.nodes b := hsame b (by grind)
  have hs₁ : m₁.nodes s = cell .left (some n) sred none c.root? := (hsame s (by grind)).trans hs
  have hslot : Slot m₁ path n := (hframes.slot (by grind)).congr hroot₁ hpath
  obtain ⟨hs', hl', hc', hhung, hrest, hnext⟩ := cRbnodeReplaceBySuccessor_nodes (l := a) (s := s) (p := s) (c := c.root?)
    hslot hparent hred (by rw [hs₁]; rfl) (by grind) (by grind) (by grind) (by grind) (by grind) (by grind) (by
      rintro f rest rfl
      have hf := habove f.node rfl
      exact ⟨by grind, by grind, by grind⟩)
  have hlmoved : Held _ (some s) (l.paint l.isRed) := hlheld.hang id (by grind) rfl
    (fun b hb => by
      rw [hl] at hb
      cases hb
      rw [hl', hsame a (by grind)]
      rfl)
    fun b hb hne => (hrest b (by grind) (by grind) (by grind) (by grind)).trans (hsame b (by grind))
  have hcmoved : Held _ (some s) (c.paint false) := hcheld.hang CRBFlags.toBlack (by grind) rfl
    (fun b hb => by
      rw [hc' b hb, hsame b (by grind)]
      rfl)
    fun b hb hne => (hrest b (by grind) (by grind) (by grind) (by grind)).trans (hsame b (by grind))
  rw [paint_isRed] at hlmoved
  refine ⟨m₁, hpop, by rw [hs₁]; rfl, by rw [hs₁]; rfl, ⟨⟨?_, ⟨?_, hlmoved, hcmoved⟩, ?_⟩, fun b hbn hb hpb => ?_⟩, ?_⟩
  · refine hframes.rehang (by grind) ⟨fun f rest heq => ?_, ?_⟩ fun b hb hne =>
      (hrest b (by grind) (by grind) (by grind) hne).trans (hsame b (by grind))
    · rw [hhung.frame f rest heq, hpath f.node (by rw [heq, above_cons])]
      rfl
    · rw [hhung.root, hroot₁]
      rfl
  · rw [hs', hs₁, hl, root?_paint]
    rfl
  · simp only [inorder, List.nodup_append, List.nodup_cons, List.mem_append, List.mem_cons, inorder_paint]
    grind
  · simp only [inorder, List.mem_append, List.mem_cons, inorder_paint] at hb
    exact (hrest b (by grind) (by grind) (by grind) (by grind)).trans (hsame b hbn)
  · rw [hnext, Memory.isRed, hs₁, flags_cell]

/-- The successor leaves its place to its child. -/
theorem RepresentsAt.detach {m : Memory α} {f : Frame α} {rest : List (Frame α)} {s : α} {red : Bool}
    {c : ColourTree α} (h : RepresentsAt m (f :: rest) (.node red .nil s c)) (hside : f.side = .left) :
    Vacates m ((m.store .left f.node c.root?).setParentIf c.root? (.node f.node) CRBFlags.toBlack) (f :: rest) s
      (c.paint false) := by
  obtain ⟨hframes, ⟨-, -, hcheld⟩, hnodup⟩ := h
  simp only [inorder, List.nil_append, List.cons_append, List.nodup_cons, List.nodup_append, List.mem_append] at hnodup
  have hf : f.node ∈ frameNodes (f :: rest) := by simp [frameNodes]
  have hmem (b : α) (hb : c.root? = some b) : b ∈ c.inorder := mem_inorder_of_root? hb
  have hcf : c.root? ≠ some f.node := by grind
  refine ⟨⟨?_, hcheld.hang CRBFlags.toBlack (by grind) rfl (fun b hb => ?_) fun b hb hne => ?_, ?_⟩, fun b hbs hb hpath => ?_⟩
  · refine hframes.rehang (by grind) ⟨fun g path heq => ?_, by simp⟩ fun b hb hne => ?_
    · cases heq
      simp [hcf, hside]
    · have hbf : b ≠ f.node := fun heq => hne (by rw [heq, above_cons])
      have hbc : c.root? ≠ some b := by grind
      simp [hbf, hbc]
  · have hbf : b ≠ f.node := by grind
    simp [hb, hbf, word]
  · have hbf : b ≠ f.node := by grind
    simp [hbf, hne]
  · simp only [inorder_paint, List.nodup_append]
    grind
  · rw [inorder_paint] at hb
    have hbf : b ≠ f.node := by grind
    have hbc : c.root? ≠ some b := by grind
    simp [hbf, hbc]

omit [DecidableEq α] in
/-- No node stands twice when a successor has taken the place of a node. -/
theorem nodup_replaced {path rpath : List (Frame α)} {n s : α} {red sred : Bool} {l c r : ColourTree α}
    (h : ((ColourTree.node sred .nil s c).inorder ++ frameNodes (rpath ++ ⟨.right, red, n, l⟩ :: path)).Nodup)
    (hr : r.inorder.Perm ((c.paint false).inorder ++ frameNodes rpath)) :
    ((ColourTree.node red l s r).inorder ++ frameNodes path).Nodup := by
  rw [inorder_paint] at hr
  have hperm : ((ColourTree.node red l s r).inorder ++ frameNodes path).Perm
      ((s :: (c.inorder ++ frameNodes rpath) ++ l.inorder) ++ frameNodes path) :=
    (List.perm_append_comm.trans ((hr.cons s).append_right _)).append_right _
  refine hperm.nodup_iff.mpr (h.sublist ?_)
  have hdrop : (l.inorder ++ frameNodes path).Sublist (n :: (l.inorder ++ frameNodes path)) := List.sublist_cons_self ..
  simp only [inorder, frameNodes_append, frameNodes, List.nil_append, List.cons_append, List.append_assoc]
  exact ((hdrop.append_left _).append_left _).cons_cons s

/-- The nodes that change where the successor is further down, against a memory in which the child of the successor
has moved up. -/
theorem RepresentsAt.replaceByLeftmost_nodes {m : Memory α} {path rpath : List (Frame α)} {f : Frame α} {n a s : α}
    {red sred : Bool} {l c : ColourTree α}
    (h : RepresentsAt m path (.node red l n (plug (f :: rpath) (.node sred .nil s c)))) (hl : l.root? = some a)
    (hside : f.side = .left) :
    ∃ m₁ right ma, (∀ t, (plug (f :: rpath) t).root? = some right) ∧ m.popRoot n = (path.isEmpty, m₁) ∧
      (∀ b, b ≠ n → m₁.nodes b = m.nodes b) ∧
      RepresentsAt ma ((f :: rpath) ++ ⟨.right, red, n, l⟩ :: path) (c.paint false) ∧
      let m₂ := ((m₁.store .left f.node c.root?).store .right s (some right)).setParentAndFlags right (.node s) id
      let result := cRbnodeReplaceBySuccessor m₂ path.isEmpty n a s f.node c.root?
      result.1.nodes s = cell .left (above path) red (some a) (some right) ∧
        result.1.nodes a = (m.nodes a).setParent (.node s) (m.nodes a).flags ∧ Rehung m result.1 path (some s) ∧
        (∀ b, b ≠ n ∧ b ≠ s ∧ b ≠ a ∧ above path ≠ some b → result.1.nodes b =
          if b = right then (ma.nodes b).setParent (.node s) (ma.nodes b).flags else ma.nodes b) ∧
        (∀ b, b ≠ n ∧ b ≠ s ∧ b ≠ a ∧ c.root? ≠ some b ∧ above path ≠ some b ∧ b ≠ f.node ∧ b ≠ right →
          result.1.nodes b = m.nodes b) ∧
        result.2 = if c.root?.isNone ∧ sred = false then some f.node else none := by
  obtain ⟨m₁, hpop, hroot₁, hparent, hred, hsame⟩ := h.pop rfl
  obtain ⟨right, hrightmem, hright⟩ := exists_root_plug f rpath
  have hat : RepresentsAt m ((f :: rpath) ++ ⟨.right, red, n, l⟩ :: path) (.node sred .nil s c) :=
    RepresentsAt.down_append (RepresentsAt.down h)
  have hdetached := RepresentsAt.detach hat hside
  obtain ⟨ma, hma⟩ : ∃ ma, (m.store .left f.node c.root?).setParentIf c.root? (.node f.node) CRBFlags.toBlack = ma :=
    ⟨_, rfl⟩
  rw [hma] at hdetached
  have hs : m.nodes s = cell .left (some f.node) sred none c.root? := hat.held.1
  have hframes := h.frames
  have hnodup := hat.nodup
  simp only [frameNodes_append, inorder, List.nil_append, frameNodes, List.cons_append, List.nodup_cons,
    List.nodup_append, List.mem_append, List.mem_cons] at hnodup
  simp only [frameNodes, List.cons_append, List.mem_cons, List.mem_append] at hrightmem
  have habove (b : α) (hb : above path = some b) := mem_frameNodes_of_above hb
  have hmem (t : ColourTree α) (b : α) (hb : t.root? = some b) : b ∈ t.inorder := mem_inorder_of_root? hb
  have ha := hmem l a hl
  have hpath (b : α) (hb : above path = some b) : m₁.nodes b = m.nodes b := hsame b (by grind)
  obtain ⟨m₂, hm₂⟩ : ∃ m₂, ((m₁.store .left f.node c.root?).store .right s (some right)).setParentAndFlags right
    (.node s) id = m₂ := ⟨_, rfl⟩
  -- the memory once the successor is detached
  have hroot₂ : m₂.root = m.root := by rw [← hm₂]; simpa using hroot₁
  have hsame₂ (b : α) (hb : b ≠ f.node ∧ b ≠ s ∧ b ≠ right) : m₂.nodes b = m₁.nodes b := by
    rw [← hm₂]
    simp [hb.1, hb.2.1, hb.2.2]
  have hsf : s ≠ f.node := by grind
  have hsr : s ≠ right := by grind
  have hs₂ : m₂.nodes s = cell .left (some f.node) sred none (some right) := by
    rw [← hm₂]
    simp [hsr, hsf, hsame s (by grind), hs, cell, orient, CRBNode.setChild]
  refine ⟨m₁, right, ma, hright, hpop, hsame, hdetached.holds, ?_⟩
  rw [hm₂]
  have hn₂ : m₂.nodes n = m₁.nodes n := hsame₂ n (by grind)
  have hparent₂ : m₂.parent n = above path := by rw [Memory.parent, hn₂, ← hparent, Memory.parent]
  have hred₂ : m₂.isRed n = red := by rw [Memory.isRed, hn₂]; exact hred
  have hpath₂ (b : α) (hb : above path = some b) : m₂.nodes b = m.nodes b := (hsame₂ b (by grind)).trans (hpath b hb)
  have hslot₂ : Slot m₂ path n := (hframes.slot (by grind)).congr hroot₂ hpath₂
  obtain ⟨hs', hl', hc', hhung, hrest, hnext⟩ := cRbnodeReplaceBySuccessor_nodes (l := a) (s := s) (p := f.node)
    (c := c.root?) hslot₂ hparent₂ hred₂ (by rw [hs₂]; rfl) (by grind) (by grind) (by grind) (by grind) (by grind)
    (by grind) (by
      rintro g rest rfl
      have hg := habove g.node rfl
      exact ⟨by grind, by grind, by grind⟩)
  refine ⟨?_, ?_, ⟨fun g rest heq => ?_, hhung.root.trans ?_⟩, fun b hb => ?_, fun b hb => ?_, ?_⟩
  · rw [hs', hs₂]
    rfl
  · rw [hl', hsame₂ a (by grind), hsame a (by grind)]
  · rw [hhung.frame g rest heq, hpath₂ g.node (by rw [heq, above_cons])]
  · rw [hroot₂]
  · obtain ⟨hbn, hbs, hba, hbpath⟩ := hb
    by_cases hbc : c.root? = some b
    · have hbr : b ≠ right := by grind
      have hbf : b ≠ f.node := by grind
      rw [if_neg hbr, hc' b hbc, hsame₂ b ⟨hbf, hbs, hbr⟩, hsame b hbn, ← hma]
      simp [hbc, hbf]
    · rw [hrest b hbs hba hbc hbpath, ← hm₂, ← hma]
      by_cases hbr : b = right
      · by_cases hbf : b = f.node
        · simp [← hbr, ← hbf, hbc, hbs, hsame b hbn]
        · simp [← hbr, hbf, hbc, hbs, hsame b hbn]
      · by_cases hbf : b = f.node
        · simp [hbr, ← hbf, hbc, hbs, hsame b hbn]
        · simp [hbr, hbf, hbc, hbs, hsame b hbn]
  · obtain ⟨hbn, hbs, hba, hbc, hbpath, hbf, hbr⟩ := hb
    rw [hrest b hbs hba hbc hbpath, hsame₂ b ⟨hbf, hbs, hbr⟩, hsame b hbn]
  · rw [hnext, Memory.isRed, hs₂, flags_cell]

/-- Case 1.3 where the successor is further down. -/
theorem RepresentsAt.replaceByLeftmost {m : Memory α} {path rpath : List (Frame α)} {f : Frame α} {n a s : α}
    {red sred : Bool} {l c : ColourTree α}
    (h : RepresentsAt m path (.node red l n (plug (f :: rpath) (.node sred .nil s c)))) (hl : l.root? = some a)
    (hside : f.side = .left) :
    ∃ m₁ right, (plug (f :: rpath) (.node sred .nil s c)).root? = some right ∧ m.popRoot n = (path.isEmpty, m₁) ∧
      (∀ b, b ≠ n → m₁.nodes b = m.nodes b) ∧
      let m₂ := ((m₁.store .left f.node c.root?).store .right s (some right)).setParentAndFlags right (.node s) id
      let result := cRbnodeReplaceBySuccessor m₂ path.isEmpty n a s f.node c.root?
      Vacates m result.1 path n (.node red l s (plug (f :: rpath) (c.paint false))) ∧
        result.2 = if c.root?.isNone ∧ sred = false then some f.node else none := by
  obtain ⟨m₁, right, ma, hright, hpop, hsame, hbelow, hs', ha', hhung, hkey, hrest, hnext⟩ :=
    h.replaceByLeftmost_nodes hl hside
  have hat : RepresentsAt m ((f :: rpath) ++ ⟨.right, red, n, l⟩ :: path) (.node sred .nil s c) :=
    RepresentsAt.down_append (RepresentsAt.down h)
  have hrheld : Held ma (some n) (plug (f :: rpath) (c.paint false)) := hbelow.up_append.held
  obtain ⟨hframes, ⟨-, hlheld, -⟩, -⟩ := h
  have hnodup := hat.nodup
  have hrperm := perm_plug (f :: rpath) (c.paint false)
  have hkept := nodup_replaced hnodup hrperm
  have hrnodup : (plug (f :: rpath) (c.paint false)).inorder.Nodup := by
    rw [List.nodup_append, inorder, List.nodup_append, List.nodup_cons] at hkept
    exact hkept.1.2.1.2
  simp only [frameNodes_append, inorder, List.nil_append, frameNodes, List.cons_append, List.nodup_cons,
    List.nodup_append, List.mem_append, List.mem_cons] at hnodup
  have hrmem (b : α) : b ∈ (plug (f :: rpath) (c.paint false)).inorder ↔
      b ∈ c.inorder ∨ b = f.node ∨ b ∈ f.sibling.inorder ∨ b ∈ frameNodes rpath := by
    rw [hrperm.mem_iff, inorder_paint]
    simp [frameNodes]
  have hrightmem := (hrmem right).mp (mem_inorder_of_root? (hright _))
  have habove (b : α) (hb : above path = some b) := mem_frameNodes_of_above hb
  have hmem (t : ColourTree α) (b : α) (hb : t.root? = some b) : b ∈ t.inorder := mem_inorder_of_root? hb
  have ha := hmem l a hl
  have hrmoved : Held _ (some s) ((plug (f :: rpath) (c.paint false)).paint _) := hrheld.hang id hrnodup rfl
    (fun b hb => by
      rw [hright] at hb
      cases hb
      rw [hkey right (by grind), if_pos rfl]
      rfl)
    fun b hb hne => by
      rw [hright] at hne
      rw [hrmem] at hb
      rw [hkey b (by grind), if_neg (by grind)]
  have hlmoved : Held _ (some s) (l.paint l.isRed) := hlheld.hang id (by grind) rfl
    (fun b hb => by
      rw [hl] at hb
      cases hb
      exact ha')
    fun b hb hne => hrest b (by grind)
  rw [paint_isRed] at hlmoved hrmoved
  refine ⟨m₁, right, hright _, hpop, hsame, ⟨⟨?_, ⟨?_, hlmoved, hrmoved⟩, hkept⟩, fun b hbn hb hpb => ?_⟩, hnext⟩
  · exact hframes.rehang (by grind) hhung fun b hb hne => hrest b (by grind)
  · rw [hs', hl, hright]
  · simp only [inorder, List.mem_append, List.mem_cons, hrmem] at hb
    exact hrest b (by grind)

omit [DecidableEq α] in
/-- The leftmost node of a tree in memory, below frames that all lead left. -/
theorem Held.leftmost {m : Memory α} {up : Option α} {t : ColourTree α} {b : α} (h : Held m up t)
    (hb : t.root? = some b) :
    ∃ path red a r, t = plug path (.node red .nil a r) ∧ (∀ f ∈ path, f.side = .left) ∧
      ∀ fuel, path.length < fuel → cRbnodeLeftmost fuel m b = some a := by
  induction t generalizing up b with
  | nil => cases hb
  | node red l a r ihl _ =>
    cases hb
    obtain ⟨ha, hl, -⟩ := h
    cases hroot : l.root? with
    | none =>
      rw [root?_eq_none_iff.mp hroot]
      refine ⟨[], red, a, r, rfl, by simp, fun fuel hfuel => ?_⟩
      cases fuel with
      | zero => cases hfuel
      | succ fuel =>
        rw [cRbnodeLeftmost, cRbnodeOutermost, ha, child_cell, hroot]
    | some c =>
      obtain ⟨path, red', a', r', hplug, hleft, hfound⟩ := ihl hl hroot
      refine ⟨path ++ [⟨.left, red, a, r⟩], red', a', r', ?_, fun f hf => ?_, fun fuel hfuel => ?_⟩
      · rw [plug_append, ← hplug]
        rfl
      · rcases List.mem_append.mp hf with hf | hf
        · exact hleft f hf
        · rw [List.mem_singleton.mp hf]
      · cases fuel with
        | zero => cases hfuel
        | succ fuel =>
          rw [cRbnodeLeftmost, cRbnodeOutermost, ha, child_cell, hroot]
          exact hfound fuel (by simpa using hfuel)

omit [DecidableEq α] in
/-- A place that admits what moved there makes the whole a red-black tree again. -/
theorem Vacates.restores {m m' : Memory α} {path : List (Frame α)} {n : α} {t : ColourTree α} {scope : List α} {k : ℕ}
    (h : Vacates m m' path n t) (ht : t.Coloured k) (hpath : Admits path t.isRed k)
    (hscope : ∀ b, b = n ∨ b ∈ t.inorder ∨ b ∈ frameNodes path → b ∈ scope) :
    Restores m m' scope (plug path t).inorder :=
  ⟨plug path t, representsAt_iff.mpr h.holds, hpath.redBlack ht, rfl, fun b hb =>
    h.outside b (fun hn => hb (hscope b (.inl hn))) (fun hmem => hb (hscope b (.inr (.inl hmem))))
      fun hmem => hb (hscope b (.inr (.inr hmem)))⟩

/-- A place that is left short is rebalanced. -/
theorem Vacates.rebalance {m m' : Memory α} {path inner : List (Frame α)} {n : α} {t : ColourTree α} {scope : List α}
    {k fuel : ℕ} (h : Vacates m m' path n (plug inner t)) (ht : t.Coloured k) (hblack : t.isRed = false)
    (hpath : Admits (inner ++ path) false (k + 1)) (hfuel : (inner ++ path).length < fuel)
    (hscope : ∀ b, b = n ∨ b ∈ (plug inner t).inorder ∨ b ∈ frameNodes path → b ∈ scope) :
    ∃ m₂, cRbnodeRebalanceFrom fuel m' (above (inner ++ path)) t.root? = some m₂ ∧
      Restores m m₂ scope (plug path (plug inner t)).inorder := by
  obtain ⟨m₂, hm₂, hrestores⟩ := cRbnodeRebalanceFrom_restores fuel h.holds.down_append ht hblack hpath hfuel
  rw [plug_append] at hrestores
  refine ⟨m₂, hm₂, hrestores.trans (fun b hb => ?_) fun b hb => ?_⟩
  · rw [(perm_plug path _).mem_iff, List.mem_append] at hb
    exact hscope b (.inr hb)
  · exact h.outside b (fun hn => hb (hscope b (.inl hn))) (fun hmem => hb (hscope b (.inr (.inl hmem))))
      fun hmem => hb (hscope b (.inr (.inr hmem)))

/-- A node of a tree does not point to itself. -/
theorem RepresentsAt.isLinked {m : Memory α} {path : List (Frame α)} {t : ColourTree α} {n : α}
    (h : RepresentsAt m path t) (hroot : t.root? = some n) : m.isLinked n = true := by
  rw [Memory.isLinked, h.parent_root hroot, bne_iff_ne]
  exact fun heq => (List.nodup_append.mp h.nodup).2.2 n (mem_inorder_of_root? hroot) n (mem_frameNodes_of_above heq) rfl

/-- Removing a node without children. -/
theorem cRbnodeUnlinkStale_leaf (fuel : ℕ) {m : Memory α} {path : List (Frame α)} {n : α} {red : Bool}
    (h : RepresentsAt m path (.node red .nil n .nil)) (hcol : (plug path (.node red .nil n .nil)).RedBlack)
    (hfuel : path.length < fuel) :
    ∃ m', cRbnodeUnlinkStale fuel m n = some m' ∧
      Restores m m' (plug path (.node red .nil n .nil)).inorder (plug path .nil).inorder := by
  obtain ⟨k, hk, hadmits⟩ := admits_of_redBlack hcol
  have hnode : m.nodes n = cell .left (above path) red none none := h.held.1
  have hl : (m.nodes n).left = none := by rw [hnode]; rfl
  have hr : (m.nodes n).right = none := by rw [hnode]; rfl
  obtain ⟨m₁, hpop, hvacates, hparent, hred⟩ := h.cut
  have hunfold : cRbnodeUnlinkStale fuel m n = if red then some ((m₁.swapChild n none).pushRoot none path.isEmpty)
      else cRbnodeRebalance fuel ((m₁.swapChild n none).pushRoot none path.isEmpty) (above path) := by
    simp only [cRbnodeUnlinkStale, h.isLinked rfl, guard, if_true, hl, hr, hpop, hred, hparent, Option.bind_eq_bind,
      Option.pure_def, Option.bind_some]
  have hscope (b : α) (hb : b = n ∨ b ∈ (ColourTree.nil : ColourTree α).inorder ∨ b ∈ frameNodes path) :
      b ∈ (plug path (.node red .nil n .nil)).inorder := by
    rw [(perm_plug path _).mem_iff]
    rcases hb with rfl | hb | hb
    · simp [inorder]
    · simp [inorder] at hb
    · exact List.mem_append_right _ hb
  rw [hunfold]
  cases red with
  | true => exact ⟨_, rfl, hvacates.restores (coloured_nil.mpr (coloured_nil.mp hk.2.2.1)) hadmits.black hscope⟩
  | false =>
    cases k with
    | zero => exact absurd hk id
    | succ k =>
      have hshort : Vacates m _ path n (plug [] .nil) := hvacates
      exact hshort.rebalance hk.1 rfl hadmits hfuel hscope

/-- Removing a node with one child. -/
theorem cRbnodeReplaceByChild_restores {m : Memory α} {path : List (Frame α)} {s : Side} {n c : α} {red : Bool}
    {t : ColourTree α} (h : RepresentsAt m path (oriented s red t n .nil)) (hc : t.root? = some c)
    (hcol : (plug path (oriented s red t n .nil)).RedBlack) :
    Restores m (cRbnodeReplaceByChild m n c) (plug path (oriented s red t n .nil)).inorder (plug path t).inorder := by
  obtain ⟨k, hk, hadmits⟩ := admits_of_redBlack hcol
  rw [isRed_oriented] at hadmits
  have hvacates := h.replaceByChild hc
  have hscope (b : α) (hb : b = n ∨ b ∈ (t.paint false).inorder ∨ b ∈ frameNodes path) :
      b ∈ (plug path (oriented s red t n .nil)).inorder := by
    rw [(perm_plug path _).mem_iff, List.mem_append, mem_inorder_oriented]
    rw [inorder_paint] at hb
    tauto
  -- the only child is red and has no children, and the node is black
  have hchild : t.isRed = true ∧ t.Coloured 0 ∧ red = false ∧ k = 1 := by
    obtain ⟨near, far, ht⟩ := exists_oriented s hc
    cases red with
    | true =>
      obtain ⟨hblack, -, hcolt, hnil⟩ := coloured_red.mp hk
      rw [coloured_nil.mp hnil, ht, hblack] at hcolt
      exact absurd hcolt not_coloured_black_zero
    | false =>
      cases k with
      | zero => exact absurd hk not_coloured_black_zero
      | succ k =>
        obtain ⟨hcolt, hnil⟩ := coloured_black.mp hk
        rw [coloured_nil.mp hnil] at hcolt ⊢
        refine ⟨?_, hcolt, rfl, rfl⟩
        cases hred : t.isRed with
        | true => rfl
        | false =>
          rw [ht, hred] at hcolt
          exact absurd hcolt not_coloured_black_zero
  obtain ⟨htred, htcol, rfl, rfl⟩ := hchild
  have hrestores := hvacates.restores (htcol.paint_black htred) (by simpa using hadmits) hscope
  rwa [inorder_plug_congr (inorder_paint false t)] at hrestores

/-- Once the successor has taken the place, its child closes the gap it left, or the tree is rebalanced from there. -/
theorem Vacates.closeGap {m m₁ : Memory α} {path inner : List (Frame α)} {n s p : α} {c : ColourTree α} {sred : Bool}
    {next : Option α} {scope : List α} {k fuel : ℕ} (h : Vacates m m₁ path n (plug inner (c.paint false)))
    (hk : (ColourTree.node sred .nil s c).Coloured k) (hadmits : Admits (inner ++ path) sred k)
    (habove : above (inner ++ path) = some p)
    (hnext : next = if c.root?.isNone ∧ sred = false then some p else none) (hfuel : (inner ++ path).length < fuel)
    (hscope : ∀ b, b = n ∨ b ∈ (plug inner (c.paint false)).inorder ∨ b ∈ frameNodes path → b ∈ scope) :
    ∃ m', (if next.isSome then cRbnodeRebalance fuel m₁ next else some m₁) = some m' ∧
      Restores m m' scope (plug path (plug inner c)).inorder := by
  have horder : (plug path (plug inner (c.paint false))).inorder = (plug path (plug inner c)).inorder :=
    inorder_plug_congr (inorder_plug_congr (inorder_paint false c))
  have hdone {j : ℕ} (hcol : (c.paint false).Coloured j) (hpath : Admits (inner ++ path) false j)
      (hnone : next = none) :
      ∃ m', (if next.isSome then cRbnodeRebalance fuel m₁ next else some m₁) = some m' ∧
        Restores m m' scope (plug path (plug inner c)).inorder := by
    refine ⟨m₁, by simp [hnone], plug path (plug inner (c.paint false)), representsAt_iff.mpr h.holds, ?_, horder,
      fun b hb => h.outside b (fun hn => hb (hscope b (.inl hn))) (fun hmem => hb (hscope b (.inr (.inl hmem))))
        fun hmem => hb (hscope b (.inr (.inr hmem)))⟩
    rw [← plug_append]
    refine Admits.redBlack ?_ hcol
    rw [isRed_paint]
    exact hpath
  cases sred with
  | true =>
    obtain ⟨-, hcblack, hnil, hc⟩ := hk
    have hpaint : c.paint false = c := by rw [← hcblack, paint_isRed]
    exact hdone (hpaint.symm ▸ hc) hadmits.black (by simp [hnext])
  | false =>
    cases k with
    | zero => exact absurd hk id
    | succ k =>
      obtain ⟨hnil, hc⟩ := hk
      rw [coloured_nil.mp hnil] at hc hadmits
      cases hroot : c.root? with
      | none =>
        have hcnil := root?_eq_none_iff.mp hroot
        rw [hroot] at hnext
        subst hcnil
        obtain ⟨m', hm', hrestores⟩ := h.rebalance (k := 0) rfl rfl hadmits hfuel hscope
        rw [habove] at hm'
        refine ⟨m', ?_, hrestores⟩
        rw [hnext]
        exact hm'
      | some b =>
        have hcred : c.isRed = true := by
          cases hred : c.isRed with
          | true => rfl
          | false =>
            obtain ⟨near, far, htree⟩ := exists_oriented .left hroot
            rw [htree, hred] at hc
            exact absurd hc not_coloured_black_zero
        exact hdone (hc.paint_black hcred) hadmits (by simp [hnext, hroot])

/-- Removing a node with two children. -/
theorem cRbnodeUnlinkStale_interior (fuel : ℕ) {m : Memory α} {path : List (Frame α)} {n a b : α} {red : Bool}
    {l r : ColourTree α} (h : RepresentsAt m path (.node red l n r)) (hl : l.root? = some a) (hr : r.root? = some b)
    (hcol : (plug path (.node red l n r)).RedBlack) (hfuel : (plug path (.node red l n r)).depth < fuel) :
    ∃ m', cRbnodeUnlinkStale fuel m n = some m' ∧ Restores m m' (plug path (.node red l n r)).inorder
      (before path ++ (l.inorder ++ r.inorder) ++ after path) := by
  have hlinked := h.isLinked rfl
  have hnode : m.nodes n = cell .left (above path) red l.root? r.root? := h.held.1
  have hnl : (m.nodes n).left = some a := by rw [hnode, ← hl]; rfl
  have hnr : (m.nodes n).right = some b := by rw [hnode, ← hr]; rfl
  obtain ⟨m₁, hpop, -, -, -, hsame⟩ := h.pop rfl
  have hunfold {m₂ : Memory α} {s p : α} {c : Option α}
      (hdetach : cRbnodeDetachSuccessor fuel m₁ b = some (m₂, s, p, c)) : cRbnodeUnlinkStale fuel m n =
      if (cRbnodeReplaceBySuccessor m₂ path.isEmpty n a s p c).2.isSome then
        cRbnodeRebalance fuel (cRbnodeReplaceBySuccessor m₂ path.isEmpty n a s p c).1
          (cRbnodeReplaceBySuccessor m₂ path.isEmpty n a s p c).2
      else some (cRbnodeReplaceBySuccessor m₂ path.isEmpty n a s p c).1 := by
    simp only [cRbnodeUnlinkStale, hlinked, guard, if_true, hnl, hnr, hpop, hdetach, Option.bind_eq_bind,
      Option.pure_def, Option.bind_some]
  have hnr' : n ∉ r.inorder := by
    have hnodup := (List.nodup_append.mp h.nodup).1
    rw [inorder, List.nodup_middle, List.nodup_cons, List.mem_append, not_or] at hnodup
    exact hnodup.1.2
  have hheld₁ : Held m₁ (some n) r := h.held.2.2.congr fun x hx => hsame x fun heq => hnr' (heq ▸ hx)
  obtain ⟨rpath, sred, s, c, hplug, hleft, hfound⟩ := hheld₁.leftmost hr
  have hsr : s ∈ r.inorder := by
    rw [hplug, (perm_plug rpath _).mem_iff]
    simp [inorder]
  have hsn : s ≠ n := fun heq => hnr' (heq ▸ hsr)
  -- the position of the successor's child, and what it admits
  have hwhole : plug path (.node red l n r) = plug (rpath ++ ⟨.right, red, n, l⟩ :: path) (.node sred .nil s c) := by
    rw [hplug, plug_append]
    rfl
  obtain ⟨k, hk, hadmits⟩ := admits_of_redBlack (hwhole ▸ hcol)
  have hadmits' : Admits ((rpath ++ [Frame.mk .right red s l]) ++ path) sred k := by
    rw [List.append_assoc]
    exact admits_relabel rpath path .right red n s l hadmits
  have hfuel' : ((rpath ++ [Frame.mk .right red s l]) ++ path).length < fuel := by
    have hdepth := length_le_depth_plug (rpath ++ ⟨.right, red, n, l⟩ :: path) (.node sred .nil s c)
    rw [← hwhole] at hdepth
    simp only [List.length_append, List.length_cons, List.length_nil] at hdepth ⊢
    omega
  have hscope (x : α) (hx : x = n ∨ x ∈ (plug (rpath ++ [Frame.mk .right red s l]) (c.paint false)).inorder ∨
      x ∈ frameNodes path) : x ∈ (plug path (.node red l n r)).inorder := by
    rw [hwhole, (perm_plug _ _).mem_iff]
    rw [(perm_plug _ _).mem_iff, inorder_paint] at hx
    simp only [frameNodes_append, frameNodes, inorder, List.mem_append, List.mem_cons, List.nil_append] at hx ⊢
    tauto
  have horder : (plug path (plug (rpath ++ [Frame.mk .right red s l]) c)).inorder =
      before path ++ (l.inorder ++ r.inorder) ++ after path := by
    rw [inorder_plug, plug_append, hplug, inorder_plug rpath, before_of_left hleft]
    simp [fill, oriented, inorder, inorder_plug, before_of_left hleft]
  have hfinish {m₂ : Memory α} {next : Option α} {p : α}
      (hvacates : Vacates m m₂ path n (.node red l s (plug rpath (c.paint false))))
      (habove : above ((rpath ++ [Frame.mk .right red s l]) ++ path) = some p)
      (hnext : next = if c.root?.isNone ∧ sred = false then some p else none) :
      ∃ m', (if next.isSome then cRbnodeRebalance fuel m₂ next else some m₂) = some m' ∧
        Restores m m' (plug path (.node red l n r)).inorder
          (before path ++ (l.inorder ++ r.inorder) ++ after path) := by
    rw [← horder]
    refine Vacates.closeGap ?_ hk hadmits' habove hnext hfuel' hscope
    rw [plug_append]
    exact hvacates
  cases rpath with
  | nil =>
    rw [hplug] at h hr
    cases hr
    obtain ⟨m₁', hpop', hsleft, hsright, hvacates, hnext⟩ := RepresentsAt.replaceByRight h hl
    rw [hpop] at hpop'
    cases hpop'
    have hdetach : cRbnodeDetachSuccessor fuel m₁ b = some (m₁, b, b, c.root?) := by
      rw [cRbnodeDetachSuccessor, hsleft, hsright]
    rw [hunfold hdetach]
    exact hfinish hvacates rfl hnext
  | cons f rest =>
    rw [hplug] at h
    obtain ⟨m₁', right, hright, hpop', -, hvacates, hnext⟩ := RepresentsAt.replaceByLeftmost h hl
      (hleft f List.mem_cons_self)
    rw [hpop] at hpop'
    cases hpop'
    rw [hplug, hright] at hr
    cases hr
    have hparent : m₁.parent s = some f.node := by
      have hat : RepresentsAt m ((f :: rest) ++ ⟨.right, red, n, l⟩ :: path) (.node sred .nil s c) :=
        RepresentsAt.down_append (RepresentsAt.down h)
      rw [Memory.parent, hsame s hsn]
      exact hat.parent_root rfl
    have hsright : (m₁.nodes s).right = c.root? := by
      have hat : RepresentsAt m ((f :: rest) ++ ⟨.right, red, n, l⟩ :: path) (.node sred .nil s c) :=
        RepresentsAt.down_append (RepresentsAt.down h)
      rw [hsame s hsn, hat.held.1]
      rfl
    have hlength : (f :: rest).length < fuel := by
      simp only [List.length_append, List.length_cons] at hfuel' ⊢
      omega
    obtain ⟨c₁, hc₁⟩ : ∃ c₁, (m₁.nodes b).left = some c₁ := by
      cases hleftmost : (m₁.nodes b).left with
      | some c₁ => exact ⟨c₁, rfl⟩
      | none =>
        -- the root of the right subtree would be the successor, which is below it
        have hfirst := hfound ((f :: rest).length + 1) (Nat.lt_succ_self _)
        rw [cRbnodeLeftmost, cRbnodeOutermost, CRBNode.child, hleftmost] at hfirst
        cases hfirst
        obtain ⟨b', hb', hroot⟩ := exists_root_plug f rest
        rw [hroot] at hright
        cases hright
        have hrnodup : (plug (f :: rest) (.node sred .nil b c)).inorder.Nodup := by
          have hnodup := (List.nodup_append.mp h.nodup).1
          rw [inorder, List.nodup_middle, List.nodup_cons, List.nodup_append] at hnodup
          exact hnodup.2.2.1
        rw [(perm_plug _ _).nodup_iff, List.nodup_append] at hrnodup
        exact absurd rfl (hrnodup.2.2 b (by simp [inorder]) b hb')
    have hdetach : cRbnodeDetachSuccessor fuel m₁ b =
        some (((m₁.store .left f.node c.root?).store .right s (some b)).setParentAndFlags b (.node s) id,
          s, f.node, c.root?) := by
      rw [cRbnodeDetachSuccessor, hc₁]
      simp only [hfound fuel hlength, hparent, hsright, Option.bind_eq_bind, Option.bind_some, Option.pure_def]
    rw [hunfold hdetach]
    exact hfinish hvacates rfl hnext

/-- Removing a node from a red-black tree: the result is a red-black tree of the other nodes in the same order. -/
theorem cRbnodeUnlinkStale_restores (fuel : ℕ) {m : Memory α} {t : ColourTree α} {n : α} (h : Represents m t)
    (hcol : t.RedBlack) (hn : n ∈ t.inorder) (hfuel : t.depth < fuel) :
    ∃ m', cRbnodeUnlinkStale fuel m n = some m' ∧ Restores m m' t.inorder (t.inorder.erase n) := by
  obtain ⟨path, red, l, r, rfl⟩ := exists_plug hn
  have hat : RepresentsAt m path (.node red l n r) := representsAt_iff.mp h
  have horder : (plug path (.node red l n r)).inorder.erase n =
      before path ++ (l.inorder ++ r.inorder) ++ after path := by
    have hsplit : (plug path (.node red l n r)).inorder =
        (before path ++ l.inorder) ++ n :: (r.inorder ++ after path) := by
      rw [inorder_plug]
      simp [inorder]
    have hnodup := h.nodup
    rw [hsplit, List.nodup_middle, List.nodup_cons, List.mem_append, not_or] at hnodup
    rw [hsplit, List.erase_append_right _ hnodup.1.1, List.erase_cons_head]
    simp only [List.append_assoc]
  rw [horder]
  have hnode : m.nodes n = cell .left (above path) red l.root? r.root? := hat.held.1
  have hone {s : Side} {t : ColourTree α} {c : α}
      (htree : ColourTree.node red l n r = oriented s red t n .nil) (hc : t.root? = some c)
      (hstep : cRbnodeUnlinkStale fuel m n = some (cRbnodeReplaceByChild m n c)) :
      ∃ m', cRbnodeUnlinkStale fuel m n = some m' ∧
        Restores m m' (plug path (.node red l n r)).inorder (plug path t).inorder := by
    rw [htree] at hat hcol ⊢
    exact ⟨_, hstep, cRbnodeReplaceByChild_restores hat hc hcol⟩
  cases hl : l.root? with
  | none =>
    have hnl : (m.nodes n).left = none := by rw [hnode, hl]; rfl
    cases hr : r.root? with
    | none =>
      rw [root?_eq_none_iff.mp hl, root?_eq_none_iff.mp hr] at hat hcol hfuel ⊢
      have hdepth := length_le_depth_plug path (.node red .nil n .nil)
      have hleaf := cRbnodeUnlinkStale_leaf fuel hat hcol (by omega)
      rwa [inorder_plug path .nil] at hleaf
    | some c =>
      have hnr : (m.nodes n).right = some c := by rw [hnode, hr]; rfl
      have hresult := hone (s := .right) (t := r) (by rw [root?_eq_none_iff.mp hl]; rfl) hr
        (by simp [cRbnodeUnlinkStale, hat.isLinked rfl, guard, hnl, hnr])
      rw [inorder_plug path r] at hresult
      rw [root?_eq_none_iff.mp hl] at hresult ⊢
      exact hresult
  | some a =>
    have hnl : (m.nodes n).left = some a := by rw [hnode, hl]; rfl
    cases hr : r.root? with
    | none =>
      have hnr : (m.nodes n).right = none := by rw [hnode, hr]; rfl
      have hresult := hone (s := .left) (t := l) (by rw [root?_eq_none_iff.mp hr]; rfl) hl
        (by simp [cRbnodeUnlinkStale, hat.isLinked rfl, guard, hnl, hnr])
      rw [inorder_plug path l] at hresult
      rw [root?_eq_none_iff.mp hr] at hresult ⊢
      rwa [inorder, List.append_nil]
    | some b => exact cRbnodeUnlinkStale_interior fuel hat hl hr hcol hfuel

/-- A node that is unlinked points to itself afterwards. -/
theorem cRbnodeUnlink_restores (fuel : ℕ) {m : Memory α} {t : ColourTree α} {n : α} (h : Represents m t)
    (hcol : t.RedBlack) (hn : n ∈ t.inorder) (hfuel : t.depth < fuel) :
    ∃ m', cRbnodeUnlink fuel m n = some m' ∧ Restores m m' t.inorder (t.inorder.erase n) ∧ m'.parent n = some n := by
  have hlinked : m.isLinked n = true := by
    obtain ⟨path, red, l, r, hplug⟩ := exists_plug hn
    have hat := h
    rw [hplug] at hat
    exact (representsAt_iff.mp hat).isLinked rfl
  obtain ⟨m₁, hm₁, t', ht', hcol', horder, hsame⟩ := cRbnodeUnlinkStale_restores fuel h hcol hn hfuel
  have hn' : n ∉ t'.inorder := by
    rw [horder, h.nodup.mem_erase_iff]
    exact fun hmem => hmem.1 rfl
  refine ⟨m₁.modify n fun _ => ⟨.node n, ⟨false, false⟩, none, none⟩, ?_, ⟨t', ⟨ht'.root, ?_, ht'.nodup⟩, hcol', horder,
    fun b hb => ?_⟩, ?_⟩
  · rw [cRbnodeUnlink, if_pos hlinked, hm₁]
    rfl
  · refine ht'.held.congr fun b hb => ?_
    have hbn : b ≠ n := fun heq => hn' (heq ▸ hb)
    rw [nodes_modify, if_neg hbn]
  · have hbn : b ≠ n := fun heq => hb (heq ▸ hn)
    rw [nodes_modify, if_neg hbn]
    exact hsame b hb
  · rw [Memory.parent, nodes_modify, if_pos rfl]
    rfl

end DbusBroker.Rbtree
