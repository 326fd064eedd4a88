import DbusBroker.Rbtree.Held

/-!
# Adding a node

A new node is linked red. While its parent is red too, the colours are pushed up the tree, and
where that ends below a black uncle one or two rotations restore the red-black conditions. The
induction is on the rounds of the loop; it carries the tree in memory, seen from the red node.
-/

namespace DbusBroker.Rbtree

open ColourTree Frame

variable {α : Type} [DecidableEq α]

/-- What the rotation on the grandparent leaves in memory. -/
theorem cRbtreePaintOuter_nodes {m : Memory α} {s : Side} {p g : α} {path : List (Frame α)} {hole a x u : Option α}
    {raw : RawParent α} (hslot : Slot m path g)
    (hg : m.nodes g = cell s (above path) false hole u) (hp : m.nodes p = orient s raw ⟨true, false⟩ a x)
    (hpg : p ≠ g) (hxp : x ≠ some p) (hxg : x ≠ some g)
    (hframe : ∀ f rest, path = f :: rest → f.node ≠ p ∧ x ≠ some f.node) :
    let m' := cRbtreePaintOuter m s p g (above path)
    m'.nodes p = cell s (above path) false a (some g) ∧ m'.nodes g = cell s (some p) true x u ∧
    (∀ b, x = some b → m'.nodes b = (m.nodes b).setParent (.node g) (m.nodes b).flags.toBlack) ∧
    Rehung m m' path (some p) ∧
    ∀ b, b ≠ p → b ≠ g → x ≠ some b → above path ≠ some b → m'.nodes b = m.nodes b := by
  intro m'
  have hgp : g ≠ p := hpg.symm
  cases path with
  | nil =>
    have hm' : m' = cRbtreePaintOuter m s p g none := rfl
    rw [cRbtreePaintOuter, hp, child_other_orient, popRoot_of_root (by rw [hg]; simp)] at hm'
    dsimp only at hm'
    rw [swapChild_of_none (by simp [Memory.parent, hgp, hg, cell, CRBNode.parent])] at hm'
    rw [hm']
    refine ⟨?_, ?_, fun b hb => ?_, ⟨fun f rest h => (by cases h), rfl⟩, fun b hbp hbg hbx _ => ?_⟩
    · simp [hp, hpg, hxp, cell, word, RawParent.ofNode, CRBFlags.toBlack]
    · simp [hg, hpg, hgp, hxg, cell, word, CRBFlags.toRed]
    · have hbp : b ≠ p := fun h => hxp (by rw [hb, h])
      have hbg : b ≠ g := fun h => hxg (by rw [hb, h])
      simp [hb, hbp, hbp.symm, hbg, CRBFlags.toBlack]
    · simp [hbp, Ne.symm hbp, hbg, hbx]
  | cons f rest =>
    obtain ⟨hfcell, hfsib, hfg⟩ := hslot.frame f rest rfl
    obtain ⟨hfp, hxf⟩ := hframe f rest rfl
    have hm' : m' = cRbtreePaintOuter m s p g (some f.node) := rfl
    rw [cRbtreePaintOuter, hp, child_other_orient, popRoot_of_root_false (by rw [hg]; simp)] at hm'
    dsimp only at hm'
    rw [swapChild_of_frame f rest (by simp [Memory.parent, hgp, hg]) (by simp [hfp, hfg, hfcell]) hfsib] at hm'
    rw [hm']
    refine ⟨?_, ?_, fun b hb => ?_, ⟨fun f rest h => ?_, by simp⟩, fun b hbp hbg hbx hbf => ?_⟩
    · simp [hp, hpg, hxp, hfp.symm, cell, word, RawParent.ofNode, CRBFlags.toBlack]
    · simp [hg, hgp, hxg, hfg.symm, cell, word, CRBFlags.toRed]
    · have hbp : b ≠ p := fun h => hxp (by rw [hb, h])
      have hbg : b ≠ g := fun h => hxg (by rw [hb, h])
      have hbf : b ≠ f.node := fun h => hxf (by rw [hb, h])
      simp [hb, hbp, hbg, hbf, CRBFlags.toBlack]
    · cases h
      simp [hfp, hfg, hxf]
    · have hbf : b ≠ f.node := fun h => hbf (by rw [h]; rfl)
      simp [hbp, hbg, hbx, hbf]


/-- What the rotation on the parent leaves in memory; its place below the grandparent is not filled yet. -/
theorem cRbtreePaintInner_nodes {m : Memory α} {s : Side} {p n : α} {a x y : Option α} {raw raw' : RawParent α}
    (hp : m.nodes p = orient s raw ⟨true, false⟩ a (some n)) (hn : m.nodes n = orient s raw' ⟨true, false⟩ x y)
    (hpn : p ≠ n) (hxp : x ≠ some p) (hxn : x ≠ some n) :
    let m' := cRbtreePaintInner m s p n
    m'.nodes p = orient s (.node n) ⟨true, false⟩ a x ∧ m'.nodes n = orient s raw' ⟨true, false⟩ (some p) y ∧
    (∀ b, x = some b → m'.nodes b = (m.nodes b).setParent (.node p) (m.nodes b).flags) ∧ m'.root = m.root ∧
    ∀ b, b ≠ p → b ≠ n → x ≠ some b → m'.nodes b = m.nodes b := by
  intro m'
  have hm' : m' = cRbtreePaintInner m s p n := rfl
  rw [cRbtreePaintInner, hn, child_orient] at hm'
  have hnp : n ≠ p := hpn.symm
  rw [hm']
  refine ⟨?_, ?_, fun b hb => ?_, by simp, fun b hbp hbn hbx => ?_⟩
  · simp [hp, hpn, hxp]
  · simp [hn, hnp, hxn]
  · have hbp : b ≠ p := fun h => hxp (by rw [hb, h])
    have hbn : b ≠ n := fun h => hxn (by rw [hb, h])
    simp [hb, hbp, hbn]
  · simp [hbp, hbn, hbx]

/-- A red parent on the outer side is rotated above the grandparent. -/
theorem RepresentsAt.paintOuter {m : Memory α} {path : List (Frame α)} {s : Side} {near x u : ColourTree α} {p g : α}
    (h : RepresentsAt m path (oriented s false (oriented s true near p x) g u)) (hx : x.isRed = false) :
    Rewrites m (cRbtreePaintOuter m s p g (above path)) path (oriented s false near p (oriented s true x g u)) := by
  obtain ⟨hframes, hheld, hnodup⟩ := h
  rw [root?_oriented] at hframes
  obtain ⟨hg, hparent, hu⟩ := held_oriented.mp hheld
  obtain ⟨hp, hnear, hxheld⟩ := held_oriented.mp hparent
  rw [root?_oriented] at hg
  simp only [List.nodup_append, nodup_oriented, mem_inorder_oriented] at hnodup
  have habove (b : α) (hb : above path = some b) := mem_frameNodes_of_above hb
  have hmem (t : ColourTree α) (b : α) (hb : t.root? = some b) : b ∈ t.inorder := mem_inorder_of_root? hb
  obtain ⟨hp', hg', hx', hhung, hrest⟩ := cRbtreePaintOuter_nodes (hframes.slot (by grind)) hg hp (by grind)
    (by grind) (by grind) (by
      rintro f rest rfl
      have hf := habove f.node rfl
      exact ⟨by grind, by grind⟩)
  have hxmoved : Held _ (some g) (x.paint false) :=
    hxheld.hang CRBFlags.toBlack (by grind) rfl hx' fun b hb hne => hrest b (by grind) (by grind) hne (by grind)
  rw [← hx, paint_isRed] at hxmoved
  refine ⟨⟨?_, held_oriented.mpr ⟨?_, ?_, held_oriented.mpr ⟨hg', hxmoved, ?_⟩⟩, ?_⟩, fun b hb hpath => ?_⟩
  · rw [root?_oriented]
    exact hframes.rehang (by grind) hhung fun b hb hne => hrest b (by grind) (by grind) (by grind) hne
  · rw [root?_oriented]
    exact hp'
  · exact hnear.congr fun b hb => hrest b (by grind) (by grind) (by grind) (by grind)
  · exact hu.congr fun b hb => hrest b (by grind) (by grind) (by grind) (by grind)
  · simp only [List.nodup_append, nodup_oriented, mem_inorder_oriented]
    grind
  · simp only [mem_inorder_oriented] at hb
    exact hrest b (by grind) (by grind) (by grind) (by grind)

/-- A red node on the inner side is rotated above its parent first, and then above the grandparent. -/
theorem RepresentsAt.paintInner {m : Memory α} {path : List (Frame α)} {s : Side} {near x y u : ColourTree α}
    {p n g : α} (h : RepresentsAt m path (oriented s false (oriented s true near p (oriented s true x n y)) g u))
    (hx : x.isRed = false) (hy : y.isRed = false) :
    Rewrites m (cRbtreePaintOuter (cRbtreePaintInner m s p n) s n g (above path)) path
      (oriented s false (oriented s true near p x) n (oriented s true y g u)) := by
  obtain ⟨hframes, hheld, hnodup⟩ := h
  rw [root?_oriented] at hframes
  obtain ⟨hg, hparent, hu⟩ := held_oriented.mp hheld
  obtain ⟨hp, hnear, hnode⟩ := held_oriented.mp hparent
  obtain ⟨hn, hxheld, hyheld⟩ := held_oriented.mp hnode
  rw [root?_oriented] at hg hp
  simp only [List.nodup_append, nodup_oriented, mem_inorder_oriented] at hnodup
  have habove (b : α) (hb : above path = some b) := mem_frameNodes_of_above hb
  have hmem (t : ColourTree α) (b : α) (hb : t.root? = some b) : b ∈ t.inorder := mem_inorder_of_root? hb
  obtain ⟨hp₁, hn₁, hx₁, hroot₁, hrest₁⟩ := cRbtreePaintInner_nodes hp hn (by grind) (by grind) (by grind)
  have hframes₁ := hframes.congr hroot₁ fun b hb => hrest₁ b (by grind) (by grind) (by grind)
  have hg₁ := (hrest₁ g (by grind) (by grind) (by grind)).trans hg
  obtain ⟨hn', hg', hy', hhung, hrest⟩ := cRbtreePaintOuter_nodes (hframes₁.slot (by grind)) hg₁ hn₁ (by grind)
    (by grind) (by grind) (by
      rintro f rest rfl
      have hf := habove f.node rfl
      exact ⟨by grind, by grind⟩)
  have hp' := (hrest p (by grind) (by grind) (by grind) (by grind)).trans hp₁
  have hxmoved : Held _ (some p) (x.paint false) := hxheld.hang id (by grind) (by rw [hx]; rfl)
    (fun b hb => (hrest b (by grind) (by grind) (by grind) (by grind)).trans (hx₁ b hb))
    fun b hb hne => (hrest b (by grind) (by grind) (by grind) (by grind)).trans (hrest₁ b (by grind) (by grind) hne)
  have hymoved : Held _ (some g) (y.paint false) :=
    (hyheld.congr fun b hb => hrest₁ b (by grind) (by grind) (by grind)).hang CRBFlags.toBlack (by grind) rfl hy' fun b hb hne =>
      hrest b (by grind) (by grind) hne (by grind)
  rw [← hx, paint_isRed] at hxmoved
  rw [← hy, paint_isRed] at hymoved
  refine ⟨⟨?_, held_oriented.mpr ⟨?_, held_oriented.mpr ⟨hp', ?_, hxmoved⟩, held_oriented.mpr ⟨hg', hymoved, ?_⟩⟩, ?_⟩,
    fun b hb hpath => ?_⟩
  · rw [root?_oriented]
    exact hframes₁.rehang (by grind) hhung fun b hb hne => hrest b (by grind) (by grind) (by grind) hne
  · rw [root?_oriented, root?_oriented]
    exact hn'
  · exact hnear.congr fun b hb => (hrest b (by grind) (by grind) (by grind) (by grind)).trans
      (hrest₁ b (by grind) (by grind) (by grind))
  · exact hu.congr fun b hb => (hrest b (by grind) (by grind) (by grind) (by grind)).trans
      (hrest₁ b (by grind) (by grind) (by grind))
  · simp only [List.nodup_append, nodup_oriented, mem_inorder_oriented]
    grind
  · simp only [mem_inorder_oriented] at hb
    exact (hrest b (by grind) (by grind) (by grind) (by grind)).trans (hrest₁ b (by grind) (by grind) (by grind))

/-- A red uncle takes the blackness of the grandparent, and so does the parent. -/
theorem RepresentsAt.recolour {m : Memory α} {path : List (Frame α)} {s : Side} {t u : ColourTree α} {p g q : α}
    (h : RepresentsAt m path (oriented s false t g u)) (hp : t.root? = some p) (hq : u.root? = some q) :
    let m₁ := m.setParentAndFlags p (.node g) CRBFlags.toBlack
    let m₂ := m₁.setParentAndFlags q (.node g) CRBFlags.toBlack
    Rewrites m (m₂.setParentAndFlags g (m₂.nodes g).raw CRBFlags.toRed) path
      (oriented s true (t.paint false) g (u.paint false)) := by
  obtain ⟨hframes, hheld, hnodup⟩ := h
  obtain ⟨hg, ht, hu⟩ := held_oriented.mp hheld
  have hnodup' := hnodup
  simp only [List.nodup_append, nodup_oriented, mem_inorder_oriented] at hnodup
  have hpmem := mem_inorder_of_root? hp
  have hqmem := mem_inorder_of_root? hq
  have hpq : p ≠ q := by grind
  have hpg : p ≠ g := by grind
  have hqg : q ≠ g := by grind
  intro m₁ m₂
  refine ⟨⟨?_, held_oriented.mpr ⟨?_, ?_, ?_⟩, ?_⟩, fun b hb hpath => ?_⟩
  · rw [root?_oriented] at hframes ⊢
    refine hframes.congr rfl fun b hb => ?_
    have hbp : b ≠ p := by grind
    have hbq : b ≠ q := by grind
    have hbg : b ≠ g := by grind
    simp [m₁, m₂, hbp, hbq, hbg]
  · simp [m₁, m₂, hpg.symm, hqg.symm, hg, cell, CRBFlags.toRed]
  · refine ht.hang CRBFlags.toBlack (by grind) rfl (fun b hb => ?_) fun b hb hne => ?_
    · rw [hp] at hb
      cases hb
      simp [m₁, m₂, hpg, hpq, word]
    · have hbp : b ≠ p := fun heq => hne (by rw [hp, heq])
      have hbq : b ≠ q := by grind
      have hbg : b ≠ g := by grind
      simp [m₁, m₂, hbp, hbq, hbg]
  · refine hu.hang CRBFlags.toBlack (by grind) rfl (fun b hb => ?_) fun b hb hne => ?_
    · rw [hq] at hb
      cases hb
      simp [m₁, m₂, hqg, hpq.symm, word]
    · have hbq : b ≠ q := fun heq => hne (by rw [hq, heq])
      have hbp : b ≠ p := by grind
      have hbg : b ≠ g := by grind
      simp [m₁, m₂, hbp, hbq, hbg]
  · simp only [List.nodup_append, nodup_oriented, mem_inorder_oriented, inorder_paint]
    grind
  · simp only [mem_inorder_oriented, inorder_paint] at hb
    have hbp : b ≠ p := by grind
    have hbq : b ≠ q := by grind
    have hbg : b ≠ g := by grind
    simp [m₁, m₂, hbp, hbq, hbg]

/-- A red child of a red parent below a black uncle: the rotations restore the tree. -/
theorem cRbtreePaintTerminal_rewrites {m : Memory α} {f g : Frame α} {path : List (Frame α)} {t : ColourTree α}
    {n : α} {k : ℕ} (h : RepresentsAt m (f :: g :: path) t) (hroot : t.root? = some n) (hred : t.isRed = true)
    (ht : t.Coloured k) (hsib : f.sibling.Coloured k ∧ f.sibling.isRed = false) (hf : f.red = true)
    (huncle : g.sibling.Coloured k ∧ g.sibling.isRed = false) (hg : g.red = false) :
    ∃ m' t', cRbtreePaintTerminal m n = some m' ∧ Rewrites m m' path t' ∧ t'.isRed = false ∧ t'.Coloured (k + 1) ∧
      t'.inorder = (g.fill (f.fill t)).inorder := by
  obtain ⟨fs, fred, p, sib⟩ := f
  obtain ⟨s, gred, q, u⟩ := g
  dsimp only at hf hg hsib huncle
  subst hf hg
  have hnparent : m.parent n = some p := h.parent_root hroot
  have hpparent : m.parent p = some q := h.up.parent_root (root?_oriented ..)
  have hqparent : m.parent q = above path := h.up.up.parent_root (root?_oriented ..)
  have hpred : m.isRed p = true := h.isRed_frame
  have hqred : m.isRed q = false := h.up.isRed_frame
  obtain ⟨hqcell, hqne⟩ := h.up.nodes_frame
  obtain ⟨hpcell, hpne⟩ := h.nodes_frame
  rw [fill, root?_oriented] at hqcell hqne
  rw [hroot] at hpcell hpne
  dsimp only at hqcell hqne hpcell hpne
  have hside : m.sideOf q (some p) = s := sideOf_eq hqcell fun heq => by cases hqne heq
  have hu : m.isBlackOrNull u.root? = true := by
    rw [h.up.frames.2.1.isBlackOrNull, huncle.2]
    rfl
  have hleft : (m.nodes q).left = some p ∨ m.isBlackOrNull (m.nodes q).left = true := by
    rw [hqcell]
    cases s with
    | left => exact .inl rfl
    | right => exact .inr hu
  have hright : (m.nodes q).right = some p ∨ m.isBlackOrNull (m.nodes q).right = true := by
    rw [hqcell]
    cases s with
    | left => exact .inr hu
    | right => exact .inl rfl
  have hresult : cRbtreePaintTerminal m n = some (if (m.nodes p).child s.other = some n then
      cRbtreePaintOuter (cRbtreePaintInner m s p n) s n q (above path)
      else cRbtreePaintOuter m s p q (above path)) := by
    rw [cRbtreePaintTerminal]
    simp only [hnparent, hpparent, hqparent, hpred, hqred, hside, hleft, hright, Option.bind_eq_bind, Option.bind_some,
      guard, and_self, if_true, Option.pure_def]
    split <;> rfl
  have hwhole := h.up.up
  rw [fill, fill] at hwhole
  rcases Side.eq_or_eq_other fs s with rfl | rfl
  · have houter : (m.nodes p).child fs.other ≠ some n := by
      rw [hpcell, child_other_cell]
      exact fun heq => by cases hpne heq
    rw [if_neg houter] at hresult
    refine ⟨_, _, hresult, hwhole.paintOuter hsib.2, isRed_oriented .., ?_, ?_⟩
    · exact coloured_black.mpr ⟨ht, coloured_red.mpr ⟨hsib.2, huncle.2, hsib.1, huncle.1⟩⟩
    · cases fs <;> simp [fill, oriented, inorder]
  · obtain ⟨x, y, htree, -⟩ := h.nodes_root hroot s
    have hinner : (m.nodes p).child s.other = some n := by rw [hpcell, child_cell]
    rw [if_pos hinner] at hresult
    rw [hred] at htree
    rw [htree] at ht
    obtain ⟨hx, hy, hxcol, hycol⟩ := coloured_red.mp ht
    dsimp only at hwhole
    rw [oriented_other, htree] at hwhole
    refine ⟨_, _, hresult, hwhole.paintInner hx hy, isRed_oriented .., ?_, ?_⟩
    · exact coloured_black.mpr ⟨coloured_red.mpr ⟨hsib.2, hx, hsib.1, hxcol⟩,
        coloured_red.mpr ⟨hy, huncle.2, hycol, huncle.1⟩⟩
    · rw [htree]
      cases s <;> simp [fill, oriented, inorder, Side.other]

/-- The loop that pushes the colours up ends, and the tree it leaves is a red-black tree of the same order. -/
theorem cRbtreePaint_restores (fuel : ℕ) {m : Memory α} {path : List (Frame α)} {t : ColourTree α} {n : α} {k : ℕ}
    (h : RepresentsAt m path t) (hroot : t.root? = some n) (hred : t.isRed = true) (ht : t.Coloured k)
    (hpath : Admits path false k) (hfuel : path.length < 2 * fuel) :
    ∃ m', cRbtreePaint fuel m n = some m' ∧ Restores m m' (plug path t).inorder (plug path t).inorder := by
  induction fuel generalizing m path t n k with
  | zero => exact absurd hfuel (Nat.not_lt_zero _)
  | succ fuel ih =>
    have hparent : m.parent n = above path := h.parent_root hroot
    cases path with
    | nil =>
      refine ⟨m.setParentAndFlags n (m.nodes n).raw CRBFlags.toBlack, ?_, ?_⟩
      · rw [cRbtreePaint, cRbtreePaintPath, hparent]
        rfl
      · have hraw : (m.nodes n).raw = word none := by
          obtain ⟨near, far, -, hn⟩ := h.nodes_root hroot .left
          rw [hn]
          rfl
        refine (h.repaint hroot hraw CRBFlags.toBlack fun flags => rfl).restores (k := k + 1) (ht.paint_black hred) ?_ (inorder_paint false t)
        rw [isRed_paint]
        exact hpath
    | cons f rest =>
      have hf : m.isRed f.node = f.red := h.isRed_frame
      cases hfred : f.red with
      | false =>
        refine ⟨m, ?_, (Rewrites.refl h).restores ht ?_ rfl⟩
        · rw [cRbtreePaint, cRbtreePaintPath, hparent]
          simp [hf, hfred]
        · have hrest := hpath.2
          rw [if_neg (by simp [hfred])] at hrest
          refine ⟨hpath.1, ?_⟩
          rw [if_neg (by simp [hfred])]
          exact hrest
      | true =>
        obtain ⟨hsib, hrest⟩ := hpath
        rw [if_pos hfred] at hrest
        cases rest with
        | nil => cases hrest.2.2
        | cons g rest =>
          obtain ⟨-, hsibblack, huncle, hg⟩ := hrest
          have hgred : g.red = false := by
            cases hgred : g.red with
            | false => rfl
            | true =>
              rw [if_pos hgred] at hg
              cases hg.1
          rw [if_neg (by simp [hgred])] at hg
          have hgparent : m.parent f.node = some g.node := h.up.parent_root (root?_oriented ..)
          have hslot := h.up.nodes_frame
          rw [fill, root?_oriented] at hslot
          have hside : m.sideOf g.node (some f.node) = g.side := sideOf_eq hslot.1 fun heq => by cases hslot.2 heq
          have hchild : (m.nodes g.node).child g.side.other = g.sibling.root? := by rw [hslot.1, child_other_cell]
          have hnot : m.isBlackOrNull g.sibling.root? = !g.sibling.isRed := h.up.frames.2.1.isBlackOrNull
          cases hured : g.sibling.isRed with
          | false =>
            have hstop : cRbtreePaint (fuel + 1) m n = cRbtreePaintTerminal m n := by
              rw [hured] at hnot
              rw [cRbtreePaint, cRbtreePaintPath, hparent]
              simp only [above_cons, hf, hfred, if_true, hgparent, Option.bind_eq_bind, Option.bind_some, hside, hchild]
              cases hu : g.sibling.root? with
              | none => rfl
              | some u =>
                have hublack : m.isRed u = false := by simpa [hu, Memory.isBlackOrNull] using hnot
                simp [hublack]
            obtain ⟨m', t', hterminal, hrewrites, hblack, hcol, horder⟩ :=
              cRbtreePaintTerminal_rewrites h hroot hred ht ⟨hsib, hsibblack⟩ hfred ⟨huncle, hured⟩ hgred
            exact ⟨m', hstop.trans hterminal, hrewrites.restores hcol (hblack ▸ hg) horder⟩
          | true =>
            obtain ⟨u, hu⟩ : ∃ u, g.sibling.root? = some u := by
              cases hsibling : g.sibling with
              | nil => simp [hsibling, isRed] at hured
              | node red l a r => exact ⟨a, rfl⟩
            have hured' : m.isRed u = true := by simpa [hu, hured, Memory.isBlackOrNull] using hnot
            have hwhole : RepresentsAt m rest (oriented g.side false (f.fill t) g.node g.sibling) := hgred ▸ h.up.up
            have hrewrites := hwhole.recolour (root?_oriented ..) hu
            have hfill : ((f.fill t).paint false).Coloured (k + 1) := by
              rw [fill, paint_oriented]
              exact coloured_black.mpr ⟨ht, hsib⟩
            obtain ⟨m', hm', hrestores⟩ := ih hrewrites.holds (root?_oriented ..) (isRed_oriented ..)
              (coloured_red.mpr ⟨by simp, by simp, hfill, huncle.paint_black hured⟩) hg
              (by simp only [List.length_cons] at hfuel; omega)
            refine ⟨m', ?_, ?_⟩
            · rw [cRbtreePaint] at hm'
              rw [cRbtreePaint, cRbtreePaintPath, hparent]
              simpa only [above_cons, hf, hfred, if_true, hgparent, Option.bind_eq_bind, Option.bind_some, hside,
                hchild, hu, hured'] using hm'
            · have horder : (plug rest (oriented g.side true ((f.fill t).paint false) g.node
                  (g.sibling.paint false))).inorder = (plug (f :: g :: rest) t).inorder := by
                refine inorder_plug_congr ?_
                cases hgside : g.side <;> simp [fill, hgside, oriented, inorder]
              rw [horder] at hrestores
              refine hrestores.trans (List.Subset.refl _) fun b hb => ?_
              rw [← horder, (perm_plug rest _).mem_iff, List.mem_append, not_or] at hb
              exact hrewrites.outside b hb.1 hb.2

/-- The slot a path ends in, as `c_rbtree_add` is given it. -/
def slotOf (path : List (Frame α)) : Option (α × Side) := path.head?.map fun f => (f.node, f.side)

/-- The fresh node is linked red into its slot. -/
theorem RepresentsAt.link {m : Memory α} {path : List (Frame α)} {n : α} (h : RepresentsAt m path .nil)
    (hn : n ∉ frameNodes path) :
    ∃ m₁, (∀ fuel, cRbtreeAdd fuel m (slotOf path) n = cRbtreePaint fuel m₁ n) ∧
      Rewrites m m₁ path (.node true .nil n .nil) := by
  have hnodup : ([n] ++ frameNodes path).Nodup := List.nodup_cons.mpr ⟨hn, h.nodup⟩
  cases path with
  | nil =>
    refine ⟨(m.initNode n none).pushRoot (some n) true, fun fuel => rfl, ⟨⟨rfl, ⟨?_, trivial, trivial⟩, hnodup⟩, ?_⟩⟩
    · simp [Memory.initNode, cell, orient, word, CRBNode.setParent, CRBNode.setChild, root?]
    · intro b hb _
      have hbn : b ≠ n := fun heq => hb (by simp [heq, inorder])
      simp [Memory.initNode, hbn, hbn.symm]
  | cons f rest =>
    have hfn : f.node ≠ n := fun heq => hn (by simp [heq, frameNodes])
    have hother (b : α) (hbn : b ≠ n) (hbf : b ≠ f.node) :
        (((m.initNode n (some f.node)).store f.side f.node (some n)).nodes b) = m.nodes b := by
      simp [Memory.initNode, hbn, hbf]
    refine ⟨(m.initNode n (some f.node)).store f.side f.node (some n), fun fuel => rfl,
      ⟨⟨?_, ⟨?_, trivial, trivial⟩, hnodup⟩, ?_⟩⟩
    · refine h.frames.rehang h.nodup ⟨fun g path heq => ?_, rfl⟩ fun b hb hne => hother b ?_ ?_
      · cases heq
        simp [Memory.initNode, hfn, root?]
      · exact fun heq => hn (heq ▸ hb)
      · exact fun heq => hne (heq ▸ rfl)
    · simp [Memory.initNode, hfn.symm, cell, orient, word, CRBNode.setParent, CRBNode.setChild, root?,
        RawParent.ofNode]
    · exact fun b hb hpath => hother b (fun heq => hb (by simp [heq, inorder]))
        fun heq => hpath (by simp [heq, frameNodes])

/-- Adding a node to a red-black tree, at any slot of it: the result is a red-black tree with the node at that place. -/
theorem cRbtreeAdd_restores (fuel : ℕ) {m : Memory α} {path : List (Frame α)} {n : α} (h : RepresentsAt m path .nil)
    (hcol : (plug path .nil).RedBlack) (hn : n ∉ frameNodes path) (hfuel : path.length < 2 * fuel) :
    ∃ m', cRbtreeAdd fuel m (slotOf path) n = some m' ∧
      Restores m m' (before path ++ n :: after path) (before path ++ n :: after path) := by
  obtain ⟨k, hk, hadmits⟩ := admits_of_redBlack hcol
  obtain ⟨m₁, hadd, hrewrites⟩ := h.link hn
  rw [coloured_nil] at hk
  obtain ⟨m', hm', hrestores⟩ := cRbtreePaint_restores fuel hrewrites.holds rfl rfl (hk ▸ ⟨rfl, rfl, rfl, rfl⟩ :
    (ColourTree.node true .nil n .nil).Coloured k) hadmits hfuel
  refine ⟨m', (hadd fuel).trans hm', ?_⟩
  have horder : (plug path (.node true .nil n .nil)).inorder = before path ++ n :: after path := by
    rw [inorder_plug]
    simp [inorder]
  have hmem := (perm_plug path (.node true .nil n .nil))
  rw [horder] at hrestores hmem
  refine hrestores.trans (List.Subset.refl _) fun b hb => ?_
  rw [hmem.mem_iff, List.mem_append, not_or] at hb
  exact hrewrites.outside b hb.1 hb.2

end DbusBroker.Rbtree
