import DbusBroker.Rbtree.Held

/-!
# Rebalancing after a removal

The position of a removed black leaf is one black node short. While the sibling and its
children are black, the sibling is painted red and the shortage moves up to the parent; it ends
at a red parent, at the root, or with the rotations of the terminal step. The induction is on
the rounds of the loop; it carries the tree in memory, seen from the short position.
-/

namespace DbusBroker.Rbtree

open ColourTree Frame

variable {α : Type} [DecidableEq α]

/-- What the last rotation leaves in memory. -/
theorem cRbnodeRebalanceRotate_nodes {m : Memory α} {s : Side} {p q x : α} {path : List (Frame α)}
    {hole far y z : Option α} {red : Bool} {raw : RawParent α} {flags : CRBFlags} (hslot : Slot m path p)
    (hp : m.nodes p = cell s (above path) red hole far) (hq : m.nodes q = orient s raw flags y z)
    (hpq : p ≠ q) (hxp : x ≠ p) (hxq : x ≠ q) (hyp : y ≠ some p) (hyq : y ≠ some q) (hyx : y ≠ some x)
    (hframe : ∀ f rest, path = f :: rest → f.node ≠ q ∧ f.node ≠ x ∧ y ≠ some f.node) :
    let m' := cRbnodeRebalanceRotate m s p q x
    m'.nodes q = cell s (above path) red (some p) z ∧ m'.nodes p = cell s (some q) false hole y ∧
    m'.nodes x = (m.nodes x).setParent (.node q) (m.nodes x).flags.toBlack ∧
    (∀ b, y = some b → m'.nodes b = (m.nodes b).setParent (.node p) (m.nodes b).flags) ∧
    Rehung m m' path (some q) ∧
    ∀ b, b ≠ p → b ≠ q → b ≠ x → y ≠ some b → above path ≠ some b → m'.nodes b = m.nodes b := by
  intro m'
  have hqp : q ≠ p := hpq.symm
  have hyb (b : α) (hb : y = some b) : b ≠ p ∧ b ≠ q ∧ b ≠ x :=
    ⟨fun h => hyp (by rw [hb, h]), fun h => hyq (by rw [hb, h]), fun h => hyx (by rw [hb, h])⟩
  cases path with
  | nil =>
    have hm' : m' = cRbnodeRebalanceRotate m s p q x := rfl
    have hy : ((m.setParentAndFlags p .null fun flags => { flags with root := false }).nodes q).child s = y := by
      simp [hqp, hq]
    rw [cRbnodeRebalanceRotate, popRoot_of_root (by rw [hp]; simp)] at hm'
    dsimp only at hm'
    rw [hy, swapChild_of_none (by simp [Memory.parent, hpq, hp, cell, CRBNode.parent])] at hm'
    rw [hm']
    refine ⟨?_, ?_, ?_, fun b hb => ?_, ⟨fun f rest h => (by cases h), rfl⟩, fun b hbp hbq hbx hby _ => ?_⟩
    · simp [hq, hp, hpq, hqp, hxq.symm, hyq, hxp.symm, hyp, Memory.parent, CRBNode.parent, cell, word, RawParent.ofNode]
    · simp [hp, hpq, hqp, hxp.symm, hyp, cell, word, CRBFlags.toBlack]
    · simp [hxp, hxq, hxq.symm, hyx, CRBFlags.toBlack]
    · obtain ⟨hbp, hbq, hbx⟩ := hyb b hb
      simp [hb, hbp, hbq, hbq.symm, hbx]
    · simp [hbp, hbq, Ne.symm hbq, hbx, hby]
  | cons f rest =>
    obtain ⟨hfcell, hfsib, hfp⟩ := hslot.frame f rest rfl
    obtain ⟨hfq, hfx, hyf⟩ := hframe f rest rfl
    have hparent : m.parent p = some f.node := by rw [Memory.parent, hp, parent_cell, above_cons]
    have hm' : m' = cRbnodeRebalanceRotate m s p q x := rfl
    rw [cRbnodeRebalanceRotate, popRoot_of_root_false (by rw [hp]; simp)] at hm'
    dsimp only at hm'
    rw [hq, child_orient, swapChild_of_frame f rest (by simp [Memory.parent, hpq, hp]) (by simp [hfp, hfq, hfcell]) hfsib] at hm'
    rw [hm']
    refine ⟨?_, ?_, ?_, fun b hb => ?_, ⟨fun f rest h => ?_, by simp⟩, fun b hbp hbq hbx hby hbf => ?_⟩
    · simp [hq, hp, hpq, hqp, hxq.symm, hyq, hxp.symm, hyp, hfq.symm, hfp.symm, hparent, cell, word, RawParent.ofNode]
    · simp [hp, hpq, hxp.symm, hyp, hfp.symm, cell, word, CRBFlags.toBlack]
    · simp [hxp, hxq, hyx, hfx.symm, CRBFlags.toBlack]
    · obtain ⟨hbp, hbq, hbx⟩ := hyb b hb
      have hbf : b ≠ f.node := fun h => hyf (by rw [hb, h])
      simp [hb, hbp, hbq, hbx, hbf]
    · cases h
      simp [hfp, hfq, hfx, hyf]
    · have hbf : b ≠ f.node := fun h => hbf (by rw [h]; rfl)
      simp [hbp, hbq, hbx, hby, hbf]

/-- Case 6: the red child of the sibling that is away from the short side turns black, and the sibling is rotated
above the parent. -/
theorem RepresentsAt.rotateOuter {m : Memory α} {path : List (Frame α)} {s : Side} {red : Bool}
    {t y x : ColourTree α} {p q a : α} (h : RepresentsAt m path (oriented s red t p (oriented s false y q x)))
    (hx : x.root? = some a) :
    Rewrites m (cRbnodeRebalanceRotate m s p q a) path
      (oriented s red (oriented s false t p y) q (x.paint false)) := by
  obtain ⟨hframes, hheld, hnodup⟩ := h
  rw [root?_oriented] at hframes
  obtain ⟨hp, ht, hsibling⟩ := held_oriented.mp hheld
  obtain ⟨hq, hy, hxheld⟩ := held_oriented.mp hsibling
  simp only [List.nodup_append, nodup_oriented, mem_inorder_oriented] at hnodup
  have habove (b : α) (hb : above path = some b) := mem_frameNodes_of_above hb
  have hmem (t : ColourTree α) (b : α) (hb : t.root? = some b) : b ∈ t.inorder := mem_inorder_of_root? hb
  have ha := hmem x a hx
  obtain ⟨hq', hp', hx', hy', hhung, hrest⟩ := cRbnodeRebalanceRotate_nodes (x := a) (hframes.slot (by grind)) hp hq
    (by grind) (by grind) (by grind) (by grind) (by grind) (by grind) (by
      rintro f rest rfl
      have hf := habove f.node rfl
      exact ⟨by grind, by grind, by grind⟩)
  have hymoved : Held _ (some p) (y.paint y.isRed) := hy.hang id (by grind) rfl hy' fun b hb hne =>
    hrest b (by grind) (by grind) (by grind) hne (by grind)
  rw [paint_isRed] at hymoved
  have hxmoved : Held _ (some q) (x.paint false) := hxheld.hang CRBFlags.toBlack (by grind) rfl
    (fun b hb => by
      rw [hx] at hb
      cases hb
      exact hx')
    fun b hb hne => hrest b (by grind) (by grind) (by grind) (by grind) (by grind)
  refine ⟨⟨?_, held_oriented.mpr ⟨?_, held_oriented.mpr ⟨hp', ?_, hymoved⟩, hxmoved⟩, ?_⟩, fun b hb hpath => ?_⟩
  · rw [root?_oriented]
    exact hframes.rehang (by grind) hhung fun b hb hne => hrest b (by grind) (by grind) (by grind) (by grind) hne
  · rw [root?_oriented, root?_paint]
    exact hq'
  · exact ht.congr fun b hb => hrest b (by grind) (by grind) (by grind) (by grind) (by grind)
  · simp only [List.nodup_append, nodup_oriented, mem_inorder_oriented, inorder_paint]
    grind
  · simp only [mem_inorder_oriented, inorder_paint] at hb
    exact hrest b (by grind) (by grind) (by grind) (by grind) (by grind)

/-- What the first rotation of case 5 leaves in memory. -/
theorem cRbnodeRebalanceInner_nodes {m : Memory α} {s : Side} {p q r : α} {up hole far a b z : Option α} {red : Bool}
    {raw : RawParent α} {flags : CRBFlags} (hp : m.nodes p = cell s up red hole far)
    (hq : m.nodes q = cell s (some p) false (some r) z) (hr : m.nodes r = orient s raw flags a b)
    (hpq : p ≠ q) (hpr : p ≠ r) (hqr : q ≠ r) (hbp : b ≠ some p) (hbq : b ≠ some q) (hbr : b ≠ some r) :
    let m' := cRbnodeRebalanceInner m s p q r
    m'.nodes p = cell s up red hole (some r) ∧ m'.nodes q = cell s (some p) false b z ∧
    m'.nodes r = orient s raw flags a (some q) ∧
    (∀ c, b = some c → m'.nodes c = (m.nodes c).setParent (.node q) (m.nodes c).flags.toBlack) ∧
    m'.root = m.root ∧ ∀ c, c ≠ p → c ≠ q → c ≠ r → b ≠ some c → m'.nodes c = m.nodes c := by
  intro m'
  have hm' : m' = cRbnodeRebalanceInner m s p q r := rfl
  rw [cRbnodeRebalanceInner, hr, child_other_orient] at hm'
  rw [hm']
  refine ⟨?_, ?_, ?_, fun c hc => ?_, by simp, fun c hcp hcq hcr hbc => ?_⟩
  · simp [hp, hpq, hpr, hbp]
  · simp [hq, hpq.symm, hqr, hbq]
  · simp [hr, hpr.symm, hqr.symm, hbr]
  · have hcp : c ≠ p := fun h => hbp (by rw [hc, h])
    have hcq : c ≠ q := fun h => hbq (by rw [hc, h])
    have hcr : c ≠ r := fun h => hbr (by rw [hc, h])
    simp [hc, hcp, hcq, hcr]
  · simp [hcp, hcq, hcr, hbc]

/-- Cases 5 and 6: the red child of the sibling that is on the short side is rotated above the sibling, and then above
the parent. -/
theorem RepresentsAt.rotateInner {m : Memory α} {path : List (Frame α)} {s : Side} {red : Bool}
    {t a b z : ColourTree α} {p q r : α}
    (h : RepresentsAt m path (oriented s red t p (oriented s false (oriented s true a r b) q z)))
    (hb : b.isRed = false) :
    Rewrites m (cRbnodeRebalanceRotate (cRbnodeRebalanceInner m s p q r) s p r q) path
      (oriented s red (oriented s false t p a) r (oriented s false b q z)) := by
  obtain ⟨hframes, hheld, hnodup⟩ := h
  rw [root?_oriented] at hframes
  obtain ⟨hp, ht, hsibling⟩ := held_oriented.mp hheld
  obtain ⟨hq, hnear, hz⟩ := held_oriented.mp hsibling
  obtain ⟨hr, ha, hbheld⟩ := held_oriented.mp hnear
  rw [root?_oriented] at hq
  simp only [List.nodup_append, nodup_oriented, mem_inorder_oriented] at hnodup
  have habove (b : α) (hb : above path = some b) := mem_frameNodes_of_above hb
  have hmem (t : ColourTree α) (b : α) (hb : t.root? = some b) : b ∈ t.inorder := mem_inorder_of_root? hb
  obtain ⟨hp₁, hq₁, hr₁, hb₁, hroot₁, hrest₁⟩ := cRbnodeRebalanceInner_nodes hp hq hr (by grind) (by grind) (by grind)
    (by grind) (by grind) (by grind)
  have hframes₁ := hframes.congr hroot₁ fun c hc => hrest₁ c (by grind) (by grind) (by grind) (by grind)
  obtain ⟨hr', hp', hq', ha', hhung, hrest⟩ := cRbnodeRebalanceRotate_nodes (x := q) (hframes₁.slot (by grind)) hp₁ hr₁
    (by grind) (by grind) (by grind) (by grind) (by grind) (by grind) (by
      rintro f rest rfl
      have hf := habove f.node rfl
      exact ⟨by grind, by grind, by grind⟩)
  have hq'' : (cRbnodeRebalanceRotate (cRbnodeRebalanceInner m s p q r) s p r q).nodes q =
      cell s (some r) false b.root? z.root? := by
    rw [hq', hq₁, cell, flags_orient, setParent_orient]
    rfl
  have hsame (c : α) (hc : c ≠ p ∧ c ≠ q ∧ c ≠ r ∧ a.root? ≠ some c ∧ b.root? ≠ some c ∧ c ∉ frameNodes path) :=
    (hrest c hc.1 hc.2.2.1 hc.2.1 hc.2.2.2.1 (by grind)).trans (hrest₁ c hc.1 hc.2.1 hc.2.2.1 hc.2.2.2.2.1)
  have hamoved : Held _ (some p) (a.paint a.isRed) := ha.hang id (by grind) rfl
    (fun c hc => (ha' c hc).trans (by rw [hrest₁ c (by grind) (by grind) (by grind) (by grind)]; rfl))
    fun c hc hne => hsame c (by grind)
  have hbmoved : Held _ (some q) (b.paint false) := hbheld.hang CRBFlags.toBlack (by grind) rfl
    (fun c hc => (hrest c (by grind) (by grind) (by grind) (by grind) (by grind)).trans (hb₁ c hc))
    fun c hc hne => hsame c (by grind)
  rw [paint_isRed] at hamoved
  rw [← hb, paint_isRed] at hbmoved
  refine ⟨⟨?_, held_oriented.mpr ⟨?_, held_oriented.mpr ⟨hp', ?_, hamoved⟩, held_oriented.mpr ⟨hq'', hbmoved, ?_⟩⟩, ?_⟩,
    fun c hc hpath => ?_⟩
  · rw [root?_oriented]
    exact hframes₁.rehang (by grind) hhung fun c hc hne => hrest c (by grind) (by grind) (by grind) (by grind) hne
  · rw [root?_oriented, root?_oriented]
    exact hr'
  · exact ht.congr fun c hc => hsame c (by grind)
  · exact hz.congr fun c hc => hsame c (by grind)
  · simp only [List.nodup_append, nodup_oriented, mem_inorder_oriented]
    grind
  · simp only [mem_inorder_oriented] at hc
    exact hsame c (by grind)

/-- What the rotation of case 2 leaves in memory. -/
theorem cRbnodeRebalanceRed_nodes {m : Memory α} {s : Side} {p q x : α} {path : List (Frame α)} {hole far z : Option α}
    (hslot : Slot m path p) (hp : m.nodes p = cell s (above path) false hole far)
    (hq : m.nodes q = cell s (some p) true (some x) z) (hpq : p ≠ q) (hxp : x ≠ p) (hxq : x ≠ q)
    (hframe : ∀ f rest, path = f :: rest → f.node ≠ q ∧ f.node ≠ x) :
    ∃ m', cRbnodeRebalanceRed m s p q = some (m', x) ∧
    m'.nodes q = cell s (above path) false (some p) z ∧ m'.nodes p = cell s (some q) true hole (some x) ∧
    m'.nodes x = (m.nodes x).setParent (.node p) (m.nodes x).flags.toBlack ∧ Rehung m m' path (some q) ∧
    ∀ b, b ≠ p → b ≠ q → b ≠ x → above path ≠ some b → m'.nodes b = m.nodes b := by
  have hqp : q ≠ p := hpq.symm
  cases path with
  | nil =>
    have hx : ((m.setParentAndFlags p .null fun flags => { flags with root := false }).nodes q).child s = some x := by
      simp [hqp, hq]
    rw [cRbnodeRebalanceRed, popRoot_of_root (by rw [hp]; simp)]
    simp only [hx, Option.bind_eq_bind, Option.bind_some, Option.pure_def]
    rw [swapChild_of_none (by simp [Memory.parent, hpq, hp, cell, CRBNode.parent])]
    refine ⟨_, rfl, ?_, ?_, ?_, ⟨fun f rest h => (by cases h), rfl⟩, fun b hbp hbq hbx _ => ?_⟩
    · simp [hq, hp, hqp, hxq.symm, Memory.parent, CRBNode.parent, cell, word, RawParent.ofNode, CRBFlags.toBlack]
    · simp [hp, hpq, hqp, hxp.symm, cell, word, CRBFlags.toRed]
    · simp [hxp, hxq, hxq.symm, CRBFlags.toBlack]
    · simp [hbp, hbq, Ne.symm hbq, hbx]
  | cons f rest =>
    obtain ⟨hfcell, hfsib, hfp⟩ := hslot.frame f rest rfl
    obtain ⟨hfq, hfx⟩ := hframe f rest rfl
    have hparent : m.parent p = some f.node := by rw [Memory.parent, hp, parent_cell, above_cons]
    rw [cRbnodeRebalanceRed, popRoot_of_root_false (by rw [hp]; simp)]
    simp only [hq, child_cell, Option.bind_eq_bind, Option.bind_some, Option.pure_def]
    rw [swapChild_of_frame f rest (by simp [Memory.parent, hpq, hp]) (by simp [hfp, hfq, hfcell]) hfsib]
    refine ⟨_, rfl, ?_, ?_, ?_, ⟨fun f rest h => ?_, by simp⟩, fun b hbp hbq hbx hbf => ?_⟩
    · simp [hq, hqp, hxq.symm, hfq.symm, hparent, cell, word, RawParent.ofNode, CRBFlags.toBlack]
    · simp [hp, hpq, hxp.symm, hfp.symm, cell, word, CRBFlags.toRed]
    · simp [hxp, hxq, hfx.symm, CRBFlags.toBlack]
    · cases h
      simp [hfp, hfq, hfx]
    · have hbf : b ≠ f.node := fun h => hbf (by rw [h]; rfl)
      simp [hbp, hbq, hbx, hbf]

/-- Case 2: a red sibling is rotated above the parent, which leaves a red parent and a black sibling. -/
theorem RepresentsAt.rotateRed {m : Memory α} {path : List (Frame α)} {s : Side} {t x z : ColourTree α} {p q a : α}
    (h : RepresentsAt m path (oriented s false t p (oriented s true x q z))) (ha : x.root? = some a)
    (hx : x.isRed = false) :
    ∃ m', cRbnodeRebalanceRed m s p q = some (m', a) ∧
      Rewrites m m' path (oriented s false (oriented s true t p x) q z) := by
  obtain ⟨hframes, hheld, hnodup⟩ := h
  rw [root?_oriented] at hframes
  obtain ⟨hp, ht, hsibling⟩ := held_oriented.mp hheld
  obtain ⟨hq, hxheld, hz⟩ := held_oriented.mp hsibling
  rw [ha] at hq
  simp only [List.nodup_append, nodup_oriented, mem_inorder_oriented] at hnodup
  have habove (b : α) (hb : above path = some b) := mem_frameNodes_of_above hb
  have hamem := mem_inorder_of_root? ha
  obtain ⟨m', hm', hq', hp', hx', hhung, hrest⟩ := cRbnodeRebalanceRed_nodes (hframes.slot (by grind)) hp hq (by grind)
    (by grind) (by grind) (by
      rintro f rest rfl
      have hf := habove f.node rfl
      exact ⟨by grind, by grind⟩)
  have hxmoved : Held m' (some p) (x.paint false) := hxheld.hang CRBFlags.toBlack (by grind) rfl
    (fun b hb => by
      rw [ha] at hb
      cases hb
      exact hx')
    fun b hb hne => hrest b (by grind) (by grind) (by grind) (by grind)
  rw [← hx, paint_isRed] at hxmoved
  refine ⟨m', hm', ⟨?_, held_oriented.mpr ⟨?_, held_oriented.mpr ⟨ha.symm ▸ hp', ?_, hxmoved⟩, ?_⟩, ?_⟩,
    fun b hb hpath => ?_⟩
  · rw [root?_oriented]
    exact hframes.rehang (by grind) hhung fun b hb hne => hrest b (by grind) (by grind) (by grind) hne
  · rw [root?_oriented]
    exact hq'
  · exact ht.congr fun b hb => hrest b (by grind) (by grind) (by grind) (by grind)
  · exact hz.congr fun b hb => hrest b (by grind) (by grind) (by grind) (by grind)
  · simp only [List.nodup_append, nodup_oriented, mem_inorder_oriented]
    grind
  · simp only [mem_inorder_oriented] at hb
    exact hrest b (by grind) (by grind) (by grind) (by grind)

/-- The sibling of a short position turns red. -/
theorem RepresentsAt.paintSibling {m : Memory α} {f : Frame α} {rest : List (Frame α)} {t : ColourTree α} {q : α}
    (h : RepresentsAt m (f :: rest) t) (hq : f.sibling.root? = some q) :
    Rewrites m (m.setParentAndFlags q (.node f.node) CRBFlags.toRed) rest
      (oriented f.side f.red t f.node (f.sibling.paint true)) := by
  have hup := h.up
  rw [fill, ← oriented_other] at hup
  have hsib : RepresentsAt m (⟨f.side.other, f.red, f.node, t⟩ :: rest) f.sibling := RepresentsAt.down hup
  have hword : RawParent.node f.node = word (above (⟨f.side.other, f.red, f.node, t⟩ :: rest)) := rfl
  have hpaint := (hsib.repaint hq hword CRBFlags.toRed fun flags => rfl).up
  rwa [fill, oriented_other] at hpaint

/-- Below a red node the shortage ends: its sibling turns red, and the node black. -/
theorem RepresentsAt.settle {m : Memory α} {f : Frame α} {rest : List (Frame α)} {t : ColourTree α} {q : α}
    (h : RepresentsAt m (f :: rest) t) (hq : f.sibling.root? = some q) (hrest : rest ≠ []) :
    let m₁ := m.setParentAndFlags q (.node f.node) CRBFlags.toRed
    Rewrites m (m₁.setParentAndFlags f.node (.ofNode (m₁.parent f.node)) CRBFlags.toBlack) rest
      (oriented f.side false t f.node (f.sibling.paint true)) := by
  intro m₁
  have hsibling := h.paintSibling hq
  have hparent : m₁.parent f.node = above rest := hsibling.holds.parent_root (root?_oriented ..)
  have hraw : RawParent.ofNode (m₁.parent f.node) = word (above rest) := by
    rw [hparent]
    cases rest with
    | nil => exact absurd rfl hrest
    | cons g rest => rfl
  have hpaint := hsibling.holds.repaint (root?_oriented ..) hraw CRBFlags.toBlack fun flags => rfl
  rw [paint_oriented] at hpaint
  refine hsibling.trans hpaint fun b hb => ?_
  rw [mem_inorder_oriented] at hb ⊢
  exact hb

/-- The terminal step at a black sibling that has a red child, or below a red parent. -/
theorem cRbnodeRebalanceBlack_restores {m : Memory α} {f : Frame α} {rest : List (Frame α)} {t : ColourTree α} {q : α}
    {k : ℕ} (h : RepresentsAt m (f :: rest) t) (ht : t.Coloured k)
    (hpath : Admits (f :: rest) false (k + 1)) (hq : f.sibling.root? = some q) (hsib : f.sibling.isRed = false)
    (hstop : f.red = true ∨ m.isBlackOrNull (m.nodes q).left = false ∨ m.isBlackOrNull (m.nodes q).right = false) :
    ∃ m', cRbnodeRebalanceBlack m f.side f.node q = some m' ∧
      Restores m m' (plug (f :: rest) t).inorder (plug (f :: rest) t).inorder := by
  obtain ⟨y, x, hsibling⟩ := exists_oriented f.side hq
  rw [hsib] at hsibling
  have hcol := hpath.1
  rw [hsibling, coloured_black] at hcol
  obtain ⟨hy, hx⟩ := hcol
  have hwhole := h.up
  rw [fill, hsibling] at hwhole
  obtain ⟨hqcell, hyheld, hxheld⟩ := held_oriented.mp (held_oriented.mp hwhole.held).2.2
  have hxblack := hxheld.isBlackOrNull
  have hyblack := hyheld.isBlackOrNull
  have hright : (m.nodes q).child f.side.other = x.root? := by rw [hqcell, child_other_cell]
  have hleft : (m.nodes q).child f.side = y.root? := by rw [hqcell, child_cell]
  have habove := hpath.above
  cases hxred : x.isRed with
  | true =>
    obtain ⟨a, ha⟩ := exists_root_of_isRed hxred
    have hrotate := hwhole.rotateOuter ha
    have hresult : cRbnodeRebalanceBlack m f.side f.node q = some (cRbnodeRebalanceRotate m f.side f.node q a) := by
      rw [ha, hxred] at hxblack
      simp [cRbnodeRebalanceBlack, hright, ha, hxblack]
    refine ⟨_, hresult, hrotate.restores (coloured_over (coloured_black.mpr ⟨ht, hy⟩) (hx.paint_black hxred)
      (isRed_oriented ..) (by simp)) ?_ ?_⟩
    · rw [isRed_oriented]
      exact habove
    · rw [fill, hsibling]
      cases f.side <;> simp [oriented, inorder]
  | false =>
    rw [hxred, Bool.not_false] at hxblack
    cases hyred : y.isRed with
    | true =>
      obtain ⟨r, hr⟩ := exists_root_of_isRed hyred
      obtain ⟨a, b, hnear⟩ := exists_oriented f.side hr
      rw [hyred] at hnear
      have hcol := hy
      rw [hnear, coloured_red] at hcol
      obtain ⟨ha, hb, hacol, hbcol⟩ := hcol
      rw [hnear] at hwhole
      have hrotate := hwhole.rotateInner hb
      have hresult : cRbnodeRebalanceBlack m f.side f.node q =
          some (cRbnodeRebalanceRotate (cRbnodeRebalanceInner m f.side f.node q r) f.side f.node r q) := by
        rw [hr, hyred] at hyblack
        simp [cRbnodeRebalanceBlack, hright, hleft, hxblack, hr, hyblack]
      refine ⟨_, hresult, hrotate.restores (coloured_over (coloured_black.mpr ⟨ht, hacol⟩)
        (coloured_black.mpr ⟨hbcol, hx⟩) (isRed_oriented ..) (isRed_oriented ..)) ?_ ?_⟩
      · rw [isRed_oriented]
        exact habove
      · rw [fill, hsibling, hnear]
        cases f.side <;> simp [oriented, inorder]
    | false =>
      rw [hyred, Bool.not_false] at hyblack
      -- the sibling has no red child, so that the parent is the red node
      have hred : f.red = true := by
        rcases hstop with hred | hnephew
        · exact hred
        · have hboth : m.isBlackOrNull (m.nodes q).left = true ∧ m.isBlackOrNull (m.nodes q).right = true := by
            rw [hqcell]
            cases f.side with
            | left => exact ⟨hyblack, hxblack⟩
            | right => exact ⟨hxblack, hyblack⟩
          rw [hboth.1, hboth.2] at hnephew
          exact absurd hnephew (by decide)
      rw [hred, if_pos rfl] at habove
      have hrest : rest ≠ [] := by
        rintro rfl
        cases habove
      have hsettle := h.settle hq hrest
      have hfred : m.isRed f.node = true := h.isRed_frame.trans hred
      have hresult : cRbnodeRebalanceBlack m f.side f.node q =
          some (((m.setParentAndFlags q (.node f.node) CRBFlags.toRed).setParentAndFlags f.node
            (.ofNode ((m.setParentAndFlags q (.node f.node) CRBFlags.toRed).parent f.node)) CRBFlags.toBlack)) := by
        simp [cRbnodeRebalanceBlack, hright, hleft, hxblack, hyblack, hfred, guard]
      have hsibcol : (f.sibling.paint true).Coloured k := by
        rw [hsibling, paint_oriented, coloured_red]
        exact ⟨hyred, hxred, hy, hx⟩
      refine ⟨_, hresult, hsettle.restores (coloured_black.mpr ⟨ht, hsibcol⟩) ?_ ?_⟩
      · rw [isRed_oriented]
        exact habove.black
      · rw [fill]
        cases f.side <;> simp [oriented, inorder]

/-- The side of the short position is found by its pointer, also where it is empty. -/
theorem RepresentsAt.sideOf_short {m : Memory α} {f : Frame α} {rest : List (Frame α)} {t : ColourTree α} {q : α}
    (h : RepresentsAt m (f :: rest) t) (hq : f.sibling.root? = some q) :
    m.sideOf f.node t.root? = f.side ∧ (m.nodes f.node).child f.side.other = some q := by
  obtain ⟨hcell, hne⟩ := h.nodes_frame
  refine ⟨sideOf_eq hcell fun heq => ?_, ?_⟩
  · have hnone := hne heq
    rw [← heq, hq] at hnone
    cases hnone
  · rw [hcell, child_other_cell, hq]

omit [DecidableEq α] in
/-- The colour of the sibling in memory. -/
theorem RepresentsAt.isRed_sibling {m : Memory α} {f : Frame α} {rest : List (Frame α)} {t : ColourTree α} {q : α}
    (h : RepresentsAt m (f :: rest) t) (hq : f.sibling.root? = some q) : m.isRed q = f.sibling.isRed := by
  have hblack := h.frames.2.1.isBlackOrNull
  rw [hq] at hblack
  exact Bool.not_inj hblack

/-- The terminal step restores the tree wherever the loop stops at it. -/
theorem cRbnodeRebalanceTerminal_restores {m : Memory α} {f : Frame α} {rest : List (Frame α)} {t : ColourTree α}
    {q : α} {k : ℕ} (h : RepresentsAt m (f :: rest) t) (ht : t.Coloured k)
    (hpath : Admits (f :: rest) false (k + 1)) (hq : f.sibling.root? = some q)
    (hstop : m.isRed q = true ∨ m.isBlackOrNull (m.nodes q).left = false ∨
      m.isBlackOrNull (m.nodes q).right = false) :
    ∃ m', cRbnodeRebalanceTerminal m f.node t.root? = some m' ∧
      Restores m m' (plug (f :: rest) t).inorder (plug (f :: rest) t).inorder := by
  obtain ⟨hside, hchild⟩ := h.sideOf_short hq
  have hqred := h.isRed_sibling hq
  cases hsibred : f.sibling.isRed with
  | false =>
    rw [hsibred] at hqred
    obtain ⟨m', hm', hrestores⟩ := cRbnodeRebalanceBlack_restores h ht hpath hq hsibred
      (.inr (hstop.resolve_left (by simp [hqred])))
    exact ⟨m', by simp [cRbnodeRebalanceTerminal, hside, hchild, hqred, hm'], hrestores⟩
  | true =>
    rw [hsibred] at hqred
    obtain ⟨hcol, hrest⟩ := hpath
    have hfred : f.red = false := by
      cases hfred : f.red with
      | false => rfl
      | true =>
        rw [if_pos hfred, hsibred] at hrest
        cases hrest.2.1
    rw [if_neg (by simp [hfred])] at hrest
    obtain ⟨x, z, hsibling⟩ := exists_oriented f.side hq
    rw [hsibred] at hsibling
    rw [hsibling, coloured_red] at hcol
    obtain ⟨hx, hz, hxcol, hzcol⟩ := hcol
    obtain ⟨a, ha⟩ := hxcol.exists_root
    have hwhole := h.up
    rw [fill, hfred, hsibling] at hwhole
    obtain ⟨m₁, hm₁, hrotate⟩ := hwhole.rotateRed ha hx
    have hbelow : RepresentsAt m₁ (⟨f.side, false, q, z⟩ :: rest) (oriented f.side true t f.node x) :=
      RepresentsAt.down hrotate.holds
    have hshort : RepresentsAt m₁ (⟨f.side, true, f.node, x⟩ :: ⟨f.side, false, q, z⟩ :: rest) t :=
      RepresentsAt.down hbelow
    obtain ⟨m', hm', hrestores⟩ := cRbnodeRebalanceBlack_restores hshort ht
      ⟨hxcol, by rw [if_pos rfl]; exact ⟨rfl, hx, hzcol, by rw [if_neg (by simp)]; exact hrest⟩⟩ ha hx (.inl rfl)
    refine ⟨m', by simp [cRbnodeRebalanceTerminal, hside, hchild, hqred, hm₁, hm'], ?_⟩
    have horder : (plug (⟨f.side, true, f.node, x⟩ :: ⟨f.side, false, q, z⟩ :: rest) t).inorder =
        (plug (f :: rest) t).inorder := by
      rw [plug_cons, plug_cons, plug_cons]
      refine inorder_plug_congr ?_
      rw [fill, fill, fill, hsibling]
      cases f.side <;> simp [oriented, inorder]
    rw [horder] at hrestores
    refine hrestores.trans (List.Subset.refl _) fun b hb => ?_
    rw [plug_cons, (perm_plug rest _).mem_iff, List.mem_append, not_or, fill, hsibling] at hb
    refine hrotate.outside b (fun hmem => hb.1 ?_) hb.2
    simp only [mem_inorder_oriented] at hmem ⊢
    tauto

omit [DecidableEq α] in
/-- A black sibling over black children can be painted red. -/
theorem RepresentsAt.paint_sibling {m : Memory α} {f : Frame α} {rest : List (Frame α)} {t : ColourTree α} {q : α}
    {k : ℕ} (h : RepresentsAt m (f :: rest) t) (hcol : f.sibling.Coloured (k + 1)) (hq : f.sibling.root? = some q)
    (hblack : f.sibling.isRed = false) (hleft : m.isBlackOrNull (m.nodes q).left = true)
    (hright : m.isBlackOrNull (m.nodes q).right = true) : (f.sibling.paint true).Coloured k := by
  have hheld := h.frames.2.1
  cases hsibling : f.sibling with
  | nil =>
    rw [hsibling] at hq
    cases hq
  | node red l a r =>
    rw [hsibling] at hheld hq hcol hblack
    cases hq
    cases hblack
    obtain ⟨ha, hl, hr⟩ := hheld
    rw [ha] at hleft hright
    have hlblack := hl.isBlackOrNull
    have hrblack := hr.isBlackOrNull
    have hlred : l.isRed = false := by simpa [hlblack] using (show m.isBlackOrNull l.root? = true from hleft)
    have hrred : r.isRed = false := by simpa [hrblack] using (show m.isBlackOrNull r.root? = true from hright)
    exact ⟨hlred, hrred, hcol.1, hcol.2⟩

/-- `c_rbnode_rebalance` from a short position on. -/
def cRbnodeRebalanceFrom (fuel : ℕ) (m : Memory α) (n previous : Option α) : Option (Memory α) := do
  let (m, stop) ← cRbnodeRebalancePath fuel m n previous
  match stop with
  | none => some m
  | some (n, previous) => cRbnodeRebalanceTerminal m n previous

/-- The loop that moves the shortage up ends, and the tree it leaves is a red-black tree of the same order. -/
theorem cRbnodeRebalanceFrom_restores (fuel : ℕ) {m : Memory α} {path : List (Frame α)} {t : ColourTree α} {k : ℕ}
    (h : RepresentsAt m path t) (ht : t.Coloured k) (hblack : t.isRed = false) (hpath : Admits path false (k + 1))
    (hfuel : path.length < fuel) :
    ∃ m', cRbnodeRebalanceFrom fuel m (above path) t.root? = some m' ∧
      Restores m m' (plug path t).inorder (plug path t).inorder := by
  induction fuel generalizing m path t k with
  | zero => exact absurd hfuel (Nat.not_lt_zero _)
  | succ fuel ih =>
    cases path with
    | nil =>
      refine ⟨m, rfl, (Rewrites.refl h).restores ht ?_ rfl⟩
      exact hblack
    | cons f rest =>
      obtain ⟨q, hq⟩ := hpath.1.exists_root
      obtain ⟨hside, hchild⟩ := h.sideOf_short hq
      by_cases hstop : m.isRed q = true ∨ m.isBlackOrNull (m.nodes q).left = false ∨
          m.isBlackOrNull (m.nodes q).right = false
      · obtain ⟨m', hm', hrestores⟩ := cRbnodeRebalanceTerminal_restores h ht hpath hq hstop
        refine ⟨m', ?_, hrestores⟩
        simp [cRbnodeRebalanceFrom, cRbnodeRebalancePath, hside, hchild, hstop, hm']
      · have hstop' := hstop
        simp only [not_or, Bool.not_eq_true, Bool.not_eq_false] at hstop'
        obtain ⟨hqblack, hleft, hright⟩ := hstop'
        rw [h.isRed_sibling hq] at hqblack
        have hsibcol : (f.sibling.paint true).Coloured k := h.paint_sibling hpath.1 hq hqblack hleft hright
        have hpaint := h.paintSibling hq
        have hpred : (m.setParentAndFlags q (.node f.node) CRBFlags.toRed).isRed f.node = f.red := by
          rw [hpaint.holds.isRed_root (root?_oriented ..), isRed_oriented]
        have habove := hpath.above
        cases hfred : f.red with
        | true =>
          rw [hfred, if_pos rfl] at habove
          have hrest : rest ≠ [] := by
            rintro rfl
            cases habove
          refine ⟨_, ?_, (h.settle hq hrest).restores (coloured_black.mpr ⟨ht, hsibcol⟩) ?_ ?_⟩
          · simp only [cRbnodeRebalanceFrom, cRbnodeRebalancePath, above_cons, hside, hchild, hstop, hpred, hfred,
              Option.bind_eq_bind, Option.bind_some, if_false, if_true]
          · rw [isRed_oriented]
            exact habove.black
          · rw [fill]
            cases f.side <;> simp [oriented, inorder]
        | false =>
          rw [hfred] at habove
          have hparent : (m.setParentAndFlags q (.node f.node) CRBFlags.toRed).parent f.node = above rest :=
            hpaint.holds.parent_root (root?_oriented ..)
          rw [hfred] at hpaint
          obtain ⟨m', hm', hrestores⟩ := ih hpaint.holds (coloured_black.mpr ⟨ht, hsibcol⟩) (isRed_oriented ..) habove
            (by simp only [List.length_cons] at hfuel; omega)
          refine ⟨m', ?_, ?_⟩
          · rw [root?_oriented] at hm'
            simp only [cRbnodeRebalanceFrom, cRbnodeRebalancePath, above_cons, hside, hchild, hstop, hpred, hfred, hparent,
              Option.bind_eq_bind, Option.bind_some, if_false, Bool.false_eq_true] at hm' ⊢
            exact hm'
          · have horder : (plug rest (oriented f.side false t f.node (f.sibling.paint true))).inorder =
                (plug (f :: rest) t).inorder := by
              rw [plug_cons]
              refine inorder_plug_congr ?_
              rw [fill]
              cases f.side <;> simp [oriented, inorder]
            have hmem := perm_plug rest (oriented f.side false t f.node (f.sibling.paint true))
            rw [horder] at hrestores hmem
            refine hrestores.trans (List.Subset.refl _) fun b hb => ?_
            rw [hmem.mem_iff, List.mem_append, not_or] at hb
            exact hpaint.outside b hb.1 hb.2

end DbusBroker.Rbtree
