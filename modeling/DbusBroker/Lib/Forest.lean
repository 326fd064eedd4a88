import Mathlib.Data.List.Perm.Basic
import Mathlib.Data.Nat.Notation

/-!
# Forests laid out in a list

A list of addresses is the preorder of a forest if every node of the forest stands in front of its
children, and knows its parent. Some labels are open: what is below them is not there yet, and
comes to stand right behind them when they are filled, in any order. In the end the list is the
preorder of the forest with all open labels filled.
-/

universe u

namespace DbusBroker

/-- A forest: the label of its first tree, the trees below it and the trees behind it. -/
inductive Forest (α : Type u) where
  | nil
  | cons (label : α) (children siblings : Forest α)
  deriving DecidableEq, Repr

namespace Forest

variable {α : Type u}

/-- The trees of two forests. -/
def append : Forest α → Forest α → Forest α
  | nil, other => other
  | cons label children siblings, other => cons label children (siblings.append other)

/-- The labels in preorder. -/
def labels : Forest α → List α
  | nil => []
  | cons label children siblings => label :: (children.labels ++ siblings.labels)

/-- The forest of single nodes. -/
def ofList : List α → Forest α
  | [] => nil
  | label :: rest => cons label nil (ofList rest)

/-- There is nothing below open labels. -/
def LeavesOpen (opens : α → Bool) : Forest α → Prop
  | nil => True
  | cons label children siblings =>
    (opens label = true → children = nil) ∧ children.LeavesOpen opens ∧ siblings.LeavesOpen opens

/-- The labels of two forests. -/
theorem labels_append (forest other : Forest α) : (forest.append other).labels = forest.labels ++ other.labels := by
  induction forest with
  | nil => rfl
  | cons label children siblings _ ih => rw [append, labels, labels, ih, List.cons_append, List.append_assoc]

/-- The labels of single nodes. -/
theorem labels_ofList (l : List α) : (ofList l).labels = l := by
  induction l with
  | nil => rfl
  | cons label rest ih => rw [ofList, labels, ih, labels, List.nil_append]

/-- There is nothing below the open labels of two forests. -/
theorem LeavesOpen.append {opens : α → Bool} {forest other : Forest α} (h : forest.LeavesOpen opens)
    (h' : other.LeavesOpen opens) : (forest.append other).LeavesOpen opens := by
  induction forest with
  | nil => exact h'
  | cons label children siblings _ ih => exact ⟨h.1, h.2.1, ih h.2.2⟩

/-- There is nothing below single nodes. -/
theorem leavesOpen_ofList (opens : α → Bool) (l : List α) : (ofList l).LeavesOpen opens := by
  induction l with
  | nil => trivial
  | cons label rest ih => exact ⟨fun _ => rfl, trivial, ih⟩

/-! ## Filling open labels -/

section grow

variable (opens : α → Bool) (content : α → Forest α)

/-- A forest with everything below its open labels, and below theirs. -/
inductive Grows : Forest α → Forest α → Prop
  | nil : Grows nil nil
  | keep {e : α} {c c' s s' : Forest α} (hopen : opens e = false) (hchildren : Grows c c') (hsiblings : Grows s s') :
      Grows (cons e c s) (cons e c' s')
  | fill {e : α} {c c' s s' : Forest α} (hopen : opens e = true) (hchildren : Grows (content e) c')
      (hsiblings : Grows s s') : Grows (cons e c s) (cons e c' s')

variable {opens content}

/-- There is one way to fill a forest. -/
theorem Grows.unique {f g g' : Forest α} (h : Grows opens content f g) (h' : Grows opens content f g') : g = g' := by
  induction h generalizing g' with
  | nil =>
    cases h'
    rfl
  | keep hopen _ _ ihc ihs =>
    cases h' with
    | keep _ hc hs => rw [ihc hc, ihs hs]
    | fill hfill _ _ =>
      rw [hopen] at hfill
      cases hfill
  | fill hopen _ _ ihc ihs =>
    cases h' with
    | keep hkeep _ _ =>
      rw [hopen] at hkeep
      cases hkeep
    | fill _ hc hs => rw [ihc hc, ihs hs]

/-- What holds of all labels of a forest, and of all labels that are filled in, holds of all labels of the filled forest. -/
theorem Grows.forall_labels {P : α → Prop} {f g : Forest α} (h : Grows opens content f g) (hf : ∀ e ∈ f.labels, P e)
    (hcontent : ∀ e, opens e = true → ∀ e' ∈ (content e).labels, P e') : ∀ e ∈ g.labels, P e := by
  induction h with
  | nil => exact hf
  | keep _ _ _ ihc ihs =>
    intro e he
    obtain rfl | he := List.mem_cons.mp he
    · exact hf _ List.mem_cons_self
    obtain he | he := List.mem_append.mp he
    · exact ihc (fun e' he' => hf e' (List.mem_cons_of_mem _ (List.mem_append_left _ he'))) e he
    · exact ihs (fun e' he' => hf e' (List.mem_cons_of_mem _ (List.mem_append_right _ he'))) e he
  | fill hopen _ _ ihc ihs =>
    intro e he
    obtain rfl | he := List.mem_cons.mp he
    · exact hf _ List.mem_cons_self
    obtain he | he := List.mem_append.mp he
    · exact ihc (hcontent _ hopen) e he
    · exact ihs (fun e' he' => hf e' (List.mem_cons_of_mem _ (List.mem_append_right _ he'))) e he

/-- A forest can be filled if its open labels have a property, and what is below an open label with it has only open
labels with it and of a smaller rank. -/
theorem exists_grows (rank : α → ℕ) (P : α → Prop)
    (hrank : ∀ e, P e → opens e = true → ∀ e' ∈ (content e).labels, opens e' = true → P e' ∧ rank e' < rank e)
    {f : Forest α} (hf : ∀ e ∈ f.labels, opens e = true → P e) : ∃ g, Grows opens content f g := by
  have hbelow (n : ℕ) : ∀ f : Forest α, (∀ e ∈ f.labels, opens e = true → P e ∧ rank e < n) →
      ∃ g, Grows opens content f g := by
    induction n with
    | zero =>
      intro f hf
      induction f with
      | nil => exact ⟨nil, .nil⟩
      | cons e c s ihc ihs =>
        obtain ⟨c', hc⟩ := ihc fun e' he' => hf e' (by simp [labels, he'])
        obtain ⟨s', hs⟩ := ihs fun e' he' => hf e' (by simp [labels, he'])
        cases hopen : opens e with
        | false => exact ⟨_, .keep hopen hc hs⟩
        | true => exact absurd (hf e (by simp [labels]) hopen).2 (Nat.not_lt_zero _)
    | succ n ih =>
      intro f hf
      induction f with
      | nil => exact ⟨nil, .nil⟩
      | cons e c s ihc ihs =>
        obtain ⟨c', hc⟩ := ihc fun e' he' => hf e' (by simp [labels, he'])
        obtain ⟨s', hs⟩ := ihs fun e' he' => hf e' (by simp [labels, he'])
        cases hopen : opens e with
        | false => exact ⟨_, .keep hopen hc hs⟩
        | true =>
          obtain ⟨hP, he⟩ := hf e (by simp [labels]) hopen
          obtain ⟨d, hd⟩ := ih (content e) fun e' he' hopen' => by
            obtain ⟨hP', hlt⟩ := hrank e hP hopen e' he' hopen'
            exact ⟨hP', Nat.lt_of_lt_of_le hlt (Nat.le_of_lt_succ he)⟩
          exact ⟨_, .fill hopen hd hs⟩
  obtain ⟨n, hn⟩ : ∃ n, ∀ e ∈ f.labels, rank e < n := by
    induction f.labels with
    | nil => exact ⟨0, by simp⟩
    | cons e rest ih =>
      obtain ⟨n, hn⟩ := ih
      refine ⟨max n (rank e + 1), fun e' he' => ?_⟩
      obtain rfl | he' := List.mem_cons.mp he'
      · omega
      · have hlt := hn e' he'
        omega
  exact hbelow n f fun e he hopen => ⟨hf e he hopen, hn e he⟩

end grow

/-! ## Layouts -/

section lays

variable (opens : α → Bool) (content : α → Forest α)

/-- A list of nodes below a parent is the preorder of a forest, but for what is below pending nodes, which are open. -/
inductive Lays (node : ℕ → Option (Option ℕ × α)) (pending : ℕ → Prop) : Option ℕ → Forest α → List ℕ → Prop
  | nil (p : Option ℕ) : Lays node pending p nil []
  | leaf {p : Option ℕ} {a : ℕ} {e : α} {c s : Forest α} {l : List ℕ} (hnode : node a = some (p, e)) (hpending : pending a)
      (hopen : opens e = true) (hchildren : Grows opens content (content e) c) (hsiblings : Lays node pending p s l) :
      Lays node pending p (cons e c s) (a :: l)
  | cons {p : Option ℕ} {a : ℕ} {e : α} {c s : Forest α} {l l' : List ℕ} (hnode : node a = some (p, e))
      (hpending : ¬pending a) (hchildren : Lays node pending (some a) c l) (hsiblings : Lays node pending p s l') :
      Lays node pending p (cons e c s) (a :: (l ++ l'))

/-- Put some nodes right behind a node. -/
def graft (a : ℕ) (d : List ℕ) (l : List ℕ) : List ℕ := l.flatMap fun b => if b = a then b :: d else [b]

variable {opens content} {node node' : ℕ → Option (Option ℕ × α)} {pending pending' : ℕ → Prop} {p : Option ℕ}
  {f f' g : Forest α} {l l' : List ℕ}

/-- A layout depends on its nodes only. -/
theorem Lays.congr (h : Lays opens content node pending p f l) (hnode : ∀ a ∈ l, node' a = node a)
    (hpending : ∀ a ∈ l, pending' a ↔ pending a) : Lays opens content node' pending' p f l := by
  induction h with
  | nil p => exact .nil p
  | leaf ha hpend hopen hgrows _ ih =>
    refine .leaf ((hnode _ List.mem_cons_self).trans ha) ((hpending _ List.mem_cons_self).mpr hpend) hopen hgrows (ih ?_ ?_)
    · exact fun b hb => hnode b (List.mem_cons_of_mem _ hb)
    · exact fun b hb => hpending b (List.mem_cons_of_mem _ hb)
  | cons ha hpend _ _ ihc ihs =>
    refine .cons ((hnode _ List.mem_cons_self).trans ha) (fun hp => hpend ((hpending _ List.mem_cons_self).mp hp))
      (ihc ?_ ?_) (ihs ?_ ?_)
    · exact fun b hb => hnode b (List.mem_cons_of_mem _ (List.mem_append_left _ hb))
    · exact fun b hb => hpending b (List.mem_cons_of_mem _ (List.mem_append_left _ hb))
    · exact fun b hb => hnode b (List.mem_cons_of_mem _ (List.mem_append_right _ hb))
    · exact fun b hb => hpending b (List.mem_cons_of_mem _ (List.mem_append_right _ hb))

/-- Two layouts below one parent. -/
theorem Lays.append (h : Lays opens content node pending p f l) (h' : Lays opens content node pending p g l') :
    Lays opens content node pending p (f.append g) (l ++ l') := by
  induction h with
  | nil p => exact h'
  | leaf ha hpend hopen hgrows _ ih => exact .leaf ha hpend hopen hgrows (ih h')
  | cons ha hpend hchildren _ _ ihs =>
    rw [Forest.append, List.cons_append, List.append_assoc]
    exact .cons ha hpend hchildren (ihs h')

/-- What was laid out as it is is a layout of the filled forest, with its open nodes pending. -/
theorem Lays.fill {content' : α → Forest α} (h : Lays opens content' node (fun _ => False) p f l) (hleaves : f.LeavesOpen opens)
    (hgrows : Grows opens content f f') (hpending : ∀ a ∈ l, ∀ q e, node a = some (q, e) → (pending a ↔ opens e = true)) :
    Lays opens content node pending p f' l := by
  induction h generalizing f' with
  | nil p =>
    cases hgrows
    exact .nil p
  | leaf _ hpend _ _ _ _ => exact hpend.elim
  | cons ha _ hchildren _ ihc ihs =>
    obtain ⟨hleaf, hleaves, hleaves'⟩ := hleaves
    cases hgrows with
    | keep hopen hc hs =>
      refine .cons ha (fun hpend => ?_) (ihc hleaves hc ?_) (ihs hleaves' hs ?_)
      · rw [hpending _ List.mem_cons_self _ _ ha, hopen] at hpend
        cases hpend
      · exact fun b hb => hpending b (List.mem_cons_of_mem _ (List.mem_append_left _ hb))
      · exact fun b hb => hpending b (List.mem_cons_of_mem _ (List.mem_append_right _ hb))
    | fill hopen hc hs =>
      rw [hleaf hopen] at hchildren
      cases hchildren
      refine .leaf ha ((hpending _ List.mem_cons_self _ _ ha).mpr hopen) hopen hc (ihs hleaves' hs ?_)
      exact fun b hb => hpending b (List.mem_cons_of_mem _ (List.mem_append_right _ hb))

/-- Every node has a label of the forest. -/
theorem Lays.exists_label (h : Lays opens content node pending p f l) :
    ∀ a ∈ l, ∃ q e, node a = some (q, e) ∧ e ∈ f.labels := by
  induction h with
  | nil p => exact fun a ha => absurd ha List.not_mem_nil
  | leaf ha _ _ _ _ ih =>
    intro b hb
    obtain rfl | hb := List.mem_cons.mp hb
    · exact ⟨_, _, ha, List.mem_cons_self⟩
    · obtain ⟨q, e, hnode, he⟩ := ih b hb
      exact ⟨q, e, hnode, List.mem_cons_of_mem _ (List.mem_append_right _ he)⟩
  | cons ha _ _ _ ihc ihs =>
    intro b hb
    obtain rfl | hb := List.mem_cons.mp hb
    · exact ⟨_, _, ha, List.mem_cons_self⟩
    obtain hb | hb := List.mem_append.mp hb
    · obtain ⟨q, e, hnode, he⟩ := ihc b hb
      exact ⟨q, e, hnode, List.mem_cons_of_mem _ (List.mem_append_left _ he)⟩
    · obtain ⟨q, e, hnode, he⟩ := ihs b hb
      exact ⟨q, e, hnode, List.mem_cons_of_mem _ (List.mem_append_right _ he)⟩

/-- Pending nodes are open. -/
theorem Lays.opens_of_pending (h : Lays opens content node pending p f l) :
    ∀ a ∈ l, pending a → ∀ q e, node a = some (q, e) → opens e = true := by
  induction h with
  | nil p => exact fun a ha => absurd ha List.not_mem_nil
  | leaf ha _ hopen _ _ ih =>
    intro b hb hpend q e hnode
    obtain rfl | hb := List.mem_cons.mp hb
    · rw [ha] at hnode
      cases hnode
      exact hopen
    · exact ih b hb hpend q e hnode
  | cons ha hnot _ _ ihc ihs =>
    intro b hb hpend q e hnode
    obtain rfl | hb := List.mem_cons.mp hb
    · exact absurd hpend hnot
    · exact (List.mem_append.mp hb).elim (fun hb => ihc b hb hpend q e hnode) fun hb => ihs b hb hpend q e hnode

/-- The parent of a node stands in front of it. -/
theorem Lays.parent_mem (h : Lays opens content node pending p f l) {before after : List ℕ} {a : ℕ}
    (hl : l = before ++ a :: after) : ∃ q e, node a = some (q, e) ∧ (q = p ∨ ∃ b ∈ before, q = some b) := by
  induction h generalizing before after with
  | nil p => exact absurd hl (by simp)
  | leaf ha _ _ _ _ ih =>
    cases before with
    | nil =>
      obtain ⟨rfl, -⟩ := List.cons.inj hl
      exact ⟨_, _, ha, .inl rfl⟩
    | cons b before =>
      obtain ⟨q, e, hnode, hparent⟩ := ih (List.cons.inj hl).2
      exact ⟨q, e, hnode, hparent.imp_right fun hmem => by
        obtain ⟨d, hd, hq⟩ := hmem
        exact ⟨d, List.mem_cons_of_mem b hd, hq⟩⟩
  | cons ha _ _ _ ihc ihs =>
    cases before with
    | nil =>
      obtain ⟨rfl, -⟩ := List.cons.inj hl
      exact ⟨_, _, ha, .inl rfl⟩
    | cons b before =>
      obtain ⟨hhead, htail⟩ := List.cons.inj hl
      subst hhead
      obtain ⟨rest, hbefore, hrest⟩ | ⟨rest, hl', hafter⟩ := List.append_eq_append_iff.mp htail
      · obtain ⟨q, e, hnode, hparent⟩ := ihs hrest
        refine ⟨q, e, hnode, hparent.imp_right fun hmem => ?_⟩
        obtain ⟨d, hd, hq⟩ := hmem
        rw [hbefore]
        exact ⟨d, List.mem_cons_of_mem _ (List.mem_append_right _ hd), hq⟩
      · cases rest with
        | nil =>
          rw [List.append_nil] at hl'
          have hfirst : _ = [] ++ a :: after := hafter.symm
          obtain ⟨q, e, hnode, hparent⟩ := ihs hfirst
          refine ⟨q, e, hnode, hparent.imp_right fun hmem => ?_⟩
          obtain ⟨d, hd, -⟩ := hmem
          cases hd
        | cons c rest =>
          obtain ⟨rfl, -⟩ := List.cons.inj hafter
          obtain ⟨q, e, hnode, hparent⟩ := ihc hl'
          refine ⟨q, e, hnode, .inr ?_⟩
          obtain hq | ⟨d, hd, hq⟩ := hparent
          · exact ⟨_, List.mem_cons_self, hq⟩
          · exact ⟨d, List.mem_cons_of_mem _ hd, hq⟩

/-- Putting nodes behind a node of two lists. -/
theorem graft_append (a : ℕ) (d l l' : List ℕ) : graft a d (l ++ l') = graft a d l ++ graft a d l' :=
  List.flatMap_append

/-- Putting nodes behind a node that is not there. -/
theorem graft_of_not_mem {a : ℕ} (d : List ℕ) (h : a ∉ l) : graft a d l = l := by
  induction l with
  | nil => rfl
  | cons b rest ih =>
    rw [List.mem_cons, not_or] at h
    rw [graft, List.flatMap_cons, if_neg (Ne.symm h.1)]
    exact congrArg (b :: ·) (ih h.2)

/-- Putting nodes behind a node that is there once. -/
theorem graft_of_nodup {before after : List ℕ} {a : ℕ} (d : List ℕ) (h : (before ++ a :: after).Nodup) :
    graft a d (before ++ a :: after) = before ++ a :: (d ++ after) := by
  obtain ⟨hnot, -⟩ := List.nodup_cons.mp (List.perm_middle.nodup_iff.mp h)
  rw [List.mem_append, not_or] at hnot
  have hself : graft a d (a :: after) = a :: (d ++ graft a d after) := by
    rw [graft, List.flatMap_cons, if_pos rfl]
    rfl
  rw [graft_append, graft_of_not_mem d hnot.1, hself, graft_of_not_mem d hnot.2]

/-- When what is below a pending node is put behind it, the node is pending no more. -/
theorem Lays.graft (h : Lays opens content node pending p f l) {a : ℕ} {q : Option ℕ} {e : α} {d : List ℕ}
    (ha : node a = some (q, e)) (hpend : pending a) (hdone : ¬pending' a) (hnode : ∀ b ∈ l, node' b = node b)
    (hpending : ∀ b ∈ l, b ≠ a → (pending' b ↔ pending b))
    (hd : ∀ c, Grows opens content (content e) c → Lays opens content node' pending' (some a) c d) :
    Lays opens content node' pending' p f (Forest.graft a d l) := by
  induction h with
  | nil p => exact .nil p
  | @leaf p b e' c s l hb hpendb hopen hgrows _ ih =>
    have hrest := ih (fun b hb => hnode b (List.mem_cons_of_mem _ hb)) fun b hb => hpending b (List.mem_cons_of_mem _ hb)
    rw [Forest.graft, List.flatMap_cons]
    by_cases hba : b = a
    · rw [if_pos hba]
      have hbnode := (hnode b List.mem_cons_self).trans hb
      rw [hba] at hb hbnode ⊢
      have hlabel : e' = e := congrArg Prod.snd (Option.some.inj (hb.symm.trans ha))
      rw [hlabel] at hgrows
      exact .cons hbnode hdone (hd c hgrows) hrest
    · rw [if_neg hba]
      exact .leaf ((hnode b List.mem_cons_self).trans hb) ((hpending b List.mem_cons_self hba).mpr hpendb) hopen hgrows hrest
  | @cons p b e' c s l l' hb hpendb _ _ ihc ihs =>
    have hba : b ≠ a := fun heq => hpendb (heq ▸ hpend)
    have hgraft : Forest.graft a d (b :: (l ++ l')) = b :: (Forest.graft a d l ++ Forest.graft a d l') := by
      rw [← graft_append, Forest.graft, List.flatMap_cons, if_neg hba]
      rfl
    rw [hgraft]
    refine .cons ((hnode b List.mem_cons_self).trans hb) (fun hp => hpendb ((hpending b List.mem_cons_self hba).mp hp))
      (ihc ?_ ?_) (ihs ?_ ?_)
    · exact fun b hb => hnode b (List.mem_cons_of_mem _ (List.mem_append_left _ hb))
    · exact fun b hb => hpending b (List.mem_cons_of_mem _ (List.mem_append_left _ hb))
    · exact fun b hb => hnode b (List.mem_cons_of_mem _ (List.mem_append_right _ hb))
    · exact fun b hb => hpending b (List.mem_cons_of_mem _ (List.mem_append_right _ hb))

/-- The number of nodes that satisfy a condition on their labels. -/
theorem Lays.countP_le (h : Lays opens content node pending p f l) (q : α → Bool) :
    l.countP (fun a => (node a).any fun x => q x.2) ≤ f.labels.countP q := by
  induction h with
  | nil p => exact Nat.le_refl _
  | leaf ha _ _ _ _ ih =>
    rw [List.countP_cons, labels, List.countP_cons, List.countP_append, ha, Option.any_some]
    dsimp only
    omega
  | cons ha _ _ _ ihc ihs =>
    rw [List.countP_cons, List.countP_append, labels, List.countP_cons, List.countP_append, ha, Option.any_some]
    dsimp only
    omega

/-- If nothing is pending, the labels of the nodes are those of the forest, in order. -/
theorem Lays.labels_eq (h : Lays opens content node pending p f l) (hnone : ∀ a ∈ l, ¬pending a) :
    l.map (fun a => (node a).map Prod.snd) = f.labels.map some := by
  induction h with
  | nil p => rfl
  | leaf _ hpend _ _ _ _ => exact absurd hpend (hnone _ List.mem_cons_self)
  | cons ha _ _ _ ihc ihs =>
    rw [List.map_cons, List.map_append, labels, List.map_cons, List.map_append, ha, Option.map_some,
      ihc fun b hb => hnone b (List.mem_cons_of_mem _ (List.mem_append_left _ hb)),
      ihs fun b hb => hnone b (List.mem_cons_of_mem _ (List.mem_append_right _ hb))]

end lays

end Forest

end DbusBroker
