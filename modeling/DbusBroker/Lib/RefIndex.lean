import DbusBroker.Lib.SearchTree

/-!
# Reference counted indices

An index is a tree of trees. Every node counts the references on it: one for each of its
children, and one for each pin a running operation holds. A node is created when a child is
first needed below it and removed when its last reference is dropped, so the count decides
what the index contains.

A `Level` says how the content of a node is read: how many children it has, which items are
filed below it under an address, and when it is sound. Levels are stacked with `Level.tree`.
-/

universe u v w z

/-- A reference counted node. -/
structure Counted (α : Type u) where
  nRefs : ℕ
  content : α

namespace Counted

open Std

variable {κ : Type u} {cmp : κ → κ → Ordering} {α : Type v}

/-- Drop one reference. -/
def unref (c : Counted α) : Counted α := { c with nRefs := c.nRefs - 1 }

variable [TransCmp cmp] [LawfulEqCmp cmp]

/-- The child under a key with a reference on it, created with that reference if necessary. -/
def pin (t : SearchTree cmp (Counted α)) (k : κ) (fresh : α) : Counted α :=
  match t.find? k with
  | some c => { c with nRefs := c.nRefs + 1 }
  | none => ⟨1, fresh⟩

/-- Write a child back, or unlink it if no reference is left. -/
def settle (t : SearchTree cmp (Counted α)) (k : κ) (c : Counted α) : SearchTree cmp (Counted α) :=
  if c.nRefs = 0 then t.erase k else t.insert k c

/-- Act on a pinned child of a root. -/
def visit (t : SearchTree cmp (Counted α)) (k : κ) (fresh : α) (act : Counted α → Counted α) :
    SearchTree cmp (Counted α) :=
  settle t k (act (pin t k fresh)).unref

/-- Act on a pinned child of a node; the child references the node while it is linked. -/
def visitChild (n : Counted (SearchTree cmp (Counted α))) (k : κ) (fresh : α)
    (act : Counted α → Counted α) : Counted (SearchTree cmp (Counted α)) :=
  let c := (act (pin n.content k fresh)).unref
  let linked := if (n.content.find? k).isNone then 1 else 0
  let unlinked := if c.nRefs = 0 then 1 else 0
  ⟨n.nRefs + linked - unlinked, settle n.content k c⟩

/-- Act on a child of a root that drops a reference of its own. -/
def drop (t : SearchTree cmp (Counted α)) (k : κ) (act : Counted α → Counted α) :
    SearchTree cmp (Counted α) :=
  match t.find? k with
  | none => t
  | some c => settle t k (act c)

/-- Act on a child of a node that drops a reference of its own, and pass the drop on. -/
def dropChild (n : Counted (SearchTree cmp (Counted α))) (k : κ) (act : Counted α → Counted α) :
    Counted (SearchTree cmp (Counted α)) :=
  match n.content.find? k with
  | none => n
  | some c => ⟨n.nRefs - (if (act c).nRefs = 0 then 1 else 0), settle n.content k (act c)⟩

/-- Visit every child of a root in turn. -/
def flush (t : SearchTree cmp (Counted α)) (fresh : α) (act : Counted α → Counted α) :
    SearchTree cmp (Counted α) :=
  t.keys.foldl (fun t k => visit t k fresh act) t

/-- Visit every child of a node in turn. -/
def flushChildren (fresh : α) (act : Counted α → Counted α) (n : Counted (SearchTree cmp (Counted α))) :
    Counted (SearchTree cmp (Counted α)) :=
  n.content.keys.foldl (fun n k => visitChild n k fresh act) n

end Counted

/-- How the content of a node is read. -/
structure Level (α : Type u) (A : Type v) (ι : Type w) where
  size : α → ℕ
  view : α → A → List ι
  Sound : α → Prop
  view_eq_nil : ∀ {x a}, size x = 0 → view x a = []
  nodup_view : ∀ {x a}, Sound x → (view x a).Nodup

namespace Level

open Std Counted

variable {κ : Type u} {cmp : κ → κ → Ordering} {α : Type v} {A : Type w} {ι : Type z}

/-- The lowest level holds the items. -/
def leaf (ι : Type z) : Level (List ι) Unit ι where
  size := List.length
  view := fun l _ => l
  Sound := List.Nodup
  view_eq_nil := fun h => List.eq_nil_of_length_eq_zero h
  nodup_view := fun h => h

/-- A node is sound with a number of pins: its count is that of its children and pins. -/
def Pinned (L : Level α A ι) (pins : ℕ) (c : Counted α) : Prop :=
  c.nRefs = L.size c.content + pins ∧ L.Sound c.content

/-- A level of nodes over another level. -/
def tree (cmp : κ → κ → Ordering) (L : Level α A ι) : Level (SearchTree cmp (Counted α)) (κ × A) ι where
  size := SearchTree.size
  view := fun t a => (t.find? a.1).elim [] fun c => L.view c.content a.2
  Sound := fun t => ∀ k c, t.find? k = some c → L.Pinned 0 c ∧ 0 < c.nRefs
  view_eq_nil := by
    intro t a h
    have hnil : t.entries = [] := List.eq_nil_of_length_eq_zero h
    rw [SearchTree.find?, hnil]
    rfl
  nodup_view := by
    intro t a h
    cases hfind : t.find? a.1 with
    | none => exact List.nodup_nil
    | some c => exact L.nodup_view (h a.1 c hfind).1.2

variable [TransCmp cmp] [LawfulEqCmp cmp] (L : Level α A ι) {t : SearchTree cmp (Counted α)}
variable {n : Counted (SearchTree cmp (Counted α))} {k : κ} {fresh : α} {act : Counted α → Counted α}

omit [TransCmp cmp] [LawfulEqCmp cmp] in
/-- A level where something is filed below every node that is not empty. -/
def Occupied (L : Level α A ι) : Prop := ∀ x, L.Sound x → L.size x ≠ 0 → ∃ a i, i ∈ L.view x a

omit [TransCmp cmp] [LawfulEqCmp cmp] in
/-- The items of a list. -/
theorem occupied_leaf : (leaf ι).Occupied := by
  intro l _ hsize
  obtain ⟨i, hi⟩ := List.exists_mem_of_length_pos (Nat.pos_of_ne_zero hsize)
  exact ⟨(), i, hi⟩

/-- A node that is there has a reference, and so a child. -/
theorem occupied_tree (h : L.Occupied) : (tree cmp L).Occupied := by
  intro t ht hsize
  obtain ⟨e, he⟩ := List.exists_mem_of_length_pos (Nat.pos_of_ne_zero hsize)
  have hfind : t.find? e.1 = some e.2 := (t.find?_eq_some_iff e.1 e.2).mpr he
  obtain ⟨⟨hrefs, hsound⟩, hpos⟩ := ht e.1 e.2 hfind
  obtain ⟨a, i, hi⟩ := h e.2.content hsound (by omega)
  exact ⟨(e.1, a), i, (by simp only [tree, hfind, Option.elim]; exact hi)⟩

omit [TransCmp cmp] [LawfulEqCmp cmp] in
/-- What is filed below a present child. -/
theorem view_of_find?_some {c : Counted α} (h : t.find? k = some c) (a : A) :
    (tree cmp L).view t (k, a) = L.view c.content a := by
  simp only [tree, h, Option.elim]

omit [TransCmp cmp] [LawfulEqCmp cmp] in
/-- Nothing is filed below an absent child. -/
theorem view_of_find?_none (h : t.find? k = none) (a : A) : (tree cmp L).view t (k, a) = [] := by
  simp only [tree, h, Option.elim]

omit [TransCmp cmp] [LawfulEqCmp cmp] in
/-- An item is filed below a child that exists. -/
theorem exists_of_mem_view {x : ι} {a : κ × A} (h : x ∈ (tree cmp L).view t a) :
    ∃ c, t.find? a.1 = some c ∧ x ∈ L.view c.content a.2 := by
  cases hc : t.find? a.1 with
  | none =>
    simp only [tree, hc, Option.elim] at h
    exact absurd h List.not_mem_nil
  | some c =>
    simp only [tree, hc, Option.elim] at h
    exact ⟨c, rfl, h⟩

omit [TransCmp cmp] [LawfulEqCmp cmp] in
/-- The empty tree is sound. -/
theorem sound_empty : (tree cmp L).Sound .empty := fun k c h => by simp at h

/-- Writing a child back files below its key what the child holds. -/
theorem view_settle [DecidableEq κ] {c : Counted α} (hc : L.Pinned 0 c) (a : κ × A) :
    (tree cmp L).view (settle t k c) a =
      if a.1 = k then L.view c.content a.2 else (tree cmp L).view t a := by
  by_cases hk : a.1 = k
  · rw [if_pos hk, settle]
    split
    · next hzero =>
      have hempty : L.view c.content a.2 = [] := L.view_eq_nil (hc.1.symm.trans hzero)
      simp only [tree, hk, SearchTree.find?_erase_self, Option.elim, hempty]
    · simp only [tree, hk, SearchTree.find?_insert_self, Option.elim]
  · rw [if_neg hk, settle]
    split
    · simp only [tree, SearchTree.find?_erase_of_ne _ hk]
    · simp only [tree, SearchTree.find?_insert_of_ne _ hk]

/-- Writing back a sound child keeps the tree sound. -/
theorem sound_settle {c : Counted α} (ht : (tree cmp L).Sound t) (hc : L.Pinned 0 c) :
    (tree cmp L).Sound (settle t k c) := by
  intro k' c' hfind
  by_cases hk : k' = k
  · subst hk
    rw [settle] at hfind
    split at hfind
    · rw [SearchTree.find?_erase_self] at hfind
      cases hfind
    · next hpos =>
      rw [SearchTree.find?_insert_self] at hfind
      cases hfind
      exact ⟨hc, Nat.pos_of_ne_zero hpos⟩
  · rw [settle] at hfind
    split at hfind
    · rw [SearchTree.find?_erase_of_ne _ hk] at hfind
      exact ht k' c' hfind
    · rw [SearchTree.find?_insert_of_ne _ hk] at hfind
      exact ht k' c' hfind

omit [TransCmp cmp] [LawfulEqCmp cmp] in
/-- A pinned child is sound with one pin, and holds what was filed below its key. -/
theorem pinned_pin (ht : (tree cmp L).Sound t) (hfresh : L.size fresh = 0 ∧ L.Sound fresh) :
    L.Pinned 1 (pin t k fresh) ∧ ∀ a, L.view (pin t k fresh).content a = (tree cmp L).view t (k, a) := by
  rw [pin]
  cases hfind : t.find? k with
  | some c =>
    obtain ⟨⟨hcount, hsound⟩, -⟩ := ht k c hfind
    exact ⟨⟨congrArg (· + 1) hcount, hsound⟩, fun a => (L.view_of_find?_some hfind a).symm⟩
  | none =>
    refine ⟨⟨by simp only [hfresh.1], hfresh.2⟩, fun a => ?_⟩
    rw [L.view_of_find?_none hfind, L.view_eq_nil hfresh.1]

omit [TransCmp cmp] [LawfulEqCmp cmp] in
/-- Dropping the pin leaves a sound node. -/
theorem Pinned.unref {c : Counted α} (h : L.Pinned 1 c) : L.Pinned 0 c.unref :=
  ⟨by rw [Counted.unref, h.1, Nat.add_sub_cancel, Nat.add_zero], h.2⟩

/-- The size of a tree after a child is written back. -/
theorem size_settle (t : SearchTree cmp (Counted α)) (k : κ) (c : Counted α) :
    (settle t k c).size + (if (t.find? k).isNone then 0 else 1) = t.size + (if c.nRefs = 0 then 0 else 1) := by
  rw [settle]
  cases hfind : t.find? k with
  | none =>
    split
    · rw [t.erase_of_find?_none hfind]
      rfl
    · rw [t.size_insert_of_find?_none hfind]
      rfl
  | some c' =>
    split
    · exact t.size_erase_of_find?_some hfind
    · rw [t.size_insert_of_find?_some hfind]
      rfl

/-- A visit of a root changes what is filed below the visited key as the action says. -/
theorem visit_spec [DecidableEq κ] (f : (A → List ι) → A → List ι) (ht : (tree cmp L).Sound t)
    (hfresh : L.size fresh = 0 ∧ L.Sound fresh)
    (hact : L.Pinned 1 (act (pin t k fresh)) ∧
      ∀ a, L.view (act (pin t k fresh)).content a = f (L.view (pin t k fresh).content) a) :
    (tree cmp L).Sound (visit t k fresh act) ∧
      ∀ a, (tree cmp L).view (visit t k fresh act) a =
        if a.1 = k then f (fun b => (tree cmp L).view t (k, b)) a.2 else (tree cmp L).view t a := by
  have hpin := L.pinned_pin (k := k) ht hfresh
  refine ⟨L.sound_settle ht (hact.1.unref L), fun a => ?_⟩
  rw [visit, L.view_settle (hact.1.unref L)]
  split
  · rw [show (Counted.unref (act (pin t k fresh))).content = (act (pin t k fresh)).content from rfl,
      hact.2, funext hpin.2]
  · rfl

/-- A visit below a node does the same and keeps the count of the node. -/
theorem visitChild_spec [DecidableEq κ] {pins : ℕ} (f : (A → List ι) → A → List ι)
    (hn : (tree cmp L).Pinned pins n) (hfresh : L.size fresh = 0 ∧ L.Sound fresh)
    (hact : L.Pinned 1 (act (pin n.content k fresh)) ∧
      ∀ a, L.view (act (pin n.content k fresh)).content a = f (L.view (pin n.content k fresh).content) a) :
    (tree cmp L).Pinned pins (visitChild n k fresh act) ∧
      ∀ a, (tree cmp L).view (visitChild n k fresh act).content a =
        if a.1 = k then f (fun b => (tree cmp L).view n.content (k, b)) a.2
        else (tree cmp L).view n.content a := by
  obtain ⟨hsound, hview⟩ := L.visit_spec f hn.2 hfresh hact
  refine ⟨⟨?_, hsound⟩, hview⟩
  have hsize := size_settle n.content k (act (pin n.content k fresh)).unref
  have hcount : n.nRefs = n.content.size + pins := hn.1
  change n.nRefs + _ - _ = (settle n.content k _).size + pins
  by_cases hnone : (n.content.find? k).isNone
  · rw [if_pos hnone] at hsize ⊢
    split at hsize
    · next hzero =>
      rw [if_pos hzero]
      omega
    · next hpos =>
      rw [if_neg hpos]
      omega
  · rw [if_neg hnone] at hsize ⊢
    split at hsize
    · next hzero =>
      rw [if_pos hzero]
      omega
    · next hpos =>
      rw [if_neg hpos]
      omega

/-- Dropping below a root changes what is filed below the key as the action says. -/
theorem drop_spec [DecidableEq κ] {c : Counted α} (ht : (tree cmp L).Sound t) (hfind : t.find? k = some c)
    (hact : L.Pinned 0 (act c)) :
    (tree cmp L).Sound (drop t k act) ∧
      ∀ a, (tree cmp L).view (drop t k act) a =
        if a.1 = k then L.view (act c).content a.2 else (tree cmp L).view t a := by
  simp only [drop, hfind]
  exact ⟨L.sound_settle ht hact, L.view_settle hact⟩

/-- Dropping below a node does the same and keeps the count of the node. -/
theorem dropChild_spec [DecidableEq κ] {pins : ℕ} {c : Counted α} (hn : (tree cmp L).Pinned pins n)
    (hfind : n.content.find? k = some c) (hact : L.Pinned 0 (act c)) :
    (tree cmp L).Pinned pins (dropChild n k act) ∧
      ∀ a, (tree cmp L).view (dropChild n k act).content a =
        if a.1 = k then L.view (act c).content a.2 else (tree cmp L).view n.content a := by
  simp only [dropChild, hfind]
  refine ⟨⟨?_, L.sound_settle hn.2 hact⟩, L.view_settle hact⟩
  have hsize := size_settle n.content k (act c)
  have hcount : n.nRefs = n.content.size + pins := hn.1
  change n.nRefs - _ = (settle n.content k (act c)).size + pins
  rw [hfind] at hsize
  simp only [Option.isNone_some, Bool.false_eq_true, if_false] at hsize
  split at hsize
  · next hzero =>
    rw [if_pos hzero]
    omega
  · next hpos =>
    rw [if_neg hpos]
    omega

/-- An action on a pinned node that files an item at the end of an address. -/
def Files [DecidableEq A] (addr : A) (x : ι) (act : Counted α → Counted α) : Prop :=
  ∀ c, L.Pinned 1 c → x ∉ L.view c.content addr →
    L.Pinned 1 (act c) ∧
      ∀ a, L.view (act c).content a = if a = addr then L.view c.content a ++ [x] else L.view c.content a

/-- What filing below a key does to the view of the tree. -/
theorem files_view [DecidableEq κ] [DecidableEq A] {addr : A} {x : ι} (v : κ × A → List ι) (a : κ × A) :
    (if a.1 = k then (if a.2 = addr then v (k, a.2) ++ [x] else v (k, a.2)) else v a) =
      if a = (k, addr) then v a ++ [x] else v a := by
  obtain ⟨k', b⟩ := a
  by_cases hk : k' = k
  · subst hk
    simp
  · simp [hk]

/-- Filing below a child files below the node. -/
theorem files_visitChild [DecidableEq κ] [DecidableEq A] {addr : A} {x : ι}
    (hfresh : L.size fresh = 0 ∧ L.Sound fresh) (hact : L.Files addr x act) :
    (tree cmp L).Files (k, addr) x fun n => visitChild n k fresh act := by
  intro n hn hx
  obtain ⟨hpin, hview⟩ := L.pinned_pin (k := k) hn.2 hfresh
  have hact' := hact _ hpin (by rw [hview]; exact hx)
  obtain ⟨hpinned, hspec⟩ := L.visitChild_spec
    (fun v a => if a = addr then v a ++ [x] else v a) hn hfresh hact'
  exact ⟨hpinned, fun a => (hspec a).trans (files_view ((tree cmp L).view n.content) a)⟩

/-- Filing below a child files below the root. -/
theorem visit_files [DecidableEq κ] [DecidableEq A] {addr : A} {x : ι} (ht : (tree cmp L).Sound t)
    (hfresh : L.size fresh = 0 ∧ L.Sound fresh) (hact : L.Files addr x act)
    (hx : x ∉ (tree cmp L).view t (k, addr)) :
    (tree cmp L).Sound (visit t k fresh act) ∧
      ∀ a, (tree cmp L).view (visit t k fresh act) a =
        if a = (k, addr) then (tree cmp L).view t a ++ [x] else (tree cmp L).view t a := by
  obtain ⟨hpin, hview⟩ := L.pinned_pin (k := k) ht hfresh
  have hact' := hact _ hpin (by rw [hview]; exact hx)
  obtain ⟨hsound, hspec⟩ := L.visit_spec (fun v a => if a = addr then v a ++ [x] else v a) ht hfresh hact'
  exact ⟨hsound, fun a => (hspec a).trans (files_view ((tree cmp L).view t) a)⟩

/-- An action on a node that takes an item off an address. -/
def Unfiles [DecidableEq A] [DecidableEq ι] (addr : A) (x : ι) (act : Counted α → Counted α) : Prop :=
  ∀ c, L.Pinned 0 c → x ∈ L.view c.content addr →
    L.Pinned 0 (act c) ∧
      ∀ a, L.view (act c).content a = if a = addr then (L.view c.content a).erase x else L.view c.content a

omit [TransCmp cmp] [LawfulEqCmp cmp] in
/-- What taking an item off below a key does to the view of the tree. -/
theorem unfiles_view [DecidableEq κ] [DecidableEq A] [DecidableEq ι] {addr : A} {x : ι} {c : Counted α}
    (hfind : t.find? k = some c) (a : κ × A) :
    (if a.1 = k then (if a.2 = addr then (L.view c.content a.2).erase x else L.view c.content a.2)
      else (tree cmp L).view t a) =
      if a = (k, addr) then ((tree cmp L).view t a).erase x else (tree cmp L).view t a := by
  obtain ⟨k', b⟩ := a
  by_cases hk : k' = k
  · subst hk
    rw [L.view_of_find?_some hfind b]
    simp
  · simp [hk]

/-- Taking an item off below a child takes it off below the node. -/
theorem unfiles_dropChild [DecidableEq κ] [DecidableEq A] [DecidableEq ι] {addr : A} {x : ι}
    (hact : L.Unfiles addr x act) : (tree cmp L).Unfiles (k, addr) x fun n => dropChild n k act := by
  intro n hn hx
  obtain ⟨c, hfind, hmem⟩ := L.exists_of_mem_view hx
  obtain ⟨hpinned, hview⟩ := hact c (hn.2 k c hfind).1 hmem
  obtain ⟨hpinned', hspec⟩ := L.dropChild_spec hn hfind hpinned
  refine ⟨hpinned', fun a => (hspec a).trans ?_⟩
  rw [hview]
  exact L.unfiles_view hfind a

/-- Taking an item off below a child takes it off below the root. -/
theorem drop_unfiles [DecidableEq κ] [DecidableEq A] [DecidableEq ι] {addr : A} {x : ι}
    (ht : (tree cmp L).Sound t) (hact : L.Unfiles addr x act) (hx : x ∈ (tree cmp L).view t (k, addr)) :
    (tree cmp L).Sound (drop t k act) ∧
      ∀ a, (tree cmp L).view (drop t k act) a =
        if a = (k, addr) then ((tree cmp L).view t a).erase x else (tree cmp L).view t a := by
  obtain ⟨c, hfind, hmem⟩ := L.exists_of_mem_view hx
  obtain ⟨hpinned, hview⟩ := hact c (ht k c hfind).1 hmem
  obtain ⟨hsound, hspec⟩ := L.drop_spec ht hfind hpinned
  refine ⟨hsound, fun a => (hspec a).trans ?_⟩
  rw [hview]
  exact L.unfiles_view hfind a

/-- An action that empties a pinned node. -/
def Empties (act : Counted α → Counted α) : Prop :=
  ∀ c, L.Pinned 1 c → L.Pinned 1 (act c) ∧ L.size (act c).content = 0

/-- Visiting a child with an action that empties it unlinks the child. -/
theorem visit_eq_erase (ht : (tree cmp L).Sound t) (hfresh : L.size fresh = 0 ∧ L.Sound fresh)
    (hact : L.Empties act) : visit t k fresh act = t.erase k := by
  obtain ⟨hpinned, hsize⟩ := hact _ (L.pinned_pin (k := k) ht hfresh).1
  have hzero : (act (pin t k fresh)).unref.nRefs = 0 := by
    rw [(hpinned.unref L).1]
    exact hsize
  rw [visit, settle, if_pos hzero]

/-- Removing keys from a sound tree keeps it sound. -/
theorem sound_erase (ht : (tree cmp L).Sound t) (k : κ) : (tree cmp L).Sound (t.erase k) := by
  intro k' c hfind
  by_cases hk : k' = k
  · rw [hk, SearchTree.find?_erase_self] at hfind
    cases hfind
  · rw [SearchTree.find?_erase_of_ne _ hk] at hfind
    exact ht k' c hfind

/-- Visiting keys with an action that empties their children removes the keys. -/
theorem foldl_visit_find? [DecidableEq κ] (ht : (tree cmp L).Sound t)
    (hfresh : L.size fresh = 0 ∧ L.Sound fresh) (hact : L.Empties act) (ks : List κ) (k : κ) :
    (ks.foldl (fun t k => visit t k fresh act) t).find? k = if k ∈ ks then none else t.find? k := by
  induction ks generalizing t with
  | nil => simp
  | cons k' ks ih =>
    rw [List.foldl_cons, L.visit_eq_erase ht hfresh hact, ih (L.sound_erase ht k'), SearchTree.find?_erase]
    by_cases hk : k = k'
    · simp [hk]
    · simp [hk]

/-- Flushing a sound root empties it. -/
theorem flush_eq_empty (ht : (tree cmp L).Sound t) (hfresh : L.size fresh = 0 ∧ L.Sound fresh)
    (hact : L.Empties act) : flush t fresh act = .empty := by
  classical
  apply SearchTree.ext_find?
  intro k
  rw [flush, L.foldl_visit_find? ht hfresh hact, SearchTree.find?_empty]
  split
  · rfl
  · next hk =>
    rw [SearchTree.mem_keys_iff] at hk
    exact Option.eq_none_iff_forall_not_mem.mpr fun v hv => hk ⟨v, hv⟩

/-- Visiting the children of a pinned node keeps the count and follows the visits of its tree. -/
theorem foldl_visitChild_spec {pins : ℕ} (hn : (tree cmp L).Pinned pins n)
    (hfresh : L.size fresh = 0 ∧ L.Sound fresh) (hact : L.Empties act) (ks : List κ) :
    (tree cmp L).Pinned pins (ks.foldl (fun n k => visitChild n k fresh act) n) ∧
      (ks.foldl (fun n k => visitChild n k fresh act) n).content =
        ks.foldl (fun t k => visit t k fresh act) n.content := by
  classical
  induction ks generalizing n with
  | nil => exact ⟨hn, rfl⟩
  | cons k ks ih =>
    obtain ⟨hpinned, hsize⟩ := hact _ (L.pinned_pin (k := k) hn.2 hfresh).1
    have hvisit := (L.visitChild_spec (k := k) (fun _ _ => []) hn hfresh
      ⟨hpinned, fun a => L.view_eq_nil hsize⟩).1
    exact ih hvisit

/-- Flushing the children of a node empties it. -/
theorem empties_flushChildren (hfresh : L.size fresh = 0 ∧ L.Sound fresh) (hact : L.Empties act) :
    (tree cmp L).Empties (flushChildren fresh act) := by
  intro n hn
  obtain ⟨hpinned, hcontent⟩ := L.foldl_visitChild_spec hn hfresh hact n.content.keys
  refine ⟨hpinned, ?_⟩
  have hempty := L.flush_eq_empty hn.2 hfresh hact
  rw [flush] at hempty
  rw [flushChildren, hcontent, hempty]
  rfl

end Level
