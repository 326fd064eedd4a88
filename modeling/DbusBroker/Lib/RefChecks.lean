import DbusBroker.Lib.RefIndex
import DbusBroker.Lib.Run

/-!
# Assertions of reference counted indices

Taking a reference asserts that there is one already, dropping the last one that the node has no children,
and flushing that none is left. For each operation on an index there is what it asserts on the way, given
what its action asserts. Levels that are sound never fail these assertions.
-/

universe u v w z

namespace Counted

open Std Machine

variable {κ : Type u} {cmp : κ → κ → Ordering} {α : Type v}

/-- What dropping a reference asserts. -/
def unrefOk (size : α → ℕ) (c : Counted α) : Bool := 0 < c.nRefs && (1 < c.nRefs || size c.content == 0)

variable [TransCmp cmp] [LawfulEqCmp cmp]

/-- What a visit of a child of a root asserts. -/
def visitOk (size : α → ℕ) (t : SearchTree cmp (Counted α)) (k : κ) (fresh : α) (act : Counted α → Counted α)
    (ok : Counted α → Bool) : Bool :=
  ((t.find? k).all fun c => 0 < c.nRefs) && ok (pin t k fresh) && unrefOk size (act (pin t k fresh))

/-- What a visit of a child of a node asserts: a new child references the node, and a child that goes drops that
reference again. -/
def visitChildOk (size : α → ℕ) (n : Counted (SearchTree cmp (Counted α))) (k : κ) (fresh : α)
    (act : Counted α → Counted α) (ok : Counted α → Bool) : Bool :=
  let c := (act (pin n.content k fresh)).unref
  let linked := if (n.content.find? k).isNone then 1 else 0
  ((n.content.find? k).isSome || 0 < n.nRefs) && visitOk size n.content k fresh act ok &&
    (c.nRefs != 0 || unrefOk SearchTree.size ⟨n.nRefs + linked, settle n.content k c⟩)

/-- What an action on a child of a node asserts that drops a reference of its own. -/
def dropChildOk (n : Counted (SearchTree cmp (Counted α))) (k : κ) (act : Counted α → Counted α)
    (ok : Counted α → Bool) : Bool :=
  (n.content.find? k).all fun c =>
    ok c && ((act c).nRefs != 0 || unrefOk SearchTree.size ⟨n.nRefs, settle n.content k (act c)⟩)

/-- What an action on a child of a root asserts that drops a reference of its own. -/
def dropOk (t : SearchTree cmp (Counted α)) (k : κ) (ok : Counted α → Bool) : Bool := (t.find? k).all ok

/-- What visiting every child of a root asserts: every visit, and that no child is left. -/
def flushOk (size : α → ℕ) (t : SearchTree cmp (Counted α)) (fresh : α) (act : Counted α → Counted α)
    (ok : Counted α → Bool) : Bool :=
  decide (Along (fun t k => visit t k fresh act) (fun t k => visitOk size t k fresh act ok = true) t t.keys) &&
    (flush t fresh act).size == 0

/-- What visiting every child of a node asserts. -/
def flushChildrenOk (size : α → ℕ) (fresh : α) (act : Counted α → Counted α) (ok : Counted α → Bool)
    (n : Counted (SearchTree cmp (Counted α))) : Bool :=
  decide (Along (fun n k => visitChild n k fresh act) (fun n k => visitChildOk size n k fresh act ok = true) n
      n.content.keys) &&
    (flushChildren fresh act n).content.size == 0

end Counted

namespace Level

open Std Counted Machine

variable {κ : Type u} {cmp : κ → κ → Ordering} {α : Type v} {A : Type w} {ι : Type z}
variable [TransCmp cmp] [LawfulEqCmp cmp] (L : Level α A ι) {t : SearchTree cmp (Counted α)}
variable {n : Counted (SearchTree cmp (Counted α))} {k : κ} {fresh : α} {act : Counted α → Counted α}
variable {ok : Counted α → Bool}

omit [TransCmp cmp] [LawfulEqCmp cmp] in
/-- A pin can be dropped. -/
theorem Pinned.unrefOk {pins : ℕ} {c : Counted α} (h : L.Pinned (pins + 1) c) : Counted.unrefOk L.size c = true := by
  have hcount := h.1
  rw [Counted.unrefOk, Bool.and_eq_true, Bool.or_eq_true, decide_eq_true_iff, decide_eq_true_iff, beq_iff_eq]
  omega

omit [TransCmp cmp] [LawfulEqCmp cmp] in
/-- A visit of a root asserts nothing wrong if its action does not. -/
theorem visitOk_of (ht : (tree cmp L).Sound t) (hact : L.Pinned 1 (act (pin t k fresh)))
    (hok : ok (pin t k fresh) = true) : visitOk L.size t k fresh act ok = true := by
  have hrefs : ((t.find? k).all fun c => 0 < c.nRefs) = true := by
    cases hfind : t.find? k with
    | none => rfl
    | some c => exact decide_eq_true (ht k c hfind).2
  rw [visitOk, hrefs, hok, hact.unrefOk L]
  rfl

/-- A visit below a pinned node asserts nothing wrong if its action does not. -/
theorem visitChildOk_of {pins : ℕ} (hn : (tree cmp L).Pinned (pins + 1) n)
    (hact : L.Pinned 1 (act (pin n.content k fresh))) (hok : ok (pin n.content k fresh) = true) :
    visitChildOk L.size n k fresh act ok = true := by
  have hcount : n.nRefs = n.content.size + (pins + 1) := hn.1
  have hrefs : ((n.content.find? k).isSome || decide (0 < n.nRefs)) = true :=
    Bool.or_eq_true_iff.mpr (.inr (decide_eq_true (by omega)))
  rw [visitChildOk, L.visitOk_of hn.2 hact hok, hrefs, Bool.true_and, Bool.true_and, Bool.or_eq_true]
  by_cases hgone : (act (pin n.content k fresh)).unref.nRefs = 0
  · right
    have hsize := size_settle n.content k (act (pin n.content k fresh)).unref
    rw [if_pos hgone] at hsize
    rw [Counted.unrefOk, Bool.and_eq_true, Bool.or_eq_true, decide_eq_true_iff, decide_eq_true_iff, beq_iff_eq]
    dsimp only
    cases hfind : n.content.find? k with
    | none =>
      rw [Option.isNone_none, if_pos rfl]
      omega
    | some c =>
      -- the child that goes was there before
      rw [hfind, Option.isNone_some, if_neg Bool.false_ne_true] at hsize
      omega
  · exact .inl (bne_iff_ne.mpr hgone)

/-- Dropping below a node asserts nothing wrong if the action does not. -/
theorem dropChildOk_of {c : Counted α} (hn : (tree cmp L).Pinned 0 n) (hfind : n.content.find? k = some c)
    (hok : ok c = true) : dropChildOk n k act ok = true := by
  have hcount : n.nRefs = n.content.size + 0 := hn.1
  have hsize := size_settle n.content k (act c)
  rw [dropChildOk, hfind, Option.all_some, hok, Bool.true_and, Bool.or_eq_true]
  rw [hfind, Option.isNone_some, if_neg Bool.false_ne_true] at hsize
  by_cases hgone : (act c).nRefs = 0
  · right
    rw [if_pos hgone] at hsize
    rw [Counted.unrefOk, Bool.and_eq_true, Bool.or_eq_true, decide_eq_true_iff, decide_eq_true_iff, beq_iff_eq]
    dsimp only
    omega
  · exact .inl (bne_iff_ne.mpr hgone)

/-- Assertions of an action on a pinned node that hold when an item is filed at an address. -/
def Admits (addr : A) (x : ι) (ok : Counted α → Bool) : Prop :=
  ∀ c, L.Pinned 1 c → x ∉ L.view c.content addr → ok c = true

/-- Filing below a child asserts nothing wrong. -/
theorem admits_visitChild [DecidableEq A] {addr : A} {x : ι} (hfresh : L.size fresh = 0 ∧ L.Sound fresh)
    (hact : L.Files addr x act) (hok : L.Admits addr x ok) :
    (tree cmp L).Admits (k, addr) x fun n => visitChildOk L.size n k fresh act ok := by
  intro n hn hx
  obtain ⟨hpin, hview⟩ := L.pinned_pin (k := k) hn.2 hfresh
  have hx' : x ∉ L.view (pin n.content k fresh).content addr := by
    rw [hview]
    exact hx
  exact L.visitChildOk_of hn (hact _ hpin hx').1 (hok _ hpin hx')

omit [TransCmp cmp] [LawfulEqCmp cmp] in
/-- Filing below a root asserts nothing wrong. -/
theorem visitOk_of_admits [DecidableEq A] {addr : A} {x : ι} (ht : (tree cmp L).Sound t)
    (hfresh : L.size fresh = 0 ∧ L.Sound fresh) (hact : L.Files addr x act) (hok : L.Admits addr x ok)
    (hx : x ∉ (tree cmp L).view t (k, addr)) : visitOk L.size t k fresh act ok = true := by
  obtain ⟨hpin, hview⟩ := L.pinned_pin (k := k) ht hfresh
  have hx' : x ∉ L.view (pin t k fresh).content addr := by
    rw [hview]
    exact hx
  exact L.visitOk_of ht (hact _ hpin hx').1 (hok _ hpin hx')

/-- Assertions of an action on a node that hold when an item is taken off an address. -/
def Releases (addr : A) (x : ι) (ok : Counted α → Bool) : Prop :=
  ∀ c, L.Pinned 0 c → x ∈ L.view c.content addr → ok c = true

/-- Taking an item off below a child asserts nothing wrong. -/
theorem releases_dropChild {addr : A} {x : ι} (hok : L.Releases addr x ok) :
    (tree cmp L).Releases (k, addr) x fun n => dropChildOk n k act ok := by
  intro n hn hx
  obtain ⟨c, hfind, hmem⟩ := L.exists_of_mem_view hx
  exact L.dropChildOk_of hn hfind (hok c (hn.2 k c hfind).1 hmem)

omit [TransCmp cmp] [LawfulEqCmp cmp] in
/-- Taking an item off below a root asserts nothing wrong. -/
theorem dropOk_of_releases {addr : A} {x : ι} (ht : (tree cmp L).Sound t) (hok : L.Releases addr x ok)
    (hx : x ∈ (tree cmp L).view t (k, addr)) : dropOk t k ok = true := by
  obtain ⟨c, hfind, hmem⟩ := L.exists_of_mem_view hx
  rw [dropOk, hfind]
  exact hok c (ht k c hfind).1 hmem

/-- Assertions of an action that hold on every pinned node. -/
def Clears (ok : Counted α → Bool) : Prop := ∀ c, L.Pinned 1 c → ok c = true

/-- Flushing a node asserts nothing wrong. -/
theorem clears_flushChildren (hfresh : L.size fresh = 0 ∧ L.Sound fresh) (hact : L.Empties act) (hok : L.Clears ok) :
    (tree cmp L).Clears (flushChildrenOk L.size fresh act ok) := by
  intro n hn
  have halong (ks : List κ) : ∀ n : Counted (SearchTree cmp (Counted α)), (tree cmp L).Pinned 1 n →
      Along (fun n k => visitChild n k fresh act) (fun n k => visitChildOk L.size n k fresh act ok = true) n ks := by
    induction ks with
    | nil => exact fun _ _ => trivial
    | cons k ks ih =>
      intro n hn
      have hpin := (L.pinned_pin (k := k) hn.2 hfresh).1
      refine ⟨L.visitChildOk_of hn (hact _ hpin).1 (hok _ hpin), ih _ ?_⟩
      exact (L.foldl_visitChild_spec hn hfresh hact [k]).1
  rw [flushChildrenOk, decide_eq_true (halong _ n hn), Bool.true_and, beq_iff_eq]
  exact (L.empties_flushChildren hfresh hact n hn).2

/-- Flushing a root asserts nothing wrong. -/
theorem flushOk_of_clears (ht : (tree cmp L).Sound t) (hfresh : L.size fresh = 0 ∧ L.Sound fresh)
    (hact : L.Empties act) (hok : L.Clears ok) : flushOk L.size t fresh act ok = true := by
  have halong (ks : List κ) : ∀ t : SearchTree cmp (Counted α), (tree cmp L).Sound t →
      Along (fun t k => visit t k fresh act) (fun t k => visitOk L.size t k fresh act ok = true) t ks := by
    induction ks with
    | nil => exact fun _ _ => trivial
    | cons k ks ih =>
      intro t ht
      have hpin := (L.pinned_pin (k := k) ht hfresh).1
      refine ⟨L.visitOk_of ht (hact _ hpin).1 (hok _ hpin), ih _ ?_⟩
      show (tree cmp L).Sound (visit t k fresh act)
      rw [L.visit_eq_erase ht hfresh hact]
      exact L.sound_erase ht k
  rw [flushOk, decide_eq_true (halong _ t ht), Bool.true_and, L.flush_eq_empty ht hfresh hact]
  rfl

/-! ## Visits that change nothing -/

/-- A visit that leaves the child as it was leaves the root. -/
theorem visit_eq_self (ht : (tree cmp L).Sound t)
    (hact : act (pin t k fresh) = pin t k fresh) : visit t k fresh act = t := by
  rw [visit, hact]
  cases hfind : t.find? k with
  | none =>
    have hpin : pin t k fresh = ⟨1, fresh⟩ := by rw [pin, hfind]
    rw [hpin, settle]
    exact (if_pos rfl).trans (t.erase_of_find?_none hfind)
  | some c =>
    have hpin : (pin t k fresh).unref = c := by
      rw [pin, hfind]
      rfl
    rw [hpin, settle, if_neg (Nat.ne_of_gt (ht k c hfind).2)]
    exact t.insert_of_find?_some hfind

/-- A visit that leaves the child as it was leaves the node. -/
theorem visitChild_eq_self {pins : ℕ} (hn : (tree cmp L).Pinned pins n)
    (hact : act (pin n.content k fresh) = pin n.content k fresh) : visitChild n k fresh act = n := by
  have hcontent : settle n.content k (act (pin n.content k fresh)).unref = n.content := L.visit_eq_self hn.2 hact
  rw [visitChild, hcontent, hact]
  cases hfind : n.content.find? k with
  | none =>
    have hpin : pin n.content k fresh = ⟨1, fresh⟩ := by rw [pin, hfind]
    rw [hpin]
    rfl
  | some c =>
    have hpin : (pin n.content k fresh).unref = c := by
      rw [pin, hfind]
      rfl
    rw [hpin, if_neg (Nat.ne_of_gt (hn.2 k c hfind).2)]
    rfl

/-- An action that leaves every pinned node as it is, and asserts nothing wrong. -/
def Inert (act : Counted α → Counted α) (ok : Counted α → Bool) : Prop := ∀ c, L.Pinned 1 c → act c = c ∧ ok c = true

omit [TransCmp cmp] [LawfulEqCmp cmp] in
/-- Doing nothing. -/
theorem inert_id : L.Inert id fun _ => true := fun _ _ => ⟨rfl, rfl⟩

/-- Visiting a child without changing it. -/
theorem inert_visitChild (k : κ) (hfresh : L.size fresh = 0 ∧ L.Sound fresh) (h : L.Inert act ok) :
    (tree cmp L).Inert (fun n => visitChild n k fresh act) fun n => visitChildOk L.size n k fresh act ok := by
  intro n hn
  have hpin := (L.pinned_pin (k := k) hn.2 hfresh).1
  obtain ⟨hsame, hok⟩ := h _ hpin
  exact ⟨L.visitChild_eq_self hn hsame, L.visitChildOk_of hn (hsame.symm ▸ hpin) hok⟩

/-- Visiting a child of a root without changing it. -/
theorem visit_of_inert (k : κ) (ht : (tree cmp L).Sound t) (hfresh : L.size fresh = 0 ∧ L.Sound fresh)
    (h : L.Inert act ok) : visit t k fresh act = t ∧ visitOk L.size t k fresh act ok = true := by
  have hpin := (L.pinned_pin (k := k) ht hfresh).1
  obtain ⟨hsame, hok⟩ := h _ hpin
  exact ⟨L.visit_eq_self ht hsame, L.visitOk_of ht (hsame.symm ▸ hpin) hok⟩

end Level
