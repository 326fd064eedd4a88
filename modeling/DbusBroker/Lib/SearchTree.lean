import Mathlib.Algebra.GroupWithZero.Nat
import Mathlib.Data.List.Perm.Basic
import Mathlib.Data.List.Pairwise
import Mathlib.Algebra.BigOperators.Group.Finset.Basic

/-!
# Search trees ordered by a comparator

A balanced search tree is observed through its in-order sequence of nodes and a
comparator that finds the slot of a key. The shape of the tree is not observable, so the
sequence is the model: it is kept strictly increasing, a search walks it until the
comparator no longer answers "greater", and a node is added at the slot where the search
ended. Lookups are correct because the comparator is a total order, which is a hypothesis
of every operation and not a property of the tree.
-/

universe u v

/-- The in-order nodes of a search tree, strictly increasing under the comparator. -/
structure SearchTree {κ : Type u} (cmp : κ → κ → Ordering) (α : Type v) where
  entries : List (κ × α)
  sorted : entries.Pairwise fun a b => cmp a.1 b.1 = .lt

namespace SearchTree

open Std

variable {κ : Type u} {α : Type v} {cmp : κ → κ → Ordering}

/-- The tree without nodes. -/
def empty : SearchTree cmp α := ⟨[], List.Pairwise.nil⟩

/-- The keys in increasing order. -/
def keys (t : SearchTree cmp α) : List κ := t.entries.map Prod.fst

/-- The node values in key order. -/
def values (t : SearchTree cmp α) : List α := t.entries.map Prod.snd

/-- The number of nodes. -/
def size (t : SearchTree cmp α) : ℕ := t.entries.length

/-- Walk the in-order sequence until the comparator finds the key or passes its slot. -/
def findEntry (cmp : κ → κ → Ordering) (k : κ) : List (κ × α) → Option α
  | [] => none
  | (k', v) :: rest =>
    match cmp k k' with
    | .lt => none
    | .eq => some v
    | .gt => findEntry cmp k rest

/-- The value filed under a key. -/
def find? (t : SearchTree cmp α) (k : κ) : Option α := findEntry cmp k t.entries

/-- File a value at the slot of its key, replacing an equal key. -/
def insertEntry (cmp : κ → κ → Ordering) (k : κ) (v : α) : List (κ × α) → List (κ × α)
  | [] => [(k, v)]
  | (k', v') :: rest =>
    match cmp k k' with
    | .lt => (k, v) :: (k', v') :: rest
    | .eq => (k, v) :: rest
    | .gt => (k', v') :: insertEntry cmp k v rest

/-- A key below another is a different key. -/
theorem ne_of_lt [ReflCmp cmp] {a b : κ} (h : cmp a b = .lt) : a ≠ b := by
  rintro rfl
  have hself : cmp a a = .eq := ReflCmp.compare_self
  rw [hself] at h
  exact absurd h (by decide)

/-- A key above another is a different key. -/
theorem ne_of_gt [ReflCmp cmp] {a b : κ} (h : cmp a b = .gt) : a ≠ b := by
  rintro rfl
  have hself : cmp a a = .eq := ReflCmp.compare_self
  rw [hself] at h
  exact absurd h (by decide)

/-- A value is filed between the smaller and the larger keys. -/
theorem insertEntry_between {k : κ} {v : α} {l l' : List (κ × α)} (hl : ∀ e ∈ l, cmp k e.1 = .gt)
    (hl' : ∀ e ∈ l', cmp k e.1 = .lt) : insertEntry cmp k v (l ++ l') = l ++ (k, v) :: l' := by
  induction l with
  | nil =>
    cases l' with
    | nil => rfl
    | cons e rest => simp [insertEntry, hl' e List.mem_cons_self]
  | cons e rest ih =>
    have hrest := ih fun b hb => hl b (List.mem_cons_of_mem e hb)
    simp [insertEntry, hl e List.mem_cons_self, hrest]

/-- A strictly increasing sequence has no two entries under one key. -/
theorem key_injective_of_sorted [LawfulEqCmp cmp] {l : List (κ × α)}
    (hs : l.Pairwise fun a b => cmp a.1 b.1 = .lt) {a b : κ × α} (ha : a ∈ l) (hb : b ∈ l)
    (hk : a.1 = b.1) : a = b := by
  induction l with
  | nil => simp at ha
  | cons e rest ih =>
    rw [List.pairwise_cons] at hs
    rcases List.mem_cons.mp ha with hae | ha <;> rcases List.mem_cons.mp hb with hbe | hb
    · rw [hae, hbe]
    · exact absurd (hae ▸ hk) (ne_of_lt (hs.1 b hb))
    · exact absurd (hbe ▸ hk).symm (ne_of_lt (hs.1 a ha))
    · exact ih hs.2 ha hb

/-- Searching finds exactly the entries of the sequence. -/
theorem findEntry_eq_some_iff [TransCmp cmp] [LawfulEqCmp cmp] {l : List (κ × α)}
    (hs : l.Pairwise fun a b => cmp a.1 b.1 = .lt) (k : κ) (v : α) :
    findEntry cmp k l = some v ↔ (k, v) ∈ l := by
  induction l with
  | nil => simp [findEntry]
  | cons e rest ih =>
    obtain ⟨k', v'⟩ := e
    rw [List.pairwise_cons] at hs
    rw [findEntry, List.mem_cons]
    cases hc : cmp k k' with
    | lt =>
      -- every later key is greater than `k'`, so the slot of `k` has been passed
      simp only [reduceCtorEq, false_iff, not_or]
      refine ⟨fun h => ne_of_lt hc (Prod.mk.inj h).1, fun h => ?_⟩
      exact ne_of_lt (TransCmp.lt_trans hc (hs.1 _ h)) rfl
    | eq =>
      obtain rfl := LawfulEqCmp.eq_of_compare hc
      simp only [Option.some.injEq, Prod.mk.injEq, true_and]
      refine ⟨fun h => Or.inl h.symm, fun h => ?_⟩
      rcases h with h | h
      · exact h.symm
      · exact absurd rfl (ne_of_lt (hs.1 (k, v) h))
    | gt =>
      have hne : (k, v) ≠ (k', v') := fun h => ne_of_gt hc (Prod.mk.inj h).1
      simp only [ih hs.2, hne, false_or]

/-- Filing an entry keeps exactly the entries under other keys. -/
theorem mem_insertEntry_iff [TransCmp cmp] [LawfulEqCmp cmp] {l : List (κ × α)}
    (hs : l.Pairwise fun a b => cmp a.1 b.1 = .lt) (k : κ) (v : α) (e : κ × α) :
    e ∈ insertEntry cmp k v l ↔ e = (k, v) ∨ (e ∈ l ∧ e.1 ≠ k) := by
  induction l with
  | nil => simp [insertEntry]
  | cons e' rest ih =>
    obtain ⟨k', v'⟩ := e'
    rw [List.pairwise_cons] at hs
    rw [insertEntry]
    cases hc : cmp k k' with
    | lt =>
      have hother : ∀ x ∈ (k', v') :: rest, x.1 ≠ k := by
        intro x hx
        rcases List.mem_cons.mp hx with rfl | hx
        · exact (ne_of_lt hc).symm
        · exact (ne_of_lt (TransCmp.lt_trans hc (hs.1 x hx))).symm
      simp only [List.mem_cons] at hother ⊢
      constructor
      · rintro (h | h | h)
        · exact Or.inl h
        · exact Or.inr ⟨Or.inl h, hother e (Or.inl h)⟩
        · exact Or.inr ⟨Or.inr h, hother e (Or.inr h)⟩
      · rintro (h | ⟨h, -⟩)
        · exact Or.inl h
        · exact Or.inr h
    | eq =>
      obtain rfl := LawfulEqCmp.eq_of_compare hc
      simp only [List.mem_cons]
      constructor
      · rintro (h | h)
        · exact Or.inl h
        · exact Or.inr ⟨Or.inr h, (ne_of_lt (hs.1 e h)).symm⟩
      · rintro (h | ⟨h | h, hne⟩)
        · exact Or.inl h
        · exact absurd (by rw [h]) hne
        · exact Or.inr h
    | gt =>
      have hne : k' ≠ k := (ne_of_gt hc).symm
      simp only [List.mem_cons, ih hs.2]
      constructor
      · rintro (h | h | ⟨h, hk⟩)
        · exact Or.inr ⟨Or.inl h, by rw [h]; exact hne⟩
        · exact Or.inl h
        · exact Or.inr ⟨Or.inr h, hk⟩
      · rintro (h | ⟨h | h, hk⟩)
        · exact Or.inr (Or.inl h)
        · exact Or.inl h
        · exact Or.inr (Or.inr ⟨h, hk⟩)

/-- Filing an entry at its slot keeps the sequence strictly increasing. -/
theorem sorted_insertEntry [TransCmp cmp] [LawfulEqCmp cmp] {l : List (κ × α)}
    (hs : l.Pairwise fun a b => cmp a.1 b.1 = .lt) (k : κ) (v : α) :
    (insertEntry cmp k v l).Pairwise fun a b => cmp a.1 b.1 = .lt := by
  induction l with
  | nil => simp [insertEntry]
  | cons e rest ih =>
    obtain ⟨k', v'⟩ := e
    rw [insertEntry]
    have hs' := List.pairwise_cons.mp hs
    cases hc : cmp k k' with
    | lt =>
      refine List.Pairwise.cons (fun b hb => ?_) hs
      rcases List.mem_cons.mp hb with rfl | hb
      · exact hc
      · exact TransCmp.lt_trans hc (hs'.1 b hb)
    | eq =>
      obtain rfl := LawfulEqCmp.eq_of_compare hc
      exact List.Pairwise.cons hs'.1 hs'.2
    | gt =>
      refine List.Pairwise.cons (fun b hb => ?_) (ih hs'.2)
      rcases (mem_insertEntry_iff hs'.2 k v b).mp hb with rfl | ⟨hb, -⟩
      · exact OrientedCmp.lt_of_gt hc
      · exact hs'.1 b hb

/-- Add a node under its key, or replace the value filed there. -/
def insert [TransCmp cmp] [LawfulEqCmp cmp] (t : SearchTree cmp α) (k : κ) (v : α) : SearchTree cmp α :=
  ⟨insertEntry cmp k v t.entries, sorted_insertEntry t.sorted k v⟩

/-- Remove the node under a key, if there is one. -/
def erase (t : SearchTree cmp α) (k : κ) : SearchTree cmp α :=
  ⟨t.entries.filter fun e => cmp k e.1 != .eq, t.sorted.sublist List.filter_sublist⟩

/-- Change what is filed at every node. -/
def mapValues (f : α → α) (t : SearchTree cmp α) : SearchTree cmp α :=
  ⟨t.entries.map fun e => (e.1, f e.2), by rw [List.pairwise_map]; exact t.sorted⟩

/-- Keep the nodes at which something meets a condition. -/
def filterValues (p : α → Bool) (t : SearchTree cmp α) : SearchTree cmp α :=
  ⟨t.entries.filter fun e => p e.2, t.sorted.sublist List.filter_sublist⟩

section Lookup

variable [TransCmp cmp] [LawfulEqCmp cmp] (t : SearchTree cmp α)

/-- A lookup succeeds exactly on the nodes of the tree. -/
theorem find?_eq_some_iff (k : κ) (v : α) : t.find? k = some v ↔ (k, v) ∈ t.entries :=
  findEntry_eq_some_iff t.sorted k v

/-- A lookup fails exactly when no node has the key. -/
theorem find?_eq_none_iff (k : κ) : t.find? k = none ↔ ∀ v, (k, v) ∉ t.entries := by
  rw [Option.eq_none_iff_forall_not_mem]
  exact forall_congr' fun v => not_congr (t.find?_eq_some_iff k v)

omit [TransCmp cmp] in
/-- Removing a key keeps exactly the entries under other keys. -/
theorem mem_erase_iff (k : κ) (e : κ × α) : e ∈ (t.erase k).entries ↔ e ∈ t.entries ∧ e.1 ≠ k := by
  simp only [erase, List.mem_filter, bne_iff_ne, ne_eq, LawfulEqCmp.compare_eq_iff_eq]
  exact and_congr_right fun _ => not_congr eq_comm

/-- Filing a value changes the lookup of its key only. -/
theorem find?_insert [DecidableEq κ] (k : κ) (v : α) (k' : κ) :
    (t.insert k v).find? k' = if k' = k then some v else t.find? k' := by
  apply Option.ext
  intro w
  rw [find?_eq_some_iff, insert, mem_insertEntry_iff t.sorted]
  split
  · next h =>
    subst h
    simp [eq_comm]
  · next h =>
    rw [find?_eq_some_iff]
    simp [h]

/-- The filed value is found. -/
@[simp] theorem find?_insert_self (k : κ) (v : α) : (t.insert k v).find? k = some v := by
  classical
  rw [find?_insert, if_pos rfl]

/-- Other keys keep their values. -/
theorem find?_insert_of_ne {k k' : κ} (h : k' ≠ k) (v : α) : (t.insert k v).find? k' = t.find? k' := by
  classical
  rw [find?_insert, if_neg h]

/-- Removing a key changes the lookup of that key only. -/
theorem find?_erase [DecidableEq κ] (k k' : κ) :
    (t.erase k).find? k' = if k' = k then none else t.find? k' := by
  apply Option.ext
  intro w
  rw [find?_eq_some_iff, mem_erase_iff]
  split
  · next h => simp [h]
  · next h =>
    rw [find?_eq_some_iff]
    simp [h]

/-- The removed key is gone. -/
@[simp] theorem find?_erase_self (k : κ) : (t.erase k).find? k = none := by
  classical
  rw [find?_erase, if_pos rfl]

/-- Other keys survive a removal. -/
theorem find?_erase_of_ne {k k' : κ} (h : k' ≠ k) : (t.erase k).find? k' = t.find? k' := by
  classical
  rw [find?_erase, if_neg h]

omit [TransCmp cmp] [LawfulEqCmp cmp] in
/-- Nothing is found in the empty tree. -/
@[simp] theorem find?_empty (k : κ) : (empty : SearchTree cmp α).find? k = none := rfl

end Lookup

/-- Changing what is filed changes what a lookup finds. -/
theorem find?_mapValues [TransCmp cmp] [LawfulEqCmp cmp] (t : SearchTree cmp α) (f : α → α) (k : κ) :
    (t.mapValues f).find? k = (t.find? k).map f := by
  refine Option.ext fun w => ?_
  rw [find?_eq_some_iff, Option.map_eq_some_iff]
  simp only [mapValues, List.mem_map, Prod.mk.injEq, find?_eq_some_iff]
  constructor
  · rintro ⟨⟨k', v⟩, hmem, rfl, rfl⟩
    exact ⟨v, hmem, rfl⟩
  · rintro ⟨v, hmem, rfl⟩
    exact ⟨(k, v), hmem, rfl, rfl⟩

/-- A lookup among the nodes that are kept. -/
theorem find?_filterValues [TransCmp cmp] [LawfulEqCmp cmp] (t : SearchTree cmp α) (p : α → Bool) (k : κ) :
    (t.filterValues p).find? k = (t.find? k).filter p := by
  refine Option.ext fun v => ?_
  rw [find?_eq_some_iff, Option.filter_eq_some_iff, find?_eq_some_iff]
  exact List.mem_filter

/-- The nodes of a key are what its lookup finds. -/
theorem filter_key_entries [TransCmp cmp] [LawfulEqCmp cmp] [DecidableEq κ] (t : SearchTree cmp α) (k : κ) :
    t.entries.filter (fun e => decide (e.1 = k)) = ((t.find? k).map fun v => (k, v)).toList := by
  have hkeys : (t.entries.filter fun e => decide (e.1 = k)).Pairwise fun a b => cmp a.1 b.1 = .lt :=
    t.sorted.sublist List.filter_sublist
  have hmem (e : κ × α) : e ∈ t.entries.filter (fun e => decide (e.1 = k)) ↔ e.1 = k ∧ t.find? k = some e.2 := by
    rw [List.mem_filter, decide_eq_true_iff, and_comm, find?_eq_some_iff]
    refine and_congr_right fun h => ?_
    rw [← h]
  cases hlist : t.entries.filter fun e => decide (e.1 = k) with
  | nil =>
    cases hfind : t.find? k with
    | none => rfl
    | some v =>
      have hin := (hmem (k, v)).mpr ⟨rfl, hfind⟩
      rw [hlist] at hin
      exact absurd hin List.not_mem_nil
  | cons e rest =>
    rw [hlist] at hkeys hmem
    obtain ⟨hkey, hfind⟩ := (hmem e).mp List.mem_cons_self
    cases rest with
    | nil => rw [hfind, ← hkey]; rfl
    | cons e' rest =>
      -- two nodes of one key would not be strictly increasing
      obtain ⟨hkey', -⟩ := (hmem e').mp (List.mem_cons_of_mem e List.mem_cons_self)
      exact absurd (hkey.trans hkey'.symm) (ne_of_lt (List.rel_of_pairwise_cons hkeys List.mem_cons_self))

/-- Entries without equal keys are without duplicates. -/
theorem nodup_entries [LawfulEqCmp cmp] (t : SearchTree cmp α) : t.entries.Nodup :=
  List.nodup_iff_pairwise_ne.mpr
    (t.sorted.imp fun {_ _} h hab => ne_of_lt h (congrArg Prod.fst hab))

/-- No key occurs twice. -/
theorem nodup_keys [LawfulEqCmp cmp] (t : SearchTree cmp α) : t.keys.Nodup := by
  rw [keys, List.nodup_iff_pairwise_ne, List.pairwise_map]
  exact t.sorted.imp fun {_ _} h => ne_of_lt h

/-- Two trees with the same lookups are the same tree. -/
theorem ext_find? [TransCmp cmp] [LawfulEqCmp cmp] {t t' : SearchTree cmp α}
    (h : ∀ k, t.find? k = t'.find? k) : t = t' := by
  have hmem : ∀ e, e ∈ t.entries ↔ e ∈ t'.entries := fun e => by
    rw [← t.find?_eq_some_iff e.1 e.2, ← t'.find?_eq_some_iff e.1 e.2, h]
  have hperm : t.entries.Perm t'.entries :=
    (List.perm_ext_iff_of_nodup t.nodup_entries t'.nodup_entries).mpr hmem
  have hanti : ∀ a b : κ × α, a ∈ t.entries → b ∈ t'.entries →
      cmp a.1 b.1 = .lt → cmp b.1 a.1 = .lt → a = b :=
    fun _ _ _ _ hab hba => absurd hba (OrientedCmp.not_lt_of_lt hab)
  have hentries : t.entries = t'.entries := List.Perm.eq_of_pairwise hanti t.sorted t'.sorted hperm
  cases t
  cases t'
  simpa using hentries

/-- A key occurs exactly when its lookup succeeds. -/
theorem mem_keys_iff [TransCmp cmp] [LawfulEqCmp cmp] (t : SearchTree cmp α) (k : κ) :
    k ∈ t.keys ↔ ∃ v, t.find? k = some v := by
  simp only [keys, List.mem_map, find?_eq_some_iff]
  constructor
  · rintro ⟨⟨k', v⟩, hmem, rfl⟩
    exact ⟨v, hmem⟩
  · rintro ⟨v, hmem⟩
    exact ⟨(k, v), hmem, rfl⟩

/-- A present node is the first of the remaining ones, up to order. -/
theorem entries_perm_of_find?_some [TransCmp cmp] [LawfulEqCmp cmp] (t : SearchTree cmp α) {k : κ} {v : α}
    (h : t.find? k = some v) : t.entries.Perm ((k, v) :: (t.erase k).entries) := by
  have hmem := (t.find?_eq_some_iff k v).mp h
  have hfresh : (k, v) ∉ (t.erase k).entries := fun hin => ((t.mem_erase_iff k (k, v)).mp hin).2 rfl
  rw [List.perm_ext_iff_of_nodup t.nodup_entries
    (List.nodup_cons.mpr ⟨hfresh, (t.erase k).nodup_entries⟩)]
  intro e
  rw [List.mem_cons, mem_erase_iff]
  constructor
  · intro he
    by_cases hk : e.1 = k
    · exact Or.inl (key_injective_of_sorted t.sorted he hmem hk)
    · exact Or.inr ⟨he, hk⟩
  · intro he
    rcases he with rfl | ⟨he, -⟩
    · exact hmem
    · exact he

/-- The sum of a weight over all nodes. -/
def total (f : κ → α → ℕ) (t : SearchTree cmp α) : ℕ := (t.entries.map fun e => f e.1 e.2).sum

/-- The weight of the node under a key, zero without one. -/
def weightAt (f : κ → α → ℕ) (t : SearchTree cmp α) (k : κ) : ℕ := (t.find? k).elim 0 (f k)

section Total

variable [TransCmp cmp] [LawfulEqCmp cmp] (f : κ → α → ℕ) (t : SearchTree cmp α)

/-- Removing an absent key changes nothing. -/
theorem erase_of_find?_none {k : κ} (h : t.find? k = none) : t.erase k = t := by
  classical
  apply ext_find?
  intro k'
  rw [find?_erase]
  split
  · next hk => rw [hk, h]
  · rfl

/-- Removing a node removes its weight. -/
theorem total_erase (k : κ) : (t.erase k).total f + t.weightAt f k = t.total f := by
  classical
  unfold weightAt
  cases hf : t.find? k with
  | none =>
    rw [t.erase_of_find?_none hf]
    rfl
  | some v =>
    have hperm := t.entries_perm_of_find?_some hf
    have hsum := (hperm.map fun e => f e.1 e.2).sum_eq
    simp only [List.map_cons, List.sum_cons] at hsum
    simp only [total, Option.elim]
    omega

/-- Erasing before filing is filing alone. -/
theorem insert_erase (k : κ) (v : α) : (t.erase k).insert k v = t.insert k v := by
  classical
  apply ext_find?
  intro k'
  rw [find?_insert, find?_insert, find?_erase]
  split <;> rfl

/-- Erasing after filing under an absent key gives the tree back. -/
theorem erase_insert_of_find?_none {k : κ} (h : t.find? k = none) (v : α) :
    (t.insert k v).erase k = t := by
  classical
  apply ext_find?
  intro k'
  rw [find?_erase, find?_insert]
  split
  · next hk => rw [hk, h]
  · rfl

/-- Filing a second value under a key forgets the first. -/
theorem insert_insert (k : κ) (v w : α) : (t.insert k v).insert k w = t.insert k w := by
  classical
  apply ext_find?
  intro k'
  rw [find?_insert, find?_insert, find?_insert]
  split <;> rfl

/-- Filing the value that is already there changes nothing. -/
theorem insert_of_find?_some {k : κ} {v : α} (h : t.find? k = some v) : t.insert k v = t := by
  classical
  apply ext_find?
  intro k'
  rw [find?_insert]
  split
  · next hk => rw [hk, h]
  · rfl

/-- Filing and erasing a key is erasing it. -/
theorem erase_insert (k : κ) (v : α) : (t.insert k v).erase k = t.erase k := by
  rw [← t.insert_erase k v]
  exact (t.erase k).erase_insert_of_find?_none (t.find?_erase_self k) v

/-- A present value is the first of the remaining ones, up to order. -/
theorem values_perm_of_find?_some {k : κ} {v : α} (h : t.find? k = some v) :
    t.values.Perm (v :: (t.erase k).values) :=
  (t.entries_perm_of_find?_some h).map Prod.snd

/-- A filed value is the first of the other ones, up to order. -/
theorem values_insert_perm (k : κ) (v : α) : (t.insert k v).values.Perm (v :: (t.erase k).values) := by
  rw [← t.erase_insert k v]
  exact (t.insert k v).values_perm_of_find?_some (t.find?_insert_self k v)

/-- Filing a value replaces the weight of its key. -/
theorem total_insert (k : κ) (v : α) :
    (t.insert k v).total f + t.weightAt f k = t.total f + f k v := by
  have hnew := total_erase f (t.insert k v) k
  have hold := total_erase f t k
  rw [erase_insert, weightAt, find?_insert_self, Option.elim] at hnew
  omega

/-- Filing a value of the same weight keeps the total. -/
theorem total_insert_of_find?_some {k : κ} {v w : α} (h : t.find? k = some v) (hw : f k w = f k v) :
    (t.insert k w).total f = t.total f := by
  have htotal := total_insert f t k w
  rw [weightAt, h, Option.elim] at htotal
  omega

/-- Filing a value under an absent key adds its weight. -/
theorem total_insert_of_find?_none {k : κ} (h : t.find? k = none) (v : α) :
    (t.insert k v).total f = t.total f + f k v := by
  have htotal := total_insert f t k v
  rw [weightAt, h, Option.elim] at htotal
  omega

/-- Removing a present key removes its weight. -/
theorem total_erase_of_find?_some {k : κ} {v : α} (h : t.find? k = some v) :
    (t.erase k).total f + f k v = t.total f := by
  have htotal := total_erase f t k
  rw [weightAt, h, Option.elim] at htotal
  exact htotal

/-- The filed value gives the weight of its key. -/
theorem weightAt_insert_self (k : κ) (v : α) : (t.insert k v).weightAt f k = f k v := by
  rw [weightAt, find?_insert_self, Option.elim]

/-- Other keys keep their weight. -/
theorem weightAt_insert_of_ne {k k' : κ} (h : k' ≠ k) (v : α) :
    (t.insert k v).weightAt f k' = t.weightAt f k' := by
  rw [weightAt, weightAt, t.find?_insert_of_ne h]

/-- A removed key weighs nothing. -/
theorem weightAt_erase_self (k : κ) : (t.erase k).weightAt f k = 0 := by
  rw [weightAt, find?_erase_self, Option.elim]

/-- Other keys keep their weight after a removal. -/
theorem weightAt_erase_of_ne {k k' : κ} (h : k' ≠ k) : (t.erase k).weightAt f k' = t.weightAt f k' := by
  rw [weightAt, weightAt, t.find?_erase_of_ne h]

/-- Weights that agree on all nodes have the same total. -/
theorem total_congr {f g : κ → α → ℕ} (h : ∀ k v, t.find? k = some v → f k v = g k v) :
    t.total f = t.total g := by
  rw [total, total]
  congr 1
  refine List.map_congr_left fun e he => h e.1 e.2 ?_
  exact (t.find?_eq_some_iff e.1 e.2).mpr he

/-- Two trees that agree on all keys but one differ in the weight of that key only. -/
theorem total_of_eq_off {f g : κ → α → ℕ} {t' : SearchTree cmp α} {k : κ}
    (hsame : ∀ k', k' ≠ k → t'.find? k' = t.find? k')
    (hweight : ∀ k' v, k' ≠ k → t.find? k' = some v → g k' v = f k' v) :
    t'.total g + t.weightAt f k = t.total f + t'.weightAt g k := by
  classical
  have herase : t'.erase k = t.erase k := by
    apply ext_find?
    intro k'
    rw [find?_erase, find?_erase]
    split
    · rfl
    · next hk => exact hsame k' hk
  have hrest : (t.erase k).total g = (t.erase k).total f := by
    refine (t.erase k).total_congr fun k' v hv => ?_
    rw [find?_erase] at hv
    split at hv
    · cases hv
    · next hk => exact hweight k' v hk hv
  have hnew := total_erase g t' k
  have hold := total_erase f t k
  rw [herase, hrest] at hnew
  omega

/-- The weights of a set of keys are part of the total. -/
theorem sum_weightAt_le_total [DecidableEq κ] (ks : Finset κ) :
    ∑ k ∈ ks, t.weightAt f k ≤ t.total f := by
  induction ks using Finset.induction_on generalizing t with
  | empty => exact Nat.zero_le _
  | insert k ks hk ih =>
    have hrest := ih (t.erase k)
    have hsame : ∑ k' ∈ ks, (t.erase k).weightAt f k' = ∑ k' ∈ ks, t.weightAt f k' := by
      refine Finset.sum_congr rfl fun k' hk' => t.weightAt_erase_of_ne f ?_
      rintro rfl
      exact hk hk'
    have herase := total_erase f t k
    rw [Finset.sum_insert hk]
    omega

omit [TransCmp cmp] [LawfulEqCmp cmp] in
/-- The empty tree weighs nothing. -/
@[simp] theorem total_empty : (empty : SearchTree cmp α).total f = 0 := rfl

omit [TransCmp cmp] [LawfulEqCmp cmp] in
/-- The size counts every node once. -/
theorem size_eq_total : t.size = t.total fun _ _ => 1 := by
  simp [size, total]

/-- Replacing a value keeps the size. -/
theorem size_insert_of_find?_some {k : κ} {v : α} (h : t.find? k = some v) (w : α) :
    (t.insert k w).size = t.size := by
  rw [size_eq_total, size_eq_total]
  exact total_insert_of_find?_some _ t h rfl

/-- Filing a value under an absent key adds one node. -/
theorem size_insert_of_find?_none {k : κ} (h : t.find? k = none) (v : α) :
    (t.insert k v).size = t.size + 1 := by
  rw [size_eq_total, size_eq_total]
  exact total_insert_of_find?_none _ t h v

/-- Removing a present key removes one node. -/
theorem size_erase_of_find?_some {k : κ} {v : α} (h : t.find? k = some v) :
    (t.erase k).size + 1 = t.size := by
  rw [size_eq_total, size_eq_total]
  exact total_erase_of_find?_some _ t h

end Total

end SearchTree
