import DbusBroker.Lib.Run
import DbusBroker.Rbtree.Search

/-!
# Registries on c-rbtree

The registries of the broker all use a tree the same way: a new object is linked at the slot
that a search for its key ends at, unless the key is taken, objects are looked up by key, and
an object is unlinked before it goes away. Elsewhere such a registry is a `SearchTree`. Here
every sequence of these operations on memory is shown to give the answers of that search tree,
and to stay within the rounds that its size allows.
-/

namespace DbusBroker.Rbtree

open ColourTree Frame Std

variable {α κ : Type}

/-- What a registry does with its tree. -/
inductive RegistryOp (κ α : Type) where
  /-- A new object is filed under a key. -/
  | add (k : κ) (a : α)
  /-- An object is taken out. -/
  | unlink (a : α)
  /-- An object is looked up. -/
  | find (k : κ)
  deriving DecidableEq, Repr

/-- Nodes as `c_rbnode_init` leaves them, and an empty tree. -/
def Memory.init : Memory α := ⟨fun a => ⟨.node a, ⟨false, false⟩, none, none⟩, none⟩

section

variable [DecidableEq α] (cmp : κ → κ → Ordering)

/-- The use of c-rbtree: an object is filed with `c_rbtree_find_slot` and `c_rbtree_add`, and the object that has its
key already is the answer if there is one; a lookup is `c_rbtree_find_node`. -/
def Objects.step (fuel : ℕ) (s : Objects κ α) : RegistryOp κ α → Option (Objects κ α × Option α)
  | .add k a => do
    let s := { s with keys := Function.update s.keys a k }
    match ← cRbtreeFindSlot (s.compare cmp k) fuel s.memory with
    | .conflict b => some (s, some b)
    | .slot slot =>
      let m ← cRbtreeAdd fuel s.memory slot a
      some ({ s with memory := m }, none)
  | .unlink a => do
    let m ← cRbnodeUnlink fuel s.memory a
    some ({ s with memory := m }, none)
  | .find k => do
    let found ← cRbtreeFindNode (s.compare cmp k) fuel s.memory
    some (s, found)

variable {cmp} [TransCmp cmp] [LawfulEqCmp cmp]

/-- The same on a search tree. An object is not added while it is filed. -/
def indexStep (index : SearchTree cmp α) : RegistryOp κ α → Option (SearchTree cmp α × Option α)
  | .add k a =>
    if index.values.any fun b => decide (b = a) then none
    else match index.find? k with
      | some b => some (index, some b)
      | none => some (index.insert k a, none)
  | .unlink a => some (index.filterValues fun b => decide (b ≠ a), none)
  | .find k => some (index, index.find? k)

variable {s : Objects κ α} {index : SearchTree cmp α} {t : ColourTree α}

omit [TransCmp cmp] [LawfulEqCmp cmp] in
/-- The key of an object that is not filed may change. -/
theorem FiledBy.setKey (h : FiledBy cmp s index t) {a : α} (ha : a ∉ t.inorder) (k : κ) :
    FiledBy cmp { s with keys := Function.update s.keys a k } index t := by
  refine ⟨h.represents, h.redBlack, h.entries.trans (List.map_congr_left fun b hb => ?_), h.unlinked⟩
  have hba : b ≠ a := fun heq => ha (heq ▸ hb)
  have hkey : Function.update s.keys a k b = s.keys b := Function.update_of_ne hba ..
  exact congrArg (fun x => (x, b)) hkey.symm

/-- A new object is linked at the slot its key was searched for. -/
theorem FiledBy.add (h : FiledBy cmp s index t) {a : α} (ha : a ∉ t.inorder) {k : κ} (hk : s.keys a = k)
    {slot : Option (α × Side)} {fuel : ℕ} (hfuel : 2 * Nat.log2 (index.size + 1) < fuel)
    (hslot : cRbtreeFindSlot (s.compare cmp k) fuel s.memory = some (.slot slot)) :
    ∃ m', cRbtreeAdd fuel s.memory slot a = some m' ∧ Files cmp { s with memory := m' } (index.insert k a) := by
  have hfound := h.findSlot k (Nat.le_of_lt hfuel)
  have hplug := plug_search (s.compare cmp k) [] t
  obtain ⟨hbefore, hafter⟩ := h.search_between k
  rw [plug_nil] at hplug
  obtain ⟨path, hpath⟩ : ∃ path, (search (s.compare cmp k) [] t).1 = path := ⟨_, rfl⟩
  obtain ⟨u, hu⟩ : ∃ u, (search (s.compare cmp k) [] t).2 = u := ⟨_, rfl⟩
  rw [hpath, hu] at hplug
  rw [hpath] at hbefore hafter
  rw [hslot, hpath, hu] at hfound
  cases u with
  | node red l b r => cases hfound
  | nil =>
    cases hfound
    have horder : t.inorder = before path ++ after path := by
      rw [← hplug, inorder_plug]
      simp [inorder]
    have hframes : a ∉ frameNodes path := fun hmem => ha (by
      rw [← hplug, (perm_plug path .nil).mem_iff]
      exact hmem)
    have hlength := length_le_depth_plug path .nil
    have hdepth := h.depth_le
    have hcol := h.redBlack
    have hat := h.represents
    rw [← hplug] at hcol hat hdepth
    obtain ⟨m', hm', t', ht', hcol', horder', hsame⟩ :=
      cRbtreeAdd_restores fuel (representsAt_iff.mp hat) hcol hframes (by omega)
    refine ⟨m', hm', t', ht', hcol', ?_, fun b hb => ?_⟩
    · have hentries := h.entries
      rw [horder, List.map_append] at hentries
      show SearchTree.insertEntry cmp k a index.entries = t'.inorder.map fun b => (s.keys b, b)
      rw [horder', hentries, SearchTree.insertEntry_between, List.map_append, List.map_cons, hk]
      · intro e he
        obtain ⟨b, hb, rfl⟩ := List.mem_map.mp he
        exact hbefore b hb
      · intro e he
        obtain ⟨b, hb, rfl⟩ := List.mem_map.mp he
        exact hafter b hb
    · have hb' : b ∉ t.inorder := fun hmem => hb (by
        rw [horder'] at *
        rw [horder, List.mem_append] at hmem
        rw [List.mem_append, List.mem_cons]
        tauto)
      rw [horder'] at hb
      show (m'.nodes b).parent = some b
      rw [hsame b hb]
      exact h.unlinked b hb'

omit [TransCmp cmp] [LawfulEqCmp cmp] in
/-- An object is taken out, whether it was filed or not. -/
theorem FiledBy.unlink (h : FiledBy cmp s index t) (a : α) {fuel : ℕ}
    (hfuel : 2 * Nat.log2 (index.size + 1) < fuel) :
    ∃ m', cRbnodeUnlink fuel s.memory a = some m' ∧
      Files cmp { s with memory := m' } (index.filterValues fun b => decide (b ≠ a)) := by
  have hfilter : (index.filterValues fun b => decide (b ≠ a)).entries =
      (t.inorder.filter fun b => decide (b ≠ a)).map fun b => (s.keys b, b) := by
    show index.entries.filter (fun e => decide (e.2 ≠ a)) = _
    rw [h.entries, List.filter_map]
    rfl
  by_cases ha : a ∈ t.inorder
  · obtain ⟨m', hm', ⟨t', ht', hcol', horder', hsame⟩, hparent⟩ :=
      cRbnodeUnlink_restores fuel h.represents h.redBlack ha (Nat.lt_of_le_of_lt h.depth_le hfuel)
    refine ⟨m', hm', t', ht', hcol', ?_, fun b hb => ?_⟩
    · rw [hfilter, horder', h.represents.nodup.erase_eq_filter]
      simp [bne, beq_eq_decide]
    · by_cases hba : b = a
      · rw [hba]
        exact hparent
      · have hb' : b ∉ t.inorder := fun hmem => hb (by
          rw [horder', h.represents.nodup.mem_erase_iff]
          exact ⟨hba, hmem⟩)
        show (m'.nodes b).parent = some b
        rw [hsame b hb']
        exact h.unlinked b hb'
  · have hlinked : ¬s.memory.isLinked a = true := by
      rw [Memory.isLinked, h.unlinked a ha]
      simp
    refine ⟨s.memory, by rw [cRbnodeUnlink, if_neg hlinked], t, h.represents, h.redBlack, ?_, h.unlinked⟩
    rw [hfilter, List.filter_eq_self.mpr fun b hb => ?_]
    simpa using fun heq : b = a => ha (heq ▸ hb)

omit [DecidableEq α] [TransCmp cmp] [LawfulEqCmp cmp] in
theorem size_filterValues_le (index : SearchTree cmp α) (p : α → Bool) : (index.filterValues p).size ≤ index.size :=
  List.length_filter_le ..

/-- One operation on memory does what it does to the search tree, with the same answer. -/
theorem Files.step (h : Files cmp s index) {fuel : ℕ} (hfuel : 2 * Nat.log2 (index.size + 1) < fuel)
    {op : RegistryOp κ α} {index' : SearchTree cmp α} {answer : Option α}
    (hspec : indexStep index op = some (index', answer)) :
    ∃ s', s.step cmp fuel op = some (s', answer) ∧ Files cmp s' index' ∧ index'.size ≤ index.size + 1 := by
  obtain ⟨t, h⟩ := h
  cases op with
  | add k a =>
    rw [indexStep] at hspec
    by_cases hfiled : index.values.any (fun b => decide (b = a)) = true
    · rw [if_pos hfiled] at hspec
      cases hspec
    · rw [if_neg hfiled] at hspec
      have ha : a ∉ t.inorder := fun hmem => hfiled (List.any_eq_true.mpr ⟨a, by rwa [h.values_eq], by simp⟩)
      have hset := h.setKey ha k
      have hslot := hset.findSlot k (Nat.le_of_lt hfuel)
      have hroot := hset.root?_search k
      cases hfind : index.find? k with
      | some b =>
        rw [hfind] at hspec hroot
        cases hspec
        rw [foundSlot, hroot] at hslot
        refine ⟨_, ?_, ⟨t, hset⟩, Nat.le_succ _⟩
        simp [Objects.step, hslot]
      | none =>
        rw [hfind] at hspec hroot
        cases hspec
        rw [foundSlot, hroot] at hslot
        have hkey : Function.update s.keys a k a = k := Function.update_self ..
        obtain ⟨m', hm', hfiles⟩ := hset.add ha hkey hfuel hslot
        refine ⟨_, ?_, hfiles, Nat.le_of_eq (index.size_insert_of_find?_none hfind a)⟩
        simp [Objects.step, hslot, hm']
  | unlink a =>
    cases hspec
    obtain ⟨m', hm', hfiles⟩ := h.unlink a hfuel
    exact ⟨_, by simp [Objects.step, hm'], hfiles, (size_filterValues_le ..).trans (Nat.le_succ _)⟩
  | find k =>
    cases hspec
    refine ⟨s, ?_, ⟨t, h⟩, Nat.le_succ _⟩
    simp [Objects.step, h.findNode k (Nat.le_of_lt hfuel)]

omit [DecidableEq α] [TransCmp cmp] [LawfulEqCmp cmp] in
/-- Memory without linked nodes files nothing. -/
theorem files_init (keys : α → κ) : Files cmp ⟨Memory.init, keys⟩ (SearchTree.empty : SearchTree cmp α) :=
  ⟨.nil, ⟨rfl, trivial, List.nodup_nil⟩, ⟨rfl, 0, rfl⟩, rfl, fun _ _ => rfl⟩

variable (cmp) in
/-- Registries on c-rbtree behave as search trees: whatever a sequence of operations answers on the search tree, it
answers in memory, every loop taking at most twice the logarithm of the number of operations in rounds, and the memory
holds a red-black tree of the entries in the end. -/
theorem transcript_refines (keys : α → κ) (ops : List (RegistryOp κ α)) (fuel : ℕ)
    (hfuel : 2 * Nat.log2 (ops.length + 1) < fuel) (answers : List (Option α)) (index : SearchTree cmp α)
    (hspec : Machine.transcript indexStep (SearchTree.empty : SearchTree cmp α) ops = some (index, answers)) :
    ∃ s, Machine.transcript (Objects.step cmp fuel) ⟨Memory.init, keys⟩ ops = some (s, answers) ∧
      Files cmp s index := by
  have hsimulates (n : ℕ) (s : Objects κ α) (index : SearchTree cmp α) (op : RegistryOp κ α)
      (index' : SearchTree cmp α) (answer : Option α) (hrel : Files cmp s index ∧ index.size + (n + 1) ≤ ops.length)
      (hstep : indexStep index op = some (index', answer)) :
      ∃ s', s.step cmp fuel op = some (s', answer) ∧ Files cmp s' index' ∧ index'.size + n ≤ ops.length := by
    obtain ⟨hfiles, hsize⟩ := hrel
    have hlog : Nat.log2 (index.size + 1) ≤ Nat.log2 (ops.length + 1) := by
      rw [Nat.log2_eq_log_two, Nat.log2_eq_log_two]
      exact Nat.log_mono_right (by omega)
    have hrounds : 2 * Nat.log2 (index.size + 1) < fuel := by omega
    obtain ⟨s', hs', hfiles', hsize'⟩ := hfiles.step hrounds hstep
    exact ⟨s', hs', hfiles', by omega⟩
  have hinit : Files cmp ⟨Memory.init, keys⟩ (SearchTree.empty : SearchTree cmp α) ∧
      (SearchTree.empty : SearchTree cmp α).size + ops.length ≤ ops.length :=
    ⟨files_init keys, Nat.le_of_eq (Nat.zero_add _)⟩
  obtain ⟨s, hs, hfiles, -⟩ := Machine.transcript_simulation
    (R := fun n s (index : SearchTree cmp α) => Files cmp s index ∧ index.size + n ≤ ops.length)
    hsimulates hinit hspec
  exact ⟨s, hs, hfiles⟩

/-- An object is filed, its key is taken for a second one, and free again once the first one is unlinked. -/
theorem transcript_refines_reuse : ∃ s index,
    Machine.transcript (Objects.step compare 5) ⟨(Memory.init : Memory ℕ), fun _ => (0 : ℕ)⟩
      [.add 7 0, .add 7 1, .add 3 1, .unlink 0, .add 7 2, .find 7] =
        some (s, [none, some 0, none, none, none, some 2]) ∧ Files compare s index := by
  obtain ⟨s, hs, hfiles⟩ := transcript_refines compare (fun _ : ℕ => (0 : ℕ))
    [.add 7 0, .add 7 1, .add 3 1, .unlink 0, .add 7 2, .find 7] 5 (by decide)
    [none, some 0, none, none, none, some 2] _ rfl
  exact ⟨s, _, hs, hfiles⟩

end

end DbusBroker.Rbtree
