import DbusBroker.Launch.NssRuns

/-!
# Teardown of the cache of users and groups

`nss_cache_deinit` walks the trees by name. A node that has no name is in the tree by number
only: it is not freed, and the tree is not empty in the end. Such a node is made for a number
that does not exist, and for nothing else.
-/

namespace DbusBroker

open Std

namespace Launch

/-- The trees while they are torn down, and the addresses of the nodes that were freed. -/
structure NssTeardown (π : Type) where
  trees : NssTrees π
  freed : List ℕ

section teardown

variable {π : Type}

/-- `nss_cache_node_free` of a node that was already taken out of the tree by name. -/
def nssCacheNodeFree (s : NssTeardown π) (a : ℕ) : NssTeardown π where
  trees := { s.trees with
    byId := ((s.trees.nodes.find? a).filter fun node => s.trees.byId.find? node.id == some a).elim s.trees.byId
      fun node => s.trees.byId.erase node.id
    nodes := s.trees.nodes.erase a }
  freed := s.freed ++ [a]

/-- The loop of `nss_cache_deinit` over the nodes of one kind of records, which are taken out of the tree by name. -/
def nssTreesDeinit (t : NssTrees π) : NssTeardown π :=
  t.byName.values.foldl nssCacheNodeFree ⟨{ t with byName := .empty }, []⟩

/-- The trees of one kind of records are empty in the end, and every node was freed exactly once. -/
structure NssTrees.TornDown (t : NssTrees π) : Prop where
  byName : (nssTreesDeinit t).trees.byName.entries = []
  byId : (nssTreesDeinit t).trees.byId.entries = []
  freed : (nssTreesDeinit t).freed.Perm t.nodes.keys

/-- A node is linked by number only. -/
def NssTrees.HasNameless (t : NssTrees π) : Prop := ∃ a node, t.nodes.find? a = some node ∧ t.linkedByName a = false

end teardown

/-- `nss_cache_deinit`. -/
def nssCacheDeinit (cache : NssCache) : NssTeardown Passwd × NssTeardown Group :=
  (nssTreesDeinit cache.users, nssTreesDeinit cache.groups)

/-- The assertions at the end of `nss_cache_deinit`. -/
def nssCacheDeinitAsserts (cache : NssCache) : Bool :=
  (nssCacheDeinit cache).1.trees.byName.entries.isEmpty && (nssCacheDeinit cache).1.trees.byId.entries.isEmpty &&
    (nssCacheDeinit cache).2.trees.byName.entries.isEmpty && (nssCacheDeinit cache).2.trees.byId.entries.isEmpty

/-- The assertions hold, and every node of users and of groups was freed exactly once. -/
structure NssCache.TornDown (cache : NssCache) : Prop where
  asserts : nssCacheDeinitAsserts cache = true
  users : (nssCacheDeinit cache).1.freed.Perm cache.users.nodes.keys
  groups : (nssCacheDeinit cache).2.freed.Perm cache.groups.nodes.keys

/-! ## Which nodes are freed -/

section free

variable {π : Type} {t : NssTrees π} {s : NssTeardown π} {a : ℕ}

/-- The tree by number refers to nodes with the right number. -/
def NssTeardown.Keyed (s : NssTeardown π) : Prop :=
  ∀ i a, s.trees.byId.find? i = some a → ∃ node, s.trees.nodes.find? a = some node ∧ node.id = i

/-- Freeing a node takes it out of the tree by number, and nothing else. -/
theorem nssCacheNodeFree_byId_find?_iff (h : s.Keyed) (a : ℕ) (i : UInt32) (b : ℕ) :
    (nssCacheNodeFree s a).trees.byId.find? i = some b ↔ s.trees.byId.find? i = some b ∧ b ≠ a := by
  rw [nssCacheNodeFree]
  dsimp only
  cases hlinked : (s.trees.nodes.find? a).filter fun node => s.trees.byId.find? node.id == some a with
  | none =>
    have hne : s.trees.byId.find? i = some b → b ≠ a := by
      intro hfind hba
      obtain ⟨node, hnode, hkey⟩ := h i b hfind
      rw [hba] at hnode hfind
      rw [hnode, Option.filter_some, hkey, hfind, if_pos (beq_self_eq_true _)] at hlinked
      cases hlinked
    exact (and_iff_left_of_imp hne).symm
  | some node =>
    rw [Option.filter_eq_some_iff, beq_iff_eq] at hlinked
    rw [Option.elim_some, SearchTree.find?_erase]
    by_cases hi : i = node.id
    · rw [if_pos hi, hi, hlinked.2]
      simp [eq_comm]
    · rw [if_neg hi]
      refine (and_iff_left_of_imp fun hfind hba => ?_).symm
      obtain ⟨node', hnode', hkey⟩ := h i b hfind
      rw [hba, hlinked.1] at hnode'
      exact hi (hkey ▸ congrArg NssCacheNode.id (Option.some.inj hnode').symm)

/-- The tree by number refers to nodes with the right number after a node was freed. -/
theorem NssTeardown.Keyed.free (h : s.Keyed) (a : ℕ) : (nssCacheNodeFree s a).Keyed := by
  intro i b hfind
  obtain ⟨hold, hne⟩ := (nssCacheNodeFree_byId_find?_iff h a i b).mp hfind
  obtain ⟨node, hnode, hkey⟩ := h i b hold
  exact ⟨node, (SearchTree.find?_erase_of_ne _ hne).trans hnode, hkey⟩

/-- What is freed is taken out of the tree by number; the tree by name is left alone. -/
theorem foldl_nssCacheNodeFree (h : s.Keyed) (as : List ℕ) :
    (as.foldl nssCacheNodeFree s).trees.byName = s.trees.byName ∧ (as.foldl nssCacheNodeFree s).freed = s.freed ++ as ∧
      ∀ i b, (as.foldl nssCacheNodeFree s).trees.byId.find? i = some b ↔ s.trees.byId.find? i = some b ∧ b ∉ as := by
  induction as generalizing s with
  | nil => exact ⟨rfl, (List.append_nil _).symm, fun i b => (and_iff_left List.not_mem_nil).symm⟩
  | cons a as ih =>
    obtain ⟨hbyName, hfreed, hbyId⟩ := ih (h.free a)
    rw [List.foldl_cons]
    refine ⟨hbyName, ?_, fun i b => ?_⟩
    · rw [hfreed, nssCacheNodeFree, List.append_assoc, List.singleton_append]
    · rw [hbyId, nssCacheNodeFree_byId_find?_iff h, List.mem_cons, not_or, and_assoc]

/-- The nodes in the tree by name are freed. -/
theorem NssTrees.Sound.deinit (h : t.Sound) :
    (nssTreesDeinit t).trees.byName.entries = [] ∧ (nssTreesDeinit t).freed = t.byName.values ∧
      ∀ i b, (nssTreesDeinit t).trees.byId.find? i = some b ↔ t.byId.find? i = some b ∧ b ∉ t.byName.values := by
  have hkeyed : NssTeardown.Keyed ⟨{ t with byName := .empty }, []⟩ := h.ids
  obtain ⟨hbyName, hfreed, hbyId⟩ := foldl_nssCacheNodeFree hkeyed t.byName.values
  exact ⟨congrArg SearchTree.entries hbyName, hfreed, hbyId⟩

/-- The tree by name has a node exactly if the node is linked in it. -/
theorem NssTrees.Sound.mem_values_iff (h : t.Sound) : a ∈ t.byName.values ↔ t.linkedByName a = true := by
  constructor
  · intro hmem
    obtain ⟨entry, hentry, rfl⟩ := List.mem_map.mp hmem
    exact h.linkedByName ((SearchTree.find?_eq_some_iff _ _ _).mpr hentry)
  · intro hlinked
    obtain ⟨node, -, hfind⟩ := (t.linkedByName_iff a).mp hlinked
    exact List.mem_map.mpr ⟨_, (SearchTree.find?_eq_some_iff _ _ _).mp hfind, rfl⟩

/-- No node is twice in the tree by name. -/
theorem NssTrees.Sound.nodup_values (h : t.Sound) : t.byName.values.Nodup := by
  apply List.Nodup.map_on ?_ t.byName.nodup_entries
  intro e he e' he' hsame
  obtain ⟨node, hnode, hkey⟩ := h.names _ _ ((SearchTree.find?_eq_some_iff _ e.1 e.2).mpr he)
  obtain ⟨node', hnode', hkey'⟩ := h.names _ _ ((SearchTree.find?_eq_some_iff _ e'.1 e'.2).mpr he')
  rw [← hsame, hnode] at hnode'
  rw [Option.some.inj hnode'] at hkey
  exact Prod.ext (hkey.symm.trans hkey') hsame

/-- The trees are torn down unless a node is linked by number only. -/
theorem NssTrees.Sound.tornDown_iff (h : t.Sound) : t.TornDown ↔ ¬t.HasNameless := by
  obtain ⟨hbyName, hfreed, hbyId⟩ := h.deinit
  constructor
  · intro htorn hnameless
    obtain ⟨a, node, hnode, hunlinked⟩ := hnameless
    have hmem := htorn.freed.mem_iff.mpr ((SearchTree.mem_keys_iff _ a).mpr ⟨node, hnode⟩)
    rw [hfreed, h.mem_values_iff, hunlinked] at hmem
    cases hmem
  · intro hnamed
    have hlinked {a : ℕ} {node : NssCacheNode π} (ha : t.nodes.find? a = some node) : t.linkedByName a = true := by
      by_contra hunlinked
      exact hnamed ⟨a, node, ha, Bool.eq_false_of_not_eq_true hunlinked⟩
    refine ⟨hbyName, ?_, ?_⟩
    · apply List.eq_nil_iff_forall_not_mem.mpr
      intro e he
      obtain ⟨hfind, hout⟩ := (hbyId e.1 e.2).mp ((SearchTree.find?_eq_some_iff _ e.1 e.2).mpr he)
      obtain ⟨node, hnode, -⟩ := h.ids e.1 e.2 hfind
      exact hout (h.mem_values_iff.mpr (hlinked hnode))
    · rw [hfreed]
      apply (List.perm_ext_iff_of_nodup h.nodup_values t.nodes.nodup_keys).mpr
      intro a
      rw [h.mem_values_iff, SearchTree.mem_keys_iff]
      constructor
      · intro hname
        obtain ⟨node, hnode, -⟩ := (t.linkedByName_iff a).mp hname
        exact ⟨node, hnode⟩
      · intro hkey
        obtain ⟨node, hnode⟩ := hkey
        exact hlinked hnode

end free

/-! ## Which nodes have no name -/

section nameless

variable {π ρ : Type} {kind : NssKind π ρ} {t t' : NssTrees π} {e : π} {name : Bytes} {a : ℕ}

/-- Replacing a record does not move a node. -/
theorem refilled_linkedByName {node : NssCacheNode π} (hnode : t.nodes.find? a = some node) (entry : Bytes → π) (b : ℕ) :
    (t.refilled a node entry).linkedByName b = t.linkedByName b := by
  have hbyName : (t.refilled a node entry).byName = t.byName := rfl
  rw [NssTrees.linkedByName, NssTrees.linkedByName, refilled_nodes_find?, hbyName]
  by_cases hba : b = a
  · rw [if_pos hba, hba, hnode, Option.any_some, Option.any_some]
  · rw [if_neg hba]

/-- A new node is linked by name if it has one. -/
theorem NssTrees.Sound.hasNameless_grown (h : t.Sound) {name : Option Bytes} (hname : t.nodeByName name = none)
    (id : UInt32) (entry : Bytes → π) : (t.grown name id entry).HasNameless ↔ t.HasNameless ∨ name = none := by
  have hold {b : ℕ} {node : NssCacheNode π} (hnode : t.nodes.find? b = some node) :
      (t.grown name id entry).nodes.find? b = some node ∧
        ((t.grown name id entry).linkedByName b = false ↔ t.linkedByName b = false) := by
    have hne := Nat.ne_of_lt (h.fresh b node hnode)
    have hnode' := (grown_nodes_find? t name id entry b).trans (if_neg hne)
    rw [hnode] at hnode'
    refine ⟨hnode', ?_⟩
    rw [← Bool.not_eq_true, ← Bool.not_eq_true, not_iff_not, NssTrees.linkedByName_iff, NssTrees.linkedByName_iff]
    simp only [hnode, hnode', Option.some.injEq, exists_eq_left', grown_byName_find?_eq_some_iff]
    constructor
    · intro hlinked
      exact (hlinked.resolve_left fun hnew => hne hnew.2).2
    · intro hlinked
      refine .inr ⟨fun hsame => ?_, hlinked⟩
      rw [hsame, NssTrees.nodeByName, Option.bind_some, hlinked] at hname
      cases hname
  have hnew : (t.grown name id entry).linkedByName t.next = false ↔ name = none := by
    rw [← Bool.not_eq_true, NssTrees.linkedByName_iff]
    simp only [grown_nodes_find?, if_true, Option.some.injEq, exists_eq_left', grown_byName_find?_eq_some_iff]
    cases name with
    | none =>
      refine iff_of_true (fun hlinked => ?_) rfl
      obtain ⟨hnone, -⟩ | ⟨-, hfind⟩ := hlinked
      · cases hnone
      · obtain ⟨node, hnode, -⟩ := h.names _ _ hfind
        exact Nat.lt_irrefl _ (h.fresh _ node hnode)
    | some n => exact iff_of_false (not_not_intro (.inl (by simp))) (Option.some_ne_none n)
  constructor
  · intro hnameless
    obtain ⟨b, node, hnode, hunlinked⟩ := hnameless
    by_cases hnext : b = t.next
    · rw [hnext] at hunlinked
      exact .inr (hnew.mp hunlinked)
    · rw [grown_nodes_find?, if_neg hnext] at hnode
      exact .inl ⟨b, node, hnode, (hold hnode).2.mp hunlinked⟩
  · intro hnameless
    obtain ⟨b, node, hnode, hunlinked⟩ | hnone := hnameless
    · exact ⟨b, node, (hold hnode).1, (hold hnode).2.mpr hunlinked⟩
    · exact ⟨t.next, _, (grown_nodes_find? t name id entry t.next).trans (if_pos rfl), hnew.mpr hnone⟩

/-- Only a record without a name and with a new number leaves a node without a name. -/
theorem NssTrees.Sound.hasNameless_store (h : t.Sound) (hstore : nssCacheStore kind t e = .ok t') :
    t'.HasNameless ↔ t.HasNameless ∨ kind.name e = none ∧ t.nodeById (kind.id e) = none := by
  have hstores := h.stores kind e
  rw [hstore] at hstores
  have hknown (hfound : (t.nodeByName (kind.name e)).isSome ∨ (t.nodeById (kind.id e)).isSome) :
      ¬(kind.name e = none ∧ t.nodeById (kind.id e) = none) := by
    intro hnone
    rw [hnone.1, hnone.2] at hfound
    exact hfound.elim (fun hsome => by cases hsome) fun hsome => by cases hsome
  cases hstores with
  | bypassed hfound => exact (or_iff_left (hknown hfound)).symm
  | @refilled a node hnode _ _ hfound =>
    rw [or_iff_left (hknown (hfound.imp Option.isSome_of_eq_some Option.isSome_of_eq_some))]
    simp only [NssTrees.HasNameless, refilled_linkedByName hnode, refilled_nodes_find?]
    constructor
    · intro hnameless
      obtain ⟨b, node', hnode', hunlinked⟩ := hnameless
      by_cases hba : b = a
      · rw [hba] at hunlinked
        exact ⟨a, node, hnode, hunlinked⟩
      · rw [if_neg hba] at hnode'
        exact ⟨b, node', hnode', hunlinked⟩
    · intro hnameless
      obtain ⟨b, node', hnode', hunlinked⟩ := hnameless
      by_cases hba : b = a
      · exact ⟨b, _, if_pos hba, hunlinked⟩
      · exact ⟨b, node', (if_neg hba).trans hnode', hunlinked⟩
  | grown hname hid _ => rw [h.hasNameless_grown hname, and_iff_left hid]

/-- Only the lookup of a number that nobody knows leaves a node without a name. -/
theorem NssTrees.Sound.get (h : t.Sound) (source : NssSource kind) (name : Bytes) :
    (nssCacheGet kind source t name).1.Sound ∧
      ((nssCacheGet kind source t name).1.HasNameless ↔ t.HasNameless ∨ source.Misses t name) := by
  have hmisses : source.Misses t name → t.found name = none := by
    intro hmiss
    obtain ⟨id, hid, -, hnone⟩ := hmiss
    rw [NssTrees.found, hid]
    exact hnone
  cases hfound : t.found name with
  | some a =>
    obtain ⟨node, e, hnode, he⟩ := h.exists_of_found hfound
    rw [nssCacheGet_of_found source hfound hnode he]
    refine ⟨h, (or_iff_left fun hmiss => ?_).symm⟩
    rw [hmisses hmiss] at hfound
    cases hfound
  | none =>
    obtain ⟨t', hstore, hget⟩ := h.get_of_found_none source hfound
    rw [hget, h.hasNameless_store hstore]
    refine ⟨h.store hstore, or_congr_right ?_⟩
    rw [NssTrees.found] at hfound
    rw [NssSource.stored, NssSource.Misses]
    cases hid : nssNumericId name with
    | some id =>
      rw [hid] at hfound
      dsimp only at hfound ⊢
      cases he : source.byId id with
      | some e =>
        have hnamed := Option.isSome_iff_ne_none.mp (source.named_byId id e he)
        refine iff_of_false (fun hnone => hnamed hnone.1) fun hmiss => ?_
        obtain ⟨id', hsame, hnone, -⟩ := hmiss
        rw [← Option.some.inj hsame, he] at hnone
        cases hnone
      | none =>
        rw [Option.getD_none, kind.name_missingId, kind.id_missingId, NssTrees.nodeById, if_neg (nssNumericId_ne hid)]
        exact iff_of_true ⟨rfl, hfound⟩ ⟨id, rfl, he, hfound⟩
    | none =>
      have hnamed : kind.name ((source.byName name).getD (kind.missingName name)) ≠ none := by
        cases he : source.byName name with
        | some e => exact Option.isSome_iff_ne_none.mp (source.named_byName name e he)
        | none =>
          rw [Option.getD_none, kind.name_missingName]
          exact Option.some_ne_none name
      exact iff_of_false (fun hnone => hnamed hnone.1) (by simp)

end nameless

/-! ## Runs -/

section runs

variable {cache : NssCache}

/-- Both pairs of trees are sound. -/
structure NssCache.Sound (cache : NssCache) : Prop where
  users : cache.users.Sound
  groups : cache.groups.Sound

/-- A node of a user or of a group is linked by number only. -/
def NssCache.HasNameless (cache : NssCache) : Prop := cache.users.HasNameless ∨ cache.groups.HasNameless

/-- A number is asked for that neither the cache nor the database has. -/
def NssDatabase.Misses (database : NssDatabase) (cache : NssCache) : NssOp → Prop
  | .populate _ _ => False
  | .getUid name => database.users.Misses cache.users name
  | .getGid name => database.groups.Misses cache.groups name

/-- Populating the cache leaves no node without a name. -/
theorem NssCache.Sound.populate (h : cache.Sound) (database : NssDatabase) (passwd : List (NssRecord passwdKind))
    (group : List (NssRecord groupKind)) :
    (nssStep database cache (.populate passwd group)).Sound ∧
      ((nssStep database cache (.populate passwd group)).HasNameless ↔ cache.HasNameless) := by
  have hstore {π ρ : Type} (kind : NssKind π ρ) (p : Prop) (t t' : NssTrees π) (e : π)
      (ht : t.Sound ∧ (t.HasNameless ↔ p)) (he : (kind.name e).isSome) (hstore : nssCacheStore kind t e = .ok t') :
      t'.Sound ∧ (t'.HasNameless ↔ p) := by
    have hnamed : ¬(kind.name e = none ∧ t.nodeById (kind.id e) = none) := fun hnone =>
      Option.isSome_iff_ne_none.mp he hnone.1
    exact ⟨ht.1.store hstore, (ht.1.hasNameless_store hstore).trans ((or_iff_left hnamed).trans ht.2)⟩
  obtain ⟨husers, hgroups⟩ := nssCachePopulate_invariant
    (hstore passwdKind cache.users.HasNameless) (hstore groupKind cache.groups.HasNameless)
    ⟨⟨h.users, Iff.rfl⟩, h.groups, Iff.rfl⟩
    ⟨rfl, List.forall_mem_map.mpr fun (e : NssRecord passwdKind) _ => e.property⟩
    ⟨rfl, List.forall_mem_map.mpr fun (e : NssRecord groupKind) _ => e.property⟩
  exact ⟨⟨husers.1, hgroups.1⟩, or_congr husers.2 hgroups.2⟩

/-- Only a number that nobody knows leaves a node without a name. -/
theorem NssCache.Sound.step (h : cache.Sound) (database : NssDatabase) (op : NssOp) :
    (nssStep database cache op).Sound ∧
      ((nssStep database cache op).HasNameless ↔ cache.HasNameless ∨ database.Misses cache op) := by
  cases op with
  | populate passwd group =>
    obtain ⟨hsound, hnameless⟩ := h.populate database passwd group
    exact ⟨hsound, hnameless.trans (or_iff_left id).symm⟩
  | getUid name =>
    obtain ⟨hsound, hnameless⟩ := h.users.get database.users name
    exact ⟨⟨hsound, h.groups⟩, (or_congr_left hnameless).trans or_right_comm⟩
  | getGid name =>
    obtain ⟨hsound, hnameless⟩ := h.groups.get database.groups name
    exact ⟨⟨h.users, hsound⟩, (or_congr_right hnameless).trans or_assoc.symm⟩

/-- A cache is torn down unless a node is linked by number only. -/
theorem NssCache.Sound.tornDown_iff (h : cache.Sound) : cache.TornDown ↔ ¬cache.HasNameless := by
  rw [NssCache.HasNameless, not_or, ← h.users.tornDown_iff, ← h.groups.tornDown_iff]
  constructor
  · intro htorn
    have hasserts := htorn.asserts
    rw [nssCacheDeinitAsserts] at hasserts
    simp only [Bool.and_eq_true, List.isEmpty_iff] at hasserts
    exact ⟨⟨hasserts.1.1.1, hasserts.1.1.2, htorn.users⟩, hasserts.1.2, hasserts.2, htorn.groups⟩
  · intro htorn
    refine ⟨?_, htorn.1.freed, htorn.2.freed⟩
    rw [nssCacheDeinitAsserts]
    simp only [Bool.and_eq_true, List.isEmpty_iff]
    exact ⟨⟨⟨htorn.1.byName, htorn.1.byId⟩, htorn.2.byName⟩, htorn.2.byId⟩

/-- A node is linked by number only exactly if the run asked for a number that nobody knew. -/
theorem NssCache.Sound.run (h : cache.Sound) (database : NssDatabase) (ops : List NssOp) :
    (Machine.run (nssStep database) cache ops).Sound ∧
      (¬(Machine.run (nssStep database) cache ops).HasNameless ↔
        ¬cache.HasNameless ∧ Machine.Along (nssStep database) (fun cache op => ¬database.Misses cache op) cache ops) := by
  induction ops generalizing cache with
  | nil => exact ⟨h, (and_iff_left trivial).symm⟩
  | cons op ops ih =>
    obtain ⟨hsound, hnameless⟩ := h.step database op
    obtain ⟨hrun, hruns⟩ := ih hsound
    refine ⟨hrun, hruns.trans ?_⟩
    rw [hnameless, not_or, and_assoc]
    rfl

/-- The cache is torn down after a run exactly if no number was asked for that neither the cache nor the database had. -/
theorem nssCacheDeinit_tornDown_iff (database : NssDatabase) (ops : List NssOp) :
    (nssRun database ops).TornDown ↔
      Machine.Along (nssStep database) (fun cache op => ¬database.Misses cache op) nssCacheInit ops := by
  have hinit : nssCacheInit.Sound := ⟨NssTrees.sound_init, NssTrees.sound_init⟩
  have hempty : ¬nssCacheInit.HasNameless := by
    intro hnameless
    obtain ⟨a, node, hnode, -⟩ | ⟨a, node, hnode, -⟩ := hnameless
    · cases hnode
    · cases hnode
  obtain ⟨hsound, hnameless⟩ := hinit.run database ops
  exact hsound.tornDown_iff.trans (hnameless.trans (and_iff_right hempty))

/-- A user that does not exist is asked for by its number. -/
theorem nssCacheDeinit_not_tornDown :
    nssCacheDeinitAsserts (nssRun nssEmptyDatabase [.getUid (lit "5")]) = false ∧
      (nssCacheDeinit (nssRun nssEmptyDatabase [.getUid (lit "5")])).1.freed = [] ∧
      ¬(nssRun nssEmptyDatabase [.getUid (lit "5")]).TornDown := by
  have hasserts : nssCacheDeinitAsserts (nssRun nssEmptyDatabase [.getUid (lit "5")]) = false := rfl
  refine ⟨hasserts, by decide, fun htorn => ?_⟩
  have hholds := htorn.asserts
  rw [hasserts] at hholds
  cases hholds

end runs

end Launch

end DbusBroker
