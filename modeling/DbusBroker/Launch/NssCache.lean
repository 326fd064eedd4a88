import DbusBroker.Dbus.Address
import DbusBroker.Lib.Run
import DbusBroker.Lib.SearchTree
import Mathlib.Data.Nat.Notation

/-!
# The cache of users and groups

`launch/nss-cache.c`. Users and groups are looked up by name or by number, and what the system
answers is kept in a tree by name and a tree by number, also when there is no such user or group.
The two kinds of lookups are the same but for the record they keep, so they are one definition
with the record as a parameter. Nodes are objects with an address, since both trees refer to
them; a node is linked in a tree if the tree has its address under its own key.
-/

namespace DbusBroker

open Std

namespace Launch

/-- `(uint32_t)-1`, which is no id. -/
def nssInvalidId : UInt32 := 0xffffffff

/-- What the functions of the cache return instead of a result. -/
inductive NssError where
  | invalidName
  | invalidArgument
  deriving DecidableEq, Repr

/-- The fields of `struct passwd` that are kept. -/
structure Passwd where
  pwName : Option Bytes
  pwUid : UInt32
  pwGid : UInt32
  deriving DecidableEq, Repr

/-- The fields of `struct group` that are kept. -/
structure Group where
  grName : Option Bytes
  grGid : UInt32
  deriving DecidableEq, Repr

/-- A kind of records: its name and number, what a lookup returns of it, the record that a node keeps under its own
name, and the records that stand for a number and a name that do not exist. -/
structure NssKind (π ρ : Type) where
  name : π → Option Bytes
  id : π → UInt32
  result : π → ρ
  keep : π → Bytes → π
  missingId : UInt32 → π
  missingName : Bytes → π
  name_keep : ∀ e n, name (keep e n) = some n
  id_keep : ∀ e n, id (keep e n) = id e
  result_keep : ∀ e n, result (keep e n) = result e
  name_missingId : ∀ i, name (missingId i) = none
  id_missingId : ∀ i, id (missingId i) = i
  name_missingName : ∀ n, name (missingName n) = some n
  id_missingName : ∀ n, id (missingName n) = nssInvalidId

/-- Users. -/
def passwdKind : NssKind Passwd (UInt32 × UInt32) where
  name := Passwd.pwName
  id := Passwd.pwUid
  result pw := (pw.pwUid, pw.pwGid)
  keep pw name := ⟨some name, pw.pwUid, pw.pwGid⟩
  missingId id := ⟨none, id, nssInvalidId⟩
  missingName name := ⟨some name, nssInvalidId, nssInvalidId⟩
  name_keep _ _ := rfl
  id_keep _ _ := rfl
  result_keep _ _ := rfl
  name_missingId _ := rfl
  id_missingId _ := rfl
  name_missingName _ := rfl
  id_missingName _ := rfl

/-- Groups. -/
def groupKind : NssKind Group UInt32 where
  name := Group.grName
  id := Group.grGid
  result gr := gr.grGid
  keep gr name := ⟨some name, gr.grGid⟩
  missingId id := ⟨none, id⟩
  missingName name := ⟨some name, nssInvalidId⟩
  name_keep _ _ := rfl
  id_keep _ _ := rfl
  result_keep _ _ := rfl
  name_missingId _ := rfl
  id_missingId _ := rfl
  name_missingName _ := rfl
  id_missingName _ := rfl

/-- What the system knows of one kind of records: `getpwnam` and `getpwuid`, or `getgrnam` and `getgrgid`. Every
record that exists has a name. -/
structure NssSource {π ρ : Type} (kind : NssKind π ρ) where
  byName : Bytes → Option π
  byId : UInt32 → Option π
  named_byName : ∀ n e, byName n = some e → (kind.name e).isSome
  named_byId : ∀ i e, byId i = some e → (kind.name e).isSome

/-- The user and group databases of the system. -/
structure NssDatabase where
  users : NssSource passwdKind
  groups : NssSource groupKind

/-- `NSSCacheNode`, with the record in its union once it is filled in. -/
structure NssCacheNode (π : Type) where
  id : UInt32
  name : Bytes
  entry : Option π

/-- The two trees of one kind of records, with the nodes at their addresses. -/
structure NssTrees (π : Type) where
  byName : SearchTree strcmp ℕ
  byId : SearchTree (compare : UInt32 → UInt32 → Ordering) ℕ
  nodes : SearchTree (compare : ℕ → ℕ → Ordering) (NssCacheNode π)
  next : ℕ

/-- `NSSCache`. -/
structure NssCache where
  users : NssTrees Passwd
  groups : NssTrees Group

namespace NssTrees

variable {π : Type}

/-- Two empty trees. -/
def init : NssTrees π := ⟨.empty, .empty, .empty, 0⟩

/-- The node at an address is linked in the tree by name. -/
def linkedByName (t : NssTrees π) (a : ℕ) : Bool :=
  (t.nodes.find? a).any fun node => t.byName.find? node.name == some a

/-- The node at an address is linked in the tree by number. -/
def linkedById (t : NssTrees π) (a : ℕ) : Bool :=
  (t.nodes.find? a).any fun node => t.byId.find? node.id == some a

/-- The entry that goes by a name already. -/
def nodeByName (t : NssTrees π) (name : Option Bytes) : Option ℕ := name.bind t.byName.find?

/-- The entry that goes by a number already. -/
def nodeById (t : NssTrees π) (id : UInt32) : Option ℕ := if id = nssInvalidId then none else t.byId.find? id

/-- `nss_cache_node_new`, and the links of the new node. -/
def addNode (t : NssTrees π) (name : Option Bytes) (id : UInt32) : NssTrees π where
  byName := name.elim t.byName fun n => t.byName.insert n t.next
  byId := if id = nssInvalidId then t.byId else t.byId.insert id t.next
  nodes := t.nodes.insert t.next ⟨id, name.getD [], none⟩
  next := t.next + 1

/-- Fill in the record of a node, which goes by the name of the node. -/
def fill (t : NssTrees π) (a : ℕ) (entry : Bytes → π) : NssTrees π :=
  match t.nodes.find? a with
  | some node => { t with nodes := t.nodes.insert a { node with entry := some (entry node.name) } }
  | none => t

end NssTrees

/-- `NSS_CACHE_INIT`. -/
def nssCacheInit : NssCache := ⟨.init, .init⟩

/-- `nss_cache_add`: the address of the node to fill in, unless the name and the number belong to different nodes. -/
def nssCacheAdd {π : Type} (t : NssTrees π) (name : Option Bytes) (id : UInt32) :
    Except NssError (NssTrees π × Option ℕ) :=
  if name.isNone && id == nssInvalidId then .error .invalidArgument
  else
    let nodeByName := t.nodeByName name
    let nodeById := t.nodeById id
    if nodeByName != nodeById && (nodeByName.isSome && nodeById.isSome || nodeById.any t.linkedByName ||
        nodeByName.any t.linkedById) then
      .ok (t, none)
    else
      match nodeById.or nodeByName with
      | some node => .ok (t, some node)
      | none => .ok (t.addNode name id, some t.next)

section kinds

variable {π ρ : Type} (kind : NssKind π ρ)

/-- `nss_cache_add_user` and `nss_cache_add_group`. -/
def nssCacheStore (t : NssTrees π) (e : π) : Except NssError (NssTrees π) :=
  match nssCacheAdd t (kind.name e) (kind.id e) with
  | .error error => .error error
  | .ok (t, none) => .ok t
  | .ok (t, some node) => .ok (t.fill node (kind.keep e))

/-- `nss_cache_populate_users` and `nss_cache_populate_groups`, with the records of the file. -/
def nssCacheStoreAll : NssTrees π → List π → NssTrees π × Except NssError Unit
  | t, [] => (t, .ok ())
  | t, e :: es =>
    match nssCacheStore kind t e with
    | .error error => (t, .error error)
    | .ok t => nssCacheStoreAll t es

end kinds

/-- A name that is a number: what `strtoull` makes of it, if that is all of it and below `UINT32_MAX`. -/
def nssNumericId (name : Bytes) : Option UInt32 :=
  let r := strtoull name
  if r.rest.length != name.length && r.rest.isEmpty && !r.range && r.value < 2 ^ 32 - 1 then some (UInt32.ofNat r.value)
  else none

section lookups

variable {π ρ : Type} (kind : NssKind π ρ) (source : NssSource kind)

/-- The answer to a record that is in the cache. -/
def nssCacheAnswer (byNumber : Bool) (e : π) : Except NssError ρ :=
  if byNumber && (kind.name e).isNone then .error .invalidName
  else if kind.id e = nssInvalidId then .error .invalidName
  else .ok (kind.result e)

/-- The end of `nss_cache_get_uid` and `nss_cache_get_gid` when the cache has no entry: what the system answered is
stored, or that there is nothing. -/
def nssCacheMiss (t : NssTrees π) (found : Option π) (missing : π) : NssTrees π × Except NssError ρ :=
  match found with
  | some e =>
    match nssCacheStore kind t e with
    | .error error => (t, .error error)
    | .ok t => (t, .ok (kind.result e))
  | none =>
    match nssCacheStore kind t missing with
    | .error error => (t, .error error)
    | .ok t => (t, .error .invalidName)

/-- `nss_cache_get_uid` and `nss_cache_get_gid`. -/
def nssCacheGet (t : NssTrees π) (name : Bytes) : NssTrees π × Except NssError ρ :=
  match nssNumericId name with
  | some id =>
    match (t.byId.find? id).bind t.nodes.find? with
    | some node => (t, (node.entry.map (nssCacheAnswer kind true)).getD (.error .invalidName))
    | none => nssCacheMiss kind t (source.byId id) (kind.missingId id)
  | none =>
    match (t.byName.find? name).bind t.nodes.find? with
    | some node => (t, (node.entry.map (nssCacheAnswer kind false)).getD (.error .invalidName))
    | none => nssCacheMiss kind t (source.byName name) (kind.missingName name)

/-- A lookup without a cache. -/
def nssDirect (name : Bytes) : Except NssError ρ :=
  match nssNumericId name with
  | some id => (source.byId id).elim (.error .invalidName) fun e => .ok (kind.result e)
  | none => (source.byName name).elim (.error .invalidName) fun e => .ok (kind.result e)

end lookups

/-- `nss_cache_add_user`. -/
def nssCacheAddUser (cache : NssCache) (pw : Passwd) : Except NssError NssCache :=
  (nssCacheStore passwdKind cache.users pw).map fun users => { cache with users }

/-- `nss_cache_add_group`. -/
def nssCacheAddGroup (cache : NssCache) (gr : Group) : Except NssError NssCache :=
  (nssCacheStore groupKind cache.groups gr).map fun groups => { cache with groups }

/-- `nss_cache_populate_users`, with the records of `/etc/passwd`. -/
def nssCachePopulateUsers (cache : NssCache) (passwd : List Passwd) : NssCache × Except NssError Unit :=
  let (users, r) := nssCacheStoreAll passwdKind cache.users passwd
  ({ cache with users }, r)

/-- `nss_cache_populate_groups`, with the records of `/etc/group`. -/
def nssCachePopulateGroups (cache : NssCache) (group : List Group) : NssCache × Except NssError Unit :=
  let (groups, r) := nssCacheStoreAll groupKind cache.groups group
  ({ cache with groups }, r)

/-- The user that is always there. -/
def nssRootUser : Passwd := ⟨some (lit "root"), 0, 0⟩

/-- The group that is always there. -/
def nssRootGroup : Group := ⟨some (lit "root"), 0⟩

/-- `nss_cache_populate`. -/
def nssCachePopulate (cache : NssCache) (passwd : List Passwd) (group : List Group) : NssCache × Except NssError Unit :=
  match nssCacheAddUser cache nssRootUser with
  | .error error => (cache, .error error)
  | .ok cache =>
    match nssCacheAddGroup cache nssRootGroup with
    | .error error => (cache, .error error)
    | .ok cache =>
      match nssCachePopulateUsers cache passwd with
      | (cache, .error error) => (cache, .error error)
      | (cache, .ok ()) => nssCachePopulateGroups cache group

/-- `nss_cache_get_uid`. -/
def nssCacheGetUid (database : NssDatabase) (cache : NssCache) (name : Bytes) :
    NssCache × Except NssError (UInt32 × UInt32) :=
  let (users, r) := nssCacheGet passwdKind database.users cache.users name
  ({ cache with users }, r)

/-- `nss_cache_get_gid`. -/
def nssCacheGetGid (database : NssDatabase) (cache : NssCache) (name : Bytes) : NssCache × Except NssError UInt32 :=
  let (groups, r) := nssCacheGet groupKind database.groups cache.groups name
  ({ cache with groups }, r)

/-! ## What a cache looks like -/

section sound

variable {π ρ : Type} {kind : NssKind π ρ} {t t' : NssTrees π} {name : Option Bytes} {id : UInt32} {a : ℕ} {e : π}

/-- The trees refer to nodes with the right keys, every node is filled in and linked, and new addresses are free. -/
structure NssTrees.Sound (t : NssTrees π) : Prop where
  names : ∀ n a, t.byName.find? n = some a → ∃ node, t.nodes.find? a = some node ∧ node.name = n
  ids : ∀ i a, t.byId.find? i = some a → ∃ node, t.nodes.find? a = some node ∧ node.id = i
  valid : ∀ i a, t.byId.find? i = some a → i ≠ nssInvalidId
  linked : ∀ a node, t.nodes.find? a = some node → t.byName.find? node.name = some a ∨ t.byId.find? node.id = some a
  filled : ∀ a node, t.nodes.find? a = some node → node.entry.isSome
  fresh : ∀ a node, t.nodes.find? a = some node → a < t.next

/-- Empty trees. -/
theorem NssTrees.sound_init : (NssTrees.init : NssTrees π).Sound where
  names n a h := by cases h
  ids i a h := by cases h
  valid i a h := by cases h
  linked a node h := by cases h
  filled a node h := by cases h
  fresh a node h := by cases h

/-- The trees with one more node, which is filled in. -/
def NssTrees.grown (t : NssTrees π) (name : Option Bytes) (id : UInt32) (entry : Bytes → π) : NssTrees π :=
  { t.addNode name id with nodes := t.nodes.insert t.next ⟨id, name.getD [], some (entry (name.getD []))⟩ }

/-- The trees with another record in one node. -/
def NssTrees.refilled (t : NssTrees π) (a : ℕ) (node : NssCacheNode π) (entry : Bytes → π) : NssTrees π :=
  { t with nodes := t.nodes.insert a { node with entry := some (entry node.name) } }

/-- What storing a record does. -/
inductive Stores (kind : NssKind π ρ) (t : NssTrees π) (e : π) : Except NssError (NssTrees π) → Prop
  | refused (hname : kind.name e = none) (hid : kind.id e = nssInvalidId) : Stores kind t e (.error .invalidArgument)
  | bypassed (hfound : (t.nodeByName (kind.name e)).isSome ∨ (t.nodeById (kind.id e)).isSome) : Stores kind t e (.ok t)
  | refilled {a : ℕ} {node : NssCacheNode π} (hnode : t.nodes.find? a = some node)
      (hname : t.nodeByName (kind.name e) = some a ∨ t.nodeByName (kind.name e) = none ∧ t.linkedByName a = false)
      (hid : t.nodeById (kind.id e) = some a ∨ t.nodeById (kind.id e) = none ∧ t.linkedById a = false)
      (hfound : t.nodeByName (kind.name e) = some a ∨ t.nodeById (kind.id e) = some a) :
      Stores kind t e (.ok (t.refilled a node (kind.keep e)))
  | grown (hname : t.nodeByName (kind.name e) = none) (hid : t.nodeById (kind.id e) = none)
      (hkey : kind.name e ≠ none ∨ kind.id e ≠ nssInvalidId) :
      Stores kind t e (.ok (t.grown (kind.name e) (kind.id e) (kind.keep e)))

/-- The node that goes by a name. -/
theorem NssTrees.Sound.node_of_name (h : t.Sound) (ha : t.nodeByName name = some a) :
    ∃ node, t.nodes.find? a = some node ∧ name = some node.name := by
  obtain ⟨n, hn, hfind⟩ := Option.bind_eq_some_iff.mp ha
  obtain ⟨node, hnode, hkey⟩ := h.names n a hfind
  exact ⟨node, hnode, by rw [hn, hkey]⟩

/-- The node that goes by a number. -/
theorem NssTrees.Sound.node_of_id (h : t.Sound) (ha : t.nodeById id = some a) :
    ∃ node, t.nodes.find? a = some node ∧ node.id = id ∧ id ≠ nssInvalidId := by
  rw [NssTrees.nodeById] at ha
  by_cases hinvalid : id = nssInvalidId
  · rw [if_pos hinvalid] at ha
    cases ha
  · rw [if_neg hinvalid] at ha
    obtain ⟨node, hnode, hkey⟩ := h.ids id a ha
    exact ⟨node, hnode, hkey, hinvalid⟩

/-- A node is linked in the tree by name if the tree has it under its name. -/
theorem NssTrees.linkedByName_iff (t : NssTrees π) (a : ℕ) :
    t.linkedByName a = true ↔ ∃ node, t.nodes.find? a = some node ∧ t.byName.find? node.name = some a := by
  rw [NssTrees.linkedByName, Option.any_eq_true]
  simp only [Bool.beq_eq_decide_eq, decide_eq_true_eq]

/-- A node that the tree by name has is linked in it. -/
theorem NssTrees.Sound.linkedByName (h : t.Sound) {n : Bytes} (ha : t.byName.find? n = some a) :
    t.linkedByName a = true := by
  obtain ⟨node, hnode, hkey⟩ := h.names n a ha
  exact (t.linkedByName_iff a).mpr ⟨node, hnode, hkey ▸ ha⟩

/-- A node that the tree by number has is linked in it. -/
theorem NssTrees.Sound.linkedById (h : t.Sound) {i : UInt32} (ha : t.byId.find? i = some a) :
    t.linkedById a = true := by
  obtain ⟨node, hnode, hkey⟩ := h.ids i a ha
  rw [NssTrees.linkedById, hnode, Option.any_some, hkey]
  exact beq_iff_eq.mpr ha

/-- A node that is found is filled in. -/
theorem fill_of_find? (t : NssTrees π) {node : NssCacheNode π} (hnode : t.nodes.find? a = some node)
    (entry : Bytes → π) : t.fill a entry = t.refilled a node entry := by
  rw [NssTrees.fill, hnode]
  rfl

/-- The new node is filled in. -/
theorem fill_addNode (t : NssTrees π) (name : Option Bytes) (id : UInt32) (entry : Bytes → π) :
    (t.addNode name id).fill t.next entry = t.grown name id entry := by
  have hnode : (t.addNode name id).nodes.find? t.next = some ⟨id, name.getD [], none⟩ :=
    SearchTree.find?_insert_self _ _ _
  rw [fill_of_find? _ hnode, NssTrees.refilled, NssTrees.grown]
  have hinsert : (t.addNode name id).nodes = t.nodes.insert t.next ⟨id, name.getD [], none⟩ := rfl
  rw [hinsert, SearchTree.insert_insert]

/-- Storing a record does one of these. -/
theorem NssTrees.Sound.stores (h : t.Sound) (kind : NssKind π ρ) (e : π) : Stores kind t e (nssCacheStore kind t e) := by
  rw [nssCacheStore, nssCacheAdd]
  by_cases hkeys : (kind.name e).isNone && kind.id e == nssInvalidId
  · rw [if_pos hkeys]
    rw [Bool.and_eq_true, Option.isNone_iff_eq_none, beq_iff_eq] at hkeys
    exact .refused hkeys.1 hkeys.2
  · rw [if_neg hkeys]
    have hkey : kind.name e ≠ none ∨ kind.id e ≠ nssInvalidId := by
      rw [Bool.and_eq_true, Option.isNone_iff_eq_none, beq_iff_eq] at hkeys
      by_contra hnone
      rw [not_or, not_not, not_not] at hnone
      exact hkeys hnone
    cases hname : t.nodeByName (kind.name e) with
    | none =>
      cases hid : t.nodeById (kind.id e) with
      | none =>
        have hgrown := @Stores.grown π ρ kind t e hname hid hkey
        rw [← fill_addNode] at hgrown
        exact hgrown
      | some a =>
        obtain ⟨node, hnode, -⟩ := h.node_of_id hid
        cases hlinked : t.linkedByName a with
        | true =>
          have hbypassed := @Stores.bypassed π ρ kind t e (.inr (Option.isSome_of_eq_some hid))
          simpa [hlinked] using hbypassed
        | false =>
          have hrefilled := @Stores.refilled π ρ kind t e _ node hnode (.inr ⟨hname, hlinked⟩) (.inl hid) (.inr hid)
          rw [← fill_of_find? t hnode] at hrefilled
          simpa [hlinked] using hrefilled
    | some b =>
      obtain ⟨node, hnode, -⟩ := h.node_of_name hname
      cases hid : t.nodeById (kind.id e) with
      | none =>
        cases hlinked : t.linkedById b with
        | true =>
          have hbypassed := @Stores.bypassed π ρ kind t e (.inl (Option.isSome_of_eq_some hname))
          simpa [hlinked] using hbypassed
        | false =>
          have hrefilled := @Stores.refilled π ρ kind t e _ node hnode (.inl hname) (.inr ⟨hid, hlinked⟩) (.inl hname)
          rw [← fill_of_find? t hnode] at hrefilled
          simpa [hlinked] using hrefilled
      | some a =>
        by_cases hsame : b = a
        · subst hsame
          have hrefilled := @Stores.refilled π ρ kind t e _ node hnode (.inl hname) (.inl hid) (.inl hname)
          rw [← fill_of_find? t hnode] at hrefilled
          simpa using hrefilled
        · have hbypassed := @Stores.bypassed π ρ kind t e (.inr (Option.isSome_of_eq_some hid))
          simpa [hsame] using hbypassed

/-- The nodes after a record was replaced. -/
theorem refilled_nodes_find? (t : NssTrees π) (a : ℕ) (node : NssCacheNode π) (entry : Bytes → π) (b : ℕ) :
    (t.refilled a node entry).nodes.find? b =
      if b = a then some { node with entry := some (entry node.name) } else t.nodes.find? b :=
  SearchTree.find?_insert _ _ _ _

/-- The nodes after one was added. -/
theorem grown_nodes_find? (t : NssTrees π) (name : Option Bytes) (id : UInt32) (entry : Bytes → π) (b : ℕ) :
    (t.grown name id entry).nodes.find? b =
      if b = t.next then some ⟨id, name.getD [], some (entry (name.getD []))⟩ else t.nodes.find? b :=
  SearchTree.find?_insert _ _ _ _

/-- A new node goes by its name, if it has one. -/
theorem grown_byName_find?_eq_some_iff (t : NssTrees π) (name : Option Bytes) (id : UInt32) (entry : Bytes → π)
    (n : Bytes) (b : ℕ) :
    (t.grown name id entry).byName.find? n = some b ↔
      name = some n ∧ b = t.next ∨ name ≠ some n ∧ t.byName.find? n = some b := by
  cases name with
  | none => simp [NssTrees.grown, NssTrees.addNode]
  | some m =>
    have hinsert : (t.grown (some m) id entry).byName = t.byName.insert m t.next := rfl
    rw [hinsert, SearchTree.find?_insert]
    by_cases hn : n = m
    · simp [hn, eq_comm]
    · simp [hn, Ne.symm hn]

/-- A new node goes by its number, if it is one. -/
theorem grown_byId_find?_eq_some_iff (t : NssTrees π) (name : Option Bytes) (id : UInt32) (entry : Bytes → π)
    (i : UInt32) (b : ℕ) :
    (t.grown name id entry).byId.find? i = some b ↔
      (id ≠ nssInvalidId ∧ i = id) ∧ b = t.next ∨ ¬(id ≠ nssInvalidId ∧ i = id) ∧ t.byId.find? i = some b := by
  by_cases hid : id = nssInvalidId
  · simp [NssTrees.grown, NssTrees.addNode, hid]
  · have hinsert : (t.grown name id entry).byId = t.byId.insert id t.next := if_neg hid
    rw [hinsert, SearchTree.find?_insert]
    by_cases hi : i = id
    · simp [hi, hid, eq_comm]
    · simp [hi, hid]

/-- The cache stays sound when a record is replaced. -/
theorem NssTrees.Sound.refilled (h : t.Sound) {node : NssCacheNode π} (hnode : t.nodes.find? a = some node)
    (entry : Bytes → π) : (t.refilled a node entry).Sound := by
  have hkeys {b : ℕ} {old : NssCacheNode π} (hb : t.nodes.find? b = some old) :
      ∃ new, (t.refilled a node entry).nodes.find? b = some new ∧ new.name = old.name ∧ new.id = old.id := by
    rw [refilled_nodes_find?]
    by_cases hba : b = a
    · rw [if_pos hba]
      rw [hba, hnode] at hb
      cases hb
      exact ⟨_, rfl, rfl, rfl⟩
    · exact ⟨old, (if_neg hba).trans hb, rfl, rfl⟩
  have hback {b : ℕ} {new : NssCacheNode π} (hb : (t.refilled a node entry).nodes.find? b = some new) :
      new.entry.isSome ∧ ∃ old, t.nodes.find? b = some old ∧ new.name = old.name ∧ new.id = old.id := by
    rw [refilled_nodes_find?] at hb
    by_cases hba : b = a
    · rw [if_pos hba] at hb
      cases hb
      exact ⟨rfl, node, hba ▸ hnode, rfl, rfl⟩
    · rw [if_neg hba] at hb
      exact ⟨h.filled b new hb, new, hb, rfl, rfl⟩
  exact {
    names := fun n b hb => by
      obtain ⟨old, hold, hname⟩ := h.names n b hb
      obtain ⟨new, hnew, hsame, -⟩ := hkeys hold
      exact ⟨new, hnew, hsame.trans hname⟩
    ids := fun i b hb => by
      obtain ⟨old, hold, hid⟩ := h.ids i b hb
      obtain ⟨new, hnew, -, hsame⟩ := hkeys hold
      exact ⟨new, hnew, hsame.trans hid⟩
    valid := h.valid
    linked := fun b new hb => by
      obtain ⟨-, old, hold, hname, hid⟩ := hback hb
      rw [hname, hid]
      exact h.linked b old hold
    filled := fun b new hb => (hback hb).1
    fresh := fun b new hb => by
      obtain ⟨-, old, hold, -⟩ := hback hb
      exact h.fresh b old hold }

/-- The cache stays sound when a record is added under new keys. -/
theorem NssTrees.Sound.grown (h : t.Sound) (hkey : name ≠ none ∨ id ≠ nssInvalidId) (entry : Bytes → π)
    (hname : t.nodeByName name = none) (hid : t.nodeById id = none) : (t.grown name id entry).Sound := by
  have hold {b : ℕ} {node : NssCacheNode π} (hb : t.nodes.find? b = some node) :
      (t.grown name id entry).nodes.find? b = some node := by
    rw [grown_nodes_find?, if_neg (Nat.ne_of_lt (h.fresh b node hb)), hb]
  have hnew : (t.grown name id entry).nodes.find? t.next = some ⟨id, name.getD [], some (entry (name.getD []))⟩ := by
    rw [grown_nodes_find?, if_pos rfl]
  exact {
    names := fun n b hb => by
      obtain ⟨rfl, rfl⟩ | ⟨-, hb⟩ := (grown_byName_find?_eq_some_iff t name id entry n b).mp hb
      · exact ⟨_, hnew, rfl⟩
      · obtain ⟨node, hnode, hkeep⟩ := h.names n b hb
        exact ⟨node, hold hnode, hkeep⟩
    ids := fun i b hb => by
      obtain ⟨⟨-, rfl⟩, rfl⟩ | ⟨-, hb⟩ := (grown_byId_find?_eq_some_iff t name id entry i b).mp hb
      · exact ⟨_, hnew, rfl⟩
      · obtain ⟨node, hnode, hkeep⟩ := h.ids i b hb
        exact ⟨node, hold hnode, hkeep⟩
    valid := fun i b hb => by
      obtain ⟨⟨hvalid, rfl⟩, -⟩ | ⟨-, hb⟩ := (grown_byId_find?_eq_some_iff t name id entry i b).mp hb
      · exact hvalid
      · exact h.valid i b hb
    linked := fun b node hb => by
      rw [grown_nodes_find?] at hb
      rw [grown_byName_find?_eq_some_iff, grown_byId_find?_eq_some_iff]
      by_cases hnext : b = t.next
      · rw [if_pos hnext] at hb
        cases hb
        cases name with
        | none =>
          have hvalid := hkey.resolve_left fun hsome => hsome rfl
          exact .inr (.inl ⟨⟨hvalid, rfl⟩, hnext⟩)
        | some n => exact .inl (.inl ⟨rfl, hnext⟩)
      · rw [if_neg hnext] at hb
        apply (h.linked b node hb).imp
        · intro hlinked
          refine .inr ⟨fun hsame => ?_, hlinked⟩
          rw [hsame, NssTrees.nodeByName, Option.bind_some, hlinked] at hname
          cases hname
        · intro hlinked
          refine .inr ⟨fun hsame => ?_, hlinked⟩
          rw [NssTrees.nodeById, if_neg hsame.1, ← hsame.2, hlinked] at hid
          cases hid
    filled := fun b node hb => by
      rw [grown_nodes_find?] at hb
      by_cases hnext : b = t.next
      · rw [if_pos hnext] at hb
        cases hb
        rfl
      · rw [if_neg hnext] at hb
        exact h.filled b node hb
    fresh := fun b node hb => by
      rw [grown_nodes_find?] at hb
      by_cases hnext : b = t.next
      · rw [hnext]
        exact Nat.lt_succ_self _
      · rw [if_neg hnext] at hb
        exact Nat.lt_succ_of_lt (h.fresh b node hb) }

/-- Storing a record keeps the cache sound. -/
theorem NssTrees.Sound.store (h : t.Sound) (hstore : nssCacheStore kind t e = .ok t') : t'.Sound := by
  have hstores := h.stores kind e
  rw [hstore] at hstores
  cases hstores with
  | bypassed => exact h
  | refilled hnode _ _ _ => exact h.refilled hnode _
  | grown hname hid hkey => exact h.grown hkey _ hname hid

/-- Only a record without a name and a number is refused. -/
theorem NssTrees.Sound.exists_store (h : t.Sound) (hkey : kind.name e ≠ none ∨ kind.id e ≠ nssInvalidId) :
    ∃ t', nssCacheStore kind t e = .ok t' := by
  cases hstore : nssCacheStore kind t e with
  | ok t' => exact ⟨t', rfl⟩
  | error error =>
    have hstores := h.stores kind e
    rw [hstore] at hstores
    cases hstores with
    | refused hname hid => exact absurd hkey (not_or.mpr ⟨not_not.mpr hname, not_not.mpr hid⟩)

end sound

end Launch

end DbusBroker
