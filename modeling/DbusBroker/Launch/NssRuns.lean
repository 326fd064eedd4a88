import DbusBroker.Launch.NssLookups

/-!
# Runs of the cache of users and groups

The cache is populated and asked in any order. As long as the records of the files and of the
system agree, every lookup is what it would be without a cache, except for a number that does
not exist and was asked for before.
-/

namespace DbusBroker

namespace Launch

/-- What is done with a cache. -/
inductive NssOp where
  | populate (passwd : List (NssRecord passwdKind)) (group : List (NssRecord groupKind))
  | getUid (name : Bytes)
  | getGid (name : Bytes)

/-- A call of one of the functions of the cache. -/
def nssStep (database : NssDatabase) (cache : NssCache) : NssOp → NssCache
  | .populate passwd group => (nssCachePopulate cache (passwd.map Subtype.val) (group.map Subtype.val)).1
  | .getUid name => (nssCacheGetUid database cache name).1
  | .getGid name => (nssCacheGetGid database cache name).1

/-- A cache after a sequence of calls. -/
def nssRun (database : NssDatabase) (ops : List NssOp) : NssCache :=
  Machine.run (nssStep database) nssCacheInit ops

/-- A lookup answers what a lookup without a cache answers. -/
def NssDatabase.Transparent (database : NssDatabase) (cache : NssCache) : NssOp → Prop
  | .populate _ _ => True
  | .getUid name => (nssCacheGetUid database cache name).2 = nssDirect passwdKind database.users name
  | .getGid name => (nssCacheGetGid database cache name).2 = nssDirect groupKind database.groups name

/-- What the cache is populated with fits in with the database. -/
def NssDatabase.Populates (database : NssDatabase) (_ : NssCache) : NssOp → Prop
  | .populate passwd group =>
    (database.users.Fits nssRootUser ∧ ∀ e ∈ passwd, database.users.Fits e.val) ∧
      database.groups.Fits nssRootGroup ∧ ∀ e ∈ group, database.groups.Fits e.val
  | .getUid _ => True
  | .getGid _ => True

/-- A number that does not exist is asked for again. -/
def NssDatabase.Repeats (database : NssDatabase) (cache : NssCache) : NssOp → Prop
  | .populate _ _ => False
  | .getUid name => database.users.Repeats cache.users name
  | .getGid name => database.groups.Repeats cache.groups name

/-- The records of users and those of groups fit in with each other. -/
structure NssDatabase.Agrees (database : NssDatabase) : Prop where
  users : database.users.Agrees
  groups : database.groups.Agrees

section steps

variable {π ρ : Type} {kind : NssKind π ρ}

/-- What every record preserves is preserved by a sequence of them. -/
theorem nssCacheStoreAll_invariant {Inv : NssTrees π → Prop} {P : π → Prop}
    (hstep : ∀ t t' e, Inv t → P e → nssCacheStore kind t e = .ok t' → Inv t') {t : NssTrees π} {es : List π}
    (ht : Inv t) (hes : ∀ e ∈ es, P e) : Inv (nssCacheStoreAll kind t es).1 := by
  induction es generalizing t with
  | nil => exact ht
  | cons e es ih =>
    rw [nssCacheStoreAll]
    cases hstore : nssCacheStore kind t e with
    | error error => exact ht
    | ok t' => exact ih (hstep t t' e ht (hes e List.mem_cons_self) hstore) fun e' he' => hes e' (List.mem_cons_of_mem e he')

/-- What every user and every group preserves is preserved when the cache is populated. -/
theorem nssCachePopulate_invariant {InvUsers : NssTrees Passwd → Prop} {InvGroups : NssTrees Group → Prop}
    {P : Passwd → Prop} {Q : Group → Prop}
    (husers : ∀ t t' e, InvUsers t → P e → nssCacheStore passwdKind t e = .ok t' → InvUsers t')
    (hgroups : ∀ t t' e, InvGroups t → Q e → nssCacheStore groupKind t e = .ok t' → InvGroups t')
    {cache : NssCache} {passwd : List Passwd} {group : List Group} (hcache : InvUsers cache.users ∧ InvGroups cache.groups)
    (hpasswd : P nssRootUser ∧ ∀ e ∈ passwd, P e) (hgroup : Q nssRootGroup ∧ ∀ e ∈ group, Q e) :
    InvUsers (nssCachePopulate cache passwd group).1.users ∧ InvGroups (nssCachePopulate cache passwd group).1.groups := by
  rw [nssCachePopulate, nssCacheAddUser]
  cases hroot : nssCacheStore passwdKind cache.users nssRootUser with
  | error error => exact hcache
  | ok users =>
    have hrootUser := husers _ _ _ hcache.1 hpasswd.1 hroot
    dsimp only [Except.map]
    rw [nssCacheAddGroup]
    cases hroot' : nssCacheStore groupKind cache.groups nssRootGroup with
    | error error => exact ⟨hrootUser, hcache.2⟩
    | ok groups =>
      have hrootGroup := hgroups _ _ _ hcache.2 hgroup.1 hroot'
      have hallUsers := nssCacheStoreAll_invariant husers hrootUser hpasswd.2
      have hallGroups := nssCacheStoreAll_invariant hgroups hrootGroup hgroup.2
      dsimp only [Except.map, nssCachePopulateUsers]
      cases hresult : (nssCacheStoreAll passwdKind users passwd).2 with
      | error error => exact ⟨hallUsers, hrootGroup⟩
      | ok _ => exact ⟨hallUsers, hallGroups⟩

end steps

/-! ## Transparency -/

section transparent

variable {database : NssDatabase} {cache : NssCache}

/-- Every entry of either kind is right for each of its keys. -/
structure NssCache.Faithful (database : NssDatabase) (cache : NssCache) : Prop where
  users : cache.users.Faithful database.users
  groups : cache.groups.Faithful database.groups

/-- A call keeps the entries right. -/
theorem NssCache.Faithful.step (h : cache.Faithful database) (hagrees : database.Agrees) (op : NssOp)
    (hpopulates : database.Populates cache op) : (nssStep database cache op).Faithful database := by
  cases op with
  | populate passwd group =>
    obtain ⟨husers, hgroups⟩ := nssCachePopulate_invariant (fun t t' e ht he hstore => ht.store he hstore)
      (fun t t' e ht he hstore => ht.store he hstore) ⟨h.users, h.groups⟩
      ⟨hpopulates.1.1, List.forall_mem_map.mpr hpopulates.1.2⟩ ⟨hpopulates.2.1, List.forall_mem_map.mpr hpopulates.2.2⟩
    exact ⟨husers, hgroups⟩
  | getUid name => exact ⟨(h.users.get hagrees.users name).1, h.groups⟩
  | getGid name => exact ⟨h.users, (h.groups.get hagrees.groups name).1⟩

/-- A call is right unless it asks again for a number that does not exist. -/
theorem NssCache.Faithful.transparent_iff (h : cache.Faithful database) (hagrees : database.Agrees) (op : NssOp) :
    database.Transparent cache op ↔ ¬database.Repeats cache op := by
  cases op with
  | populate passwd group => exact iff_of_true trivial id
  | getUid name => exact (h.users.get hagrees.users name).2
  | getGid name => exact (h.groups.get hagrees.groups name).2

/-- The cache is transparent but for numbers that do not exist, exactly if the records of the database agree. -/
theorem nssCacheGet_transparent_iff (database : NssDatabase) :
    (∀ ops op, Machine.Along (nssStep database) database.Populates nssCacheInit ops →
        (database.Transparent (nssRun database ops) op ↔ ¬database.Repeats (nssRun database ops) op)) ↔
      database.Agrees := by
  constructor
  · intro h
    have hlookups (name : Bytes) (op : NssOp) (hop : database.Populates nssCacheInit op) :=
      fun op' => h [op] op' ⟨hop, trivial⟩
    exact {
      users := database.users.agrees_of_get fun name name' => hlookups name (.getUid name) trivial (.getUid name')
      groups := database.groups.agrees_of_get fun name name' => hlookups name (.getGid name) trivial (.getGid name') }
  · intro hagrees ops op hpopulates
    have hfaithful : (nssRun database ops).Faithful database :=
      Machine.run_invariant (fun cache op hcache hop => hcache.step hagrees op hop)
        ⟨NssTrees.faithful_init _, NssTrees.faithful_init _⟩ hpopulates
    exact hfaithful.transparent_iff hagrees op

/-- The records that are found among some have a name. -/
theorem nssTable_named {π ρ : Type} {kind : NssKind π ρ} {records : List (NssRecord kind)} {p : NssRecord kind → Bool}
    {e : π} (h : (records.find? p).map Subtype.val = some e) : (kind.name e).isSome := by
  obtain ⟨record, -, rfl⟩ := Option.map_eq_some_iff.mp h
  exact record.property

/-- The system knows some records, and answers with the first that has the key. -/
def nssTable {π ρ : Type} {kind : NssKind π ρ} (records : List (NssRecord kind)) : NssSource kind where
  byName n := (records.find? fun e => kind.name e.val == some n).map Subtype.val
  byId i := (records.find? fun e => kind.id e.val == i).map Subtype.val
  named_byName _ _ h := nssTable_named h
  named_byId _ _ h := nssTable_named h

/-- A system without users and groups. -/
def nssEmptyDatabase : NssDatabase := ⟨nssTable [], nssTable []⟩

/-- The second time, a number that does not exist is a user and a group. -/
theorem nssCacheGet_not_transparent :
    (nssCacheGetUid nssEmptyDatabase (nssRun nssEmptyDatabase [.getUid (lit "5")]) (lit "5")).2 =
        .ok (5, nssInvalidId) ∧
      nssDirect passwdKind nssEmptyDatabase.users (lit "5") = .error .invalidName ∧
      (nssCacheGetGid nssEmptyDatabase (nssRun nssEmptyDatabase [.getGid (lit "5")]) (lit "5")).2 = .ok 5 ∧
      nssDirect groupKind nssEmptyDatabase.groups (lit "5") = .error .invalidName ∧
      ¬∀ ops op, nssEmptyDatabase.Transparent (nssRun nssEmptyDatabase ops) op := by
  have huser : (nssCacheGetUid nssEmptyDatabase (nssRun nssEmptyDatabase [.getUid (lit "5")]) (lit "5")).2 =
      .ok (5, nssInvalidId) := rfl
  have hdirect : nssDirect passwdKind nssEmptyDatabase.users (lit "5") = .error .invalidName := rfl
  refine ⟨huser, hdirect, rfl, rfl, fun h => ?_⟩
  have hsame := h [.getUid (lit "5")] (.getUid (lit "5"))
  rw [NssDatabase.Transparent, huser, hdirect] at hsame
  cases hsame

end transparent

end Launch

end DbusBroker
