import DbusBroker.Dbus.UniqueId
import DbusBroker.Launch.Reload

/-!
# The services of the launcher by name

Seen by name, a launcher has at most one entry: whether it is tagged, its data, and the uid that the
broker has registered it with. Each step of a reload is a change of entries: the tags are taken off,
the first valid file of a name gives its entry the data, the entries that were left out are dropped,
and those that are not registered are registered.
-/

namespace DbusBroker.Launch

open Std

/-! ## Entries -/

/-- A service as it is seen by its name. -/
structure ServiceEntry where
  tagged : Bool
  data : ServiceData
  registered : Option UInt32

/-- The name of a service and its entry. -/
def Launcher.rowAt (l : Launcher) (id : Bytes) : Option (Bytes × ServiceEntry) :=
  (l.services.find? id).map fun s => (s.service.name, ⟨s.reloadTag, s.service.data,
    if s.service.running then (l.broker.find? (serviceObjectPath id)).map Prod.snd else none⟩)

/-- The entry of a name. -/
def Launcher.entry (l : Launcher) (name : Bytes) : Option ServiceEntry :=
  (l.servicesByName.find? name).bind fun id => (l.rowAt id).map Prod.snd

/-- Both trees have the same services, and the broker has exactly those that run. -/
structure Launcher.Sound (l : Launcher) : Prop where
  filed : ∀ id s, l.services.find? id = some s → l.servicesByName.find? s.service.name = some id
  named : ∀ name id, l.servicesByName.find? name = some id → ∃ s, l.services.find? id = some s ∧ s.service.name = name
  ids : ∀ id s, l.services.find? id = some s → ∃ n, n ≤ l.serviceIds ∧ id = natToString n
  running : ∀ id s, l.services.find? id = some s → s.service.running = true →
    ∃ uid, l.broker.find? (serviceObjectPath id) = some (s.service.name, uid)
  registered : ∀ path x, l.broker.find? path = some x →
    ∃ id s, path = serviceObjectPath id ∧ l.services.find? id = some s ∧ s.service.running = true
  assertFailed : l.assertFailed = false

section entries

variable {l l' : Launcher} {id name : Bytes} {s s' : LoadedService} {e : ServiceEntry}

/-- Different numbers are printed differently. -/
theorem natToString_injective : Function.Injective natToString := by
  intro m n h
  have hm : natToString m = lit (toString m) := (lit_toString_eq m).symm
  have hn : natToString n = lit (toString n) := (lit_toString_eq n).symm
  rw [← decimal_lit_toString m, ← decimal_lit_toString n, ← hm, ← hn, h]

/-- Different services have different object paths. -/
theorem serviceObjectPath_injective : Function.Injective serviceObjectPath := fun _ _ h => List.append_cancel_left h

/-- The entry of a name is that of the service of this name. -/
theorem Launcher.Sound.entry_eq_some_iff (h : l.Sound) : l.entry name = some e ↔ ∃ id, l.rowAt id = some (name, e) := by
  rw [Launcher.entry, Option.bind_eq_some_iff]
  constructor
  · intro hex
    obtain ⟨id, hid, hrow⟩ := hex
    obtain ⟨row, hrow, rfl⟩ := Option.map_eq_some_iff.mp hrow
    obtain ⟨s, hs, rfl⟩ := h.named name id hid
    refine ⟨id, ?_⟩
    rw [Launcher.rowAt, hs, Option.map_some] at hrow
    rw [Launcher.rowAt, hs, Option.map_some, ← Option.some.inj hrow]
  · intro hex
    obtain ⟨id, hrow⟩ := hex
    refine ⟨id, ?_, by rw [hrow]; rfl⟩
    obtain ⟨s, hs, hname⟩ := Option.map_eq_some_iff.mp hrow
    have hfiled := h.filed id s hs
    rwa [show s.service.name = name from congrArg Prod.fst hname] at hfiled

/-- Two services of one name are the same. -/
theorem Launcher.Sound.id_unique (h : l.Sound) {id' : Bytes} (hs : l.services.find? id = some s)
    (hs' : l.services.find? id' = some s') (hname : s.service.name = s'.service.name) : id = id' := by
  have hfiled := h.filed id s hs
  rw [hname, h.filed id' s' hs'] at hfiled
  exact (Option.some.inj hfiled).symm

/-- A number that was not given out yet is no id. -/
theorem Launcher.Sound.find?_next (h : l.Sound) : l.services.find? (natToString (l.serviceIds + 1)) = none := by
  cases hfind : l.services.find? (natToString (l.serviceIds + 1)) with
  | none => rfl
  | some s =>
    obtain ⟨n, hn, hid⟩ := h.ids _ s hfind
    have heq := natToString_injective hid
    omega

/-! ## Services keep their place -/

/-- A service is changed otherwise than in its name and whether it runs. -/
theorem Launcher.Sound.replace (h : l.Sound) (hs : l.services.find? id = some s) (hname : s'.service.name = s.service.name)
    (hrunning : s'.service.running = s.service.running) : Launcher.Sound { l with services := l.services.insert id s' } where
  filed id' t ht := by
    rw [SearchTree.find?_insert] at ht
    by_cases hid : id' = id
    · rw [if_pos hid] at ht
      cases ht
      rw [hname, hid]
      exact h.filed id s hs
    · rw [if_neg hid] at ht
      exact h.filed id' t ht
  named name id' hid' := by
    obtain ⟨t, ht, hnamed⟩ := h.named name id' hid'
    rw [SearchTree.find?_insert]
    by_cases hid : id' = id
    · rw [hid, hs] at ht
      cases ht
      exact ⟨s', if_pos hid, hname.trans hnamed⟩
    · exact ⟨t, (if_neg hid).trans ht, hnamed⟩
  ids id' t ht := by
    rw [SearchTree.find?_insert] at ht
    by_cases hid : id' = id
    · rw [hid]
      exact h.ids id s hs
    · rw [if_neg hid] at ht
      exact h.ids id' t ht
  running id' t ht hrun := by
    rw [SearchTree.find?_insert] at ht
    by_cases hid : id' = id
    · rw [if_pos hid] at ht
      cases ht
      rw [hname, hid]
      exact h.running id s hs (hrunning.symm.trans hrun)
    · rw [if_neg hid] at ht
      exact h.running id' t ht hrun
  registered path x hx := by
    obtain ⟨id', t, hpath, ht, hrun⟩ := h.registered path x hx
    refine ⟨id', ?_⟩
    rw [SearchTree.find?_insert]
    by_cases hid : id' = id
    · rw [hid, hs] at ht
      cases ht
      exact ⟨s', hpath, if_pos hid, hrunning.trans hrun⟩
    · exact ⟨t, hpath, (if_neg hid).trans ht, hrun⟩
  assertFailed := h.assertFailed

/-- The services after one was changed. -/
theorem Launcher.rowAt_insert (l : Launcher) (id id' : Bytes) (s : LoadedService) :
    Launcher.rowAt { l with services := l.services.insert id s } id' =
      if id' = id then some (s.service.name, ⟨s.reloadTag, s.service.data,
        if s.service.running then (l.broker.find? (serviceObjectPath id)).map Prod.snd else none⟩)
      else l.rowAt id' := by
  rw [Launcher.rowAt, SearchTree.find?_insert]
  by_cases hid : id' = id
  · rw [if_pos hid, if_pos hid, hid]
    rfl
  · rw [if_neg hid, if_neg hid]
    rfl

/-- The entry of a service is changed, or the service is gone. -/
def changeRow (f : ServiceEntry → Option ServiceEntry) (row : Option (Bytes × ServiceEntry)) :
    Option (Bytes × ServiceEntry) := row.bind fun row => (f row.2).map fun e => (row.1, e)

/-- When every service is changed alike, or is gone, so is every entry. -/
theorem Launcher.Sound.entry_bind (h : l.Sound) (h' : l'.Sound) {f : ServiceEntry → Option ServiceEntry}
    (hrow : ∀ id, l'.rowAt id = changeRow f (l.rowAt id)) (name : Bytes) : l'.entry name = (l.entry name).bind f := by
  apply Option.ext
  intro e
  rw [h'.entry_eq_some_iff, Option.bind_eq_some_iff]
  constructor
  · intro hex
    obtain ⟨id, hid⟩ := hex
    rw [hrow, changeRow, Option.bind_eq_some_iff] at hid
    obtain ⟨row, hid, hf⟩ := hid
    obtain ⟨e', he', heq⟩ := Option.map_eq_some_iff.mp hf
    cases heq
    exact ⟨row.2, h.entry_eq_some_iff.mpr ⟨id, hid⟩, he'⟩
  · intro hex
    obtain ⟨e', he', hf⟩ := hex
    obtain ⟨id, hid⟩ := h.entry_eq_some_iff.mp he'
    refine ⟨id, ?_⟩
    rw [hrow, hid, changeRow, Option.bind_some, hf]
    rfl

/-- When a change is made to one service after another, it is made to every entry. -/
theorem Launcher.Sound.foldl_keys (h : l.Sound) {op : Launcher → Bytes → Launcher} {f : ServiceEntry → Option ServiceEntry}
    (hop : ∀ l : Launcher, l.Sound → ∀ k, (op l k).Sound ∧
      ∀ id, (op l k).rowAt id = if id = k then changeRow f (l.rowAt id) else l.rowAt id)
    (hagain : ∀ e, (f e).bind f = f e) :
    (l.services.keys.foldl op l).Sound ∧ ∀ name, (l.services.keys.foldl op l).entry name = (l.entry name).bind f := by
  have htwice (row : Option (Bytes × ServiceEntry)) : changeRow f (changeRow f row) = changeRow f row := by
    cases row with
    | none => rfl
    | some row =>
      have hf := hagain row.2
      cases hrow : f row.2 with
      | none => simp [changeRow, hrow]
      | some e =>
        rw [hrow, Option.bind_some] at hf
        simp [changeRow, hrow, hf]
  have hfold (ks : List Bytes) : ∀ l : Launcher, l.Sound → (ks.foldl op l).Sound ∧
      ∀ id, (ks.foldl op l).rowAt id = if id ∈ ks then changeRow f (l.rowAt id) else l.rowAt id := by
    induction ks with
    | nil => exact fun l h => ⟨h, fun id => (if_neg List.not_mem_nil).symm⟩
    | cons k rest ih =>
      intro l h
      obtain ⟨hsound, hrow⟩ := hop l h k
      obtain ⟨hrest, hrows⟩ := ih (op l k) hsound
      refine ⟨hrest, fun id => (hrows id).trans ?_⟩
      rw [hrow]
      by_cases hid : id = k
      · have hmem : id ∈ k :: rest := by
          rw [hid]
          exact List.mem_cons_self
        rw [if_pos hid, if_pos hmem, htwice, ite_self]
      · rw [if_neg hid]
        exact if_congr (by rw [List.mem_cons, or_iff_right hid]) rfl rfl
  obtain ⟨hsound, hrows⟩ := hfold l.services.keys l h
  refine ⟨hsound, h.entry_bind hsound fun id => (hrows id).trans ?_⟩
  by_cases hid : id ∈ l.services.keys
  · rw [if_pos hid]
  · have hnone : l.rowAt id = none := by
      rw [Launcher.rowAt, Option.map_eq_none_iff, Option.eq_none_iff_forall_not_mem]
      exact fun s hs => hid ((l.services.mem_keys_iff id).mpr ⟨s, hs⟩)
    rw [if_neg hid, hnone]
    rfl

/-! ## Loading -/

/-- The first file of a name since the tags were taken off gives the entry its data. -/
def loadEntry (entry : Option ServiceEntry) (data : ServiceData) : Option ServiceEntry :=
  match entry with
  | none => some ⟨true, data, none⟩
  | some e => if e.tagged then some e else some ⟨true, data, e.registered⟩

/-- Later files of a name are ignored. -/
theorem loadEntry_loadEntry (entry : Option ServiceEntry) (data data' : ServiceData) :
    loadEntry (loadEntry entry data) data' = loadEntry entry data := by
  cases entry with
  | none => rfl
  | some e =>
    rw [loadEntry]
    by_cases htagged : e.tagged = true
    · rw [if_pos htagged, loadEntry, if_pos htagged]
    · rw [if_neg htagged]
      rfl

/-- A name without a service has no entry. -/
theorem Launcher.entry_of_find?_none (hnone : l.servicesByName.find? name = none) : l.entry name = none := by
  rw [Launcher.entry, hnone, Option.bind_none]

/-- A new service is filed in both trees. -/
theorem Launcher.Sound.serviceNew (h : l.Sound) (hnone : l.servicesByName.find? name = none) (data : ServiceData) :
    (l.serviceNew name data).Sound := by
  have hnext := h.find?_next
  refine ⟨fun id s hs => ?_, fun name' id hid => ?_, fun id s hs => ?_, fun id s hs hrun => ?_, fun path x hx => ?_, ?_⟩
  · rw [Launcher.serviceNew] at hs ⊢
    dsimp only at hs ⊢
    rw [SearchTree.find?_insert] at hs ⊢
    by_cases hid : id = natToString (l.serviceIds + 1)
    · rw [if_pos hid] at hs
      cases hs
      rw [hid]
      exact if_pos rfl
    · rw [if_neg hid] at hs
      have hfiled := h.filed id s hs
      rwa [if_neg fun hname => by rw [hname, hnone] at hfiled; cases hfiled]
  · rw [Launcher.serviceNew] at hid ⊢
    dsimp only at hid ⊢
    rw [SearchTree.find?_insert] at hid ⊢
    by_cases hname : name' = name
    · rw [if_pos hname] at hid
      cases hid
      exact ⟨_, if_pos rfl, hname.symm⟩
    · rw [if_neg hname] at hid
      obtain ⟨s, hs, hnamed⟩ := h.named name' id hid
      refine ⟨s, ?_, hnamed⟩
      rwa [if_neg fun heq => by rw [heq, hnext] at hs; cases hs]
  · rw [Launcher.serviceNew] at hs ⊢
    dsimp only at hs ⊢
    rw [SearchTree.find?_insert] at hs
    by_cases hid : id = natToString (l.serviceIds + 1)
    · exact ⟨_, Nat.le_refl _, hid⟩
    · rw [if_neg hid] at hs
      obtain ⟨n, hn, hprint⟩ := h.ids id s hs
      exact ⟨n, Nat.le_succ_of_le hn, hprint⟩
  · rw [Launcher.serviceNew] at hs ⊢
    dsimp only at hs ⊢
    rw [SearchTree.find?_insert] at hs
    by_cases hid : id = natToString (l.serviceIds + 1)
    · rw [if_pos hid] at hs
      cases hs
      cases hrun
    · rw [if_neg hid] at hs
      exact h.running id s hs hrun
  · obtain ⟨id, s, hpath, hs, hrun⟩ := h.registered path x hx
    refine ⟨id, s, hpath, ?_, hrun⟩
    rw [Launcher.serviceNew]
    dsimp only
    rw [SearchTree.find?_insert, if_neg fun heq => by rw [heq, hnext] at hs; cases hs]
    exact hs
  · rw [Launcher.serviceNew]
    dsimp only
    rw [h.assertFailed, hnext]
    rfl

/-- The services after a new one. -/
theorem Launcher.rowAt_serviceNew (l : Launcher) (name id : Bytes) (data : ServiceData) :
    (l.serviceNew name data).rowAt id =
      if id = natToString (l.serviceIds + 1) then some (name, ⟨true, data, none⟩) else l.rowAt id := by
  rw [Launcher.rowAt, Launcher.serviceNew]
  dsimp only
  rw [SearchTree.find?_insert]
  by_cases hid : id = natToString (l.serviceIds + 1)
  · rw [if_pos hid, if_pos hid]
    rfl
  · rw [if_neg hid, if_neg hid]
    rfl

/-- A new service has an entry, and the others keep theirs. -/
theorem Launcher.Sound.entry_serviceNew (h : l.Sound) (name : Bytes) (data : ServiceData) (name' : Bytes) :
    (l.serviceNew name data).entry name' = if name' = name then some ⟨true, data, none⟩ else l.entry name' := by
  have hfind : (l.serviceNew name data).servicesByName.find? name' =
      if name' = name then some (natToString (l.serviceIds + 1)) else l.servicesByName.find? name' :=
    SearchTree.find?_insert _ _ _ _
  rw [Launcher.entry, hfind]
  by_cases hname : name' = name
  · rw [if_pos hname, if_pos hname, Option.bind_some, Launcher.rowAt_serviceNew, if_pos rfl]
    rfl
  · rw [if_neg hname, if_neg hname, Launcher.entry]
    cases hid : l.servicesByName.find? name' with
    | none => rfl
    | some id =>
      obtain ⟨s, hs, -⟩ := h.named name' id hid
      rw [Option.bind_some, Option.bind_some, Launcher.rowAt_serviceNew,
        if_neg fun heq => by rw [heq, h.find?_next] at hs; cases hs]

/-- A changed service has another entry, and the others keep theirs. -/
theorem Launcher.Sound.entry_insert (h : l.Sound) (hs : l.services.find? id = some s) (s' : LoadedService) (name' : Bytes) :
    Launcher.entry { l with services := l.services.insert id s' } name' =
      if name' = s.service.name then some ⟨s'.reloadTag, s'.service.data,
        if s'.service.running then (l.broker.find? (serviceObjectPath id)).map Prod.snd else none⟩
      else l.entry name' := by
  rw [Launcher.entry]
  dsimp only
  by_cases hname : name' = s.service.name
  · rw [if_pos hname, hname, h.filed id s hs, Option.bind_some, Launcher.rowAt_insert, if_pos rfl]
    rfl
  · rw [if_neg hname, Launcher.entry]
    cases hid : l.servicesByName.find? name' with
    | none => rfl
    | some id' =>
      obtain ⟨t, ht, hnamed⟩ := h.named name' id' hid
      rw [Option.bind_some, Option.bind_some, Launcher.rowAt_insert, if_neg]
      intro heq
      rw [heq, hs] at ht
      cases ht
      exact hname hnamed.symm

/-- The entry of a service. -/
theorem Launcher.Sound.entry_of_find? (h : l.Sound) (hs : l.services.find? id = some s) :
    l.entry s.service.name = some ⟨s.reloadTag, s.service.data,
      if s.service.running then (l.broker.find? (serviceObjectPath id)).map Prod.snd else none⟩ := by
  rw [Launcher.entry, h.filed id s hs, Option.bind_some, Launcher.rowAt, hs]
  rfl

/-- A service file changes the entry of its name. -/
theorem Launcher.Sound.loadService (h : l.Sound) (name : Bytes) (data : ServiceData) :
    (l.loadService name data).1.Sound ∧ ∀ name', (l.loadService name data).1.entry name' =
      if name' = name then loadEntry (l.entry name') data else l.entry name' := by
  rw [Launcher.loadService]
  cases hname : l.servicesByName.find? name with
  | none =>
    refine ⟨h.serviceNew hname data, fun name' => ?_⟩
    rw [h.entry_serviceNew]
    by_cases heq : name' = name
    · rw [if_pos heq, if_pos heq, heq, Launcher.entry_of_find?_none hname]
      rfl
    · rw [if_neg heq, if_neg heq]
  | some id =>
    obtain ⟨s, hs, rfl⟩ := h.named name id hname
    have hentry := h.entry_of_find? hs
    dsimp only
    rw [hs]
    dsimp only
    by_cases htag : s.reloadTag = true
    · rw [if_pos htag]
      refine ⟨h, fun name' => ?_⟩
      by_cases heq : name' = s.service.name
      · rw [if_pos heq, heq, hentry, loadEntry, if_pos htag]
      · rw [if_neg heq]
    · rw [if_neg htag]
      refine ⟨h.replace hs rfl rfl, fun name' => ?_⟩
      rw [h.entry_insert hs]
      by_cases heq : name' = s.service.name
      · rw [if_pos heq, if_pos heq, heq, hentry, loadEntry, if_neg htag]
        rfl
      · rw [if_neg heq, if_neg heq]

/-- What some service files make of an entry. -/
def loadedEntry (entry : Option ServiceEntry) (data : Option ServiceData) : Option ServiceEntry :=
  data.elim entry (loadEntry entry)

/-- Load the service files of some names. -/
def Launcher.loadAll (l : Launcher) (files : List (Bytes × ServiceData)) : Launcher :=
  files.foldl (fun l file => (l.loadService file.1 file.2).1) l

/-- Service files change the entries of their names, the first one of each. -/
theorem Launcher.Sound.loadAll (h : l.Sound) (files : List (Bytes × ServiceData)) :
    (l.loadAll files).Sound ∧ ∀ name, (l.loadAll files).entry name = loadedEntry (l.entry name) (files.lookup name) := by
  induction files generalizing l with
  | nil => exact ⟨h, fun _ => rfl⟩
  | cons file rest ih =>
    obtain ⟨hsound, hentry⟩ := h.loadService file.1 file.2
    obtain ⟨hrest, hentries⟩ := ih hsound
    refine ⟨hrest, fun name => (hentries name).trans ?_⟩
    rw [hentry, List.lookup_cons]
    by_cases hname : name = file.1
    · rw [if_pos hname, beq_iff_eq.mpr hname]
      cases rest.lookup name with
      | none => rfl
      | some data => exact loadEntry_loadEntry _ _ _
    · rw [if_neg hname, beq_eq_false_iff_ne.mpr hname]

/-! ## Directories -/

/-- The valid service files of some directories, in the order in which they are loaded. -/
def validServices (userScope : Bool) (getuid : UInt32) (dirs : List (Bytes × ServiceDir)) : List (Bytes × ServiceData) :=
  dirs.flatMap fun dir =>
    match dir.2 with
    | .entries files => files.filterMap fun file => (serviceBasename file.1).bind fun basename =>
        (launcherParseService userScope getuid (dir.1 ++ [byte '/'] ++ file.1) basename file.2).toOption
    | _ => []

/-- The service of a file, as a launcher of some uid has it: a service without a user gets that uid. -/
def runAs (getuid : UInt32) (service : Bytes × ServiceData) : Bytes × ServiceData :=
  (service.1, if service.2.user.isSome then service.2 else { service.2 with uid := getuid })

/-- The uid of the launcher does not decide which files are valid, only the uid of the services without a user. -/
theorem launcherParseService_cases (userScope : Bool) (path basename : Bytes) (file : ServiceFile) :
    (∃ e, ∀ getuid, launcherParseService userScope getuid path basename file = .error e) ∨
      ∃ service, ∀ getuid, launcherParseService userScope getuid path basename file = .ok (runAs getuid service) := by
  cases file with
  | invalid => exact .inl ⟨_, fun _ => rfl⟩
  | failed => exact .inl ⟨_, fun _ => rfl⟩
  | group name unit exec user argv uid =>
    cases name with
    | none => exact .inl ⟨_, fun _ => rfl⟩
    | some name =>
      by_cases hvalid : (!dbusValidateName name) = true
      · exact .inl ⟨.invalidServiceFile, fun _ => by rw [launcherParseService, if_pos hvalid]; rfl⟩
      by_cases hname : name ≠ basename ∧ (!userScope) = true
      · exact .inl ⟨.invalidServiceFile, fun _ => by rw [launcherParseService, if_neg hvalid, if_pos hname]; rfl⟩
      obtain ⟨args, hrest⟩ : ∃ args : Except LauncherError (List Bytes), ∀ getuid,
          launcherParseService userScope getuid path basename (.group (some name) unit exec user argv uid) =
            args.bind fun args => (if user.isSome then uid else pure getuid).bind fun uid =>
              pure (name, ⟨some path, unit, user, uid, args⟩) := by
        cases exec with
        | none =>
          refine ⟨.ok [], fun getuid => ?_⟩
          rw [launcherParseService, if_neg hvalid, if_neg hname]
          cases user <;> rfl
        | some exec =>
          refine ⟨argv, fun getuid => ?_⟩
          rw [launcherParseService, if_neg hvalid, if_neg hname]
          cases user <;> rfl
      cases args with
      | error e => exact .inl ⟨e, hrest⟩
      | ok args =>
        cases user with
        | none => exact .inr ⟨(name, ⟨some path, unit, none, 0, args⟩), hrest⟩
        | some user =>
          cases uid with
          | error e => exact .inl ⟨e, hrest⟩
          | ok uid => exact .inr ⟨(name, ⟨some path, unit, some user, uid, args⟩), hrest⟩

/-- Launchers of different uids find the same services, but for the uids of those without a user. -/
theorem validServices_runAs (userScope : Bool) (getuid getuid' : UInt32) (dirs : List (Bytes × ServiceDir)) :
    validServices userScope getuid dirs = (validServices userScope getuid' dirs).map (runAs getuid) := by
  rw [validServices, validServices, List.map_flatMap]
  refine List.flatMap_congr fun dir _ => ?_
  obtain ⟨dirpath, dir⟩ := dir
  cases dir with
  | entries files =>
    rw [List.map_filterMap]
    refine List.filterMap_congr fun file _ => ?_
    cases serviceBasename file.1 with
    | none => rfl
    | some basename =>
      rw [Option.bind_some, Option.bind_some]
      obtain ⟨e, herror⟩ | ⟨service, hok⟩ :=
        launcherParseService_cases userScope (dirpath ++ [byte '/'] ++ file.1) basename file.2
      · rw [herror, herror]
        rfl
      · rw [hok, hok]
        show some _ = some _
        rw [runAs, runAs, runAs]
        by_cases huser : service.2.user.isSome = true
        · simp [huser]
        · simp [huser]
  | _ => rfl


/-- A service file is loaded in the same scope. -/
theorem Launcher.loadService_scope (l : Launcher) (name : Bytes) (data : ServiceData) :
    (l.loadService name data).1.userScope = l.userScope ∧ (l.loadService name data).1.getuid = l.getuid := by
  rw [Launcher.loadService]
  cases l.servicesByName.find? name with
  | none => exact ⟨rfl, rfl⟩
  | some id =>
    dsimp only
    cases l.services.find? id with
    | none => exact ⟨rfl, rfl⟩
    | some old =>
      dsimp only
      split <;> exact ⟨rfl, rfl⟩

/-- The only error of a valid service file is that its name was loaded before. -/
theorem Launcher.loadService_error (l : Launcher) (name : Bytes) (data : ServiceData) :
    (l.loadService name data).2 ≠ some .failed := by
  rw [Launcher.loadService]
  cases l.servicesByName.find? name with
  | none => exact fun h => by cases h
  | some id =>
    dsimp only
    cases l.services.find? id with
    | none => exact fun h => by cases h
    | some old =>
      dsimp only
      split <;> exact fun h => by cases h

/-- The loop goes on behind a file that has no error or only an invalid one. -/
theorem launcherLoadServiceFiles_cons {dirpath entry basename : Bytes} {file : ServiceFile} (rest : List (Bytes × ServiceFile))
    (hname : serviceBasename entry = some basename)
    (herror : (launcherLoadServiceFile l (dirpath ++ [byte '/'] ++ entry) basename file).2 ≠ some .failed) :
    launcherLoadServiceFiles dirpath l ((entry, file) :: rest) =
      launcherLoadServiceFiles dirpath (launcherLoadServiceFile l (dirpath ++ [byte '/'] ++ entry) basename file).1 rest := by
  rw [launcherLoadServiceFiles, hname]
  dsimp only
  obtain ⟨x, hx⟩ : ∃ x, launcherLoadServiceFile l (dirpath ++ [byte '/'] ++ entry) basename file = x := ⟨_, rfl⟩
  rw [hx] at herror ⊢
  obtain ⟨l', result⟩ := x
  cases result with
  | none => rfl
  | some error =>
    cases error with
    | invalidServiceFile => rfl
    | failed => exact absurd rfl herror

/-- The valid files of a directory are loaded, unless one cannot be read. -/
theorem exists_launcherLoadServiceFiles (userScope : Bool) (dirpath : Bytes) (files : List (Bytes × ServiceFile)) :
    ∃ (valid : UInt32 → List (Bytes × ServiceData)) (error : Option LauncherError),
      (error = none → ∀ getuid, valid getuid = files.filterMap fun file => (serviceBasename file.1).bind fun basename =>
        (launcherParseService userScope getuid (dirpath ++ [byte '/'] ++ file.1) basename file.2).toOption) ∧
      ∀ l : Launcher, l.userScope = userScope →
        launcherLoadServiceFiles dirpath l files = (l.loadAll (valid l.getuid), error) := by
  induction files with
  | nil => exact ⟨fun _ => [], none, fun _ _ => rfl, fun _ _ => rfl⟩
  | cons file rest ih =>
    obtain ⟨valid, error, hvalid, hload⟩ := ih
    obtain ⟨entry, file⟩ := file
    cases hname : serviceBasename entry with
    | none =>
      refine ⟨valid, error, fun hnone getuid => ?_, fun l hscope => ?_⟩
      · rw [hvalid hnone, List.filterMap_cons_none (by rw [hname]; rfl)]
      · rw [launcherLoadServiceFiles, hname]
        exact hload l hscope
    | some basename =>
      obtain ⟨e, hparse⟩ | ⟨service, hparse⟩ :=
        launcherParseService_cases userScope (dirpath ++ [byte '/'] ++ entry) basename file
      · have hfile (l : Launcher) (hscope : l.userScope = userScope) :
            launcherLoadServiceFile l (dirpath ++ [byte '/'] ++ entry) basename file = (l, some e) := by
          rw [launcherLoadServiceFile, hscope, hparse]
        cases e with
        | failed =>
          refine ⟨fun _ => [], some .failed, fun hnone => absurd hnone (Option.some_ne_none _), fun l hscope => ?_⟩
          rw [launcherLoadServiceFiles, hname]
          dsimp only
          rw [hfile l hscope]
          rfl
        | invalidServiceFile =>
          refine ⟨valid, error, fun hnone getuid => ?_, fun l hscope => ?_⟩
          · rw [hvalid hnone, List.filterMap_cons_none (by rw [hname, Option.bind_some, hparse]; rfl)]
          · rw [launcherLoadServiceFiles_cons rest hname (by rw [hfile l hscope]; exact fun h => by cases h),
              hfile l hscope]
            exact hload l hscope
      · have hfile (l : Launcher) (hscope : l.userScope = userScope) :
            launcherLoadServiceFile l (dirpath ++ [byte '/'] ++ entry) basename file =
              l.loadService (runAs l.getuid service).1 (runAs l.getuid service).2 := by
          rw [launcherLoadServiceFile, hscope, hparse]
        refine ⟨fun getuid => runAs getuid service :: valid getuid, error, fun hnone getuid => ?_, fun l hscope => ?_⟩
        · dsimp only
          rw [hvalid hnone, List.filterMap_cons_some (by rw [hname, Option.bind_some, hparse]; rfl)]
        · obtain ⟨hscope', huid'⟩ := l.loadService_scope (runAs l.getuid service).1 (runAs l.getuid service).2
          rw [launcherLoadServiceFiles_cons rest hname (by rw [hfile l hscope]; exact l.loadService_error _ _),
            hfile l hscope, hload _ (hscope'.trans hscope), huid']
          rfl

/-- Service files are loaded in the same scope. -/
theorem Launcher.loadAll_scope (l : Launcher) (files : List (Bytes × ServiceData)) :
    (l.loadAll files).userScope = l.userScope ∧ (l.loadAll files).getuid = l.getuid := by
  induction files generalizing l with
  | nil => exact ⟨rfl, rfl⟩
  | cons file rest ih =>
    obtain ⟨hscope, huid⟩ := l.loadService_scope file.1 file.2
    obtain ⟨hscope', huid'⟩ := ih (l.loadService file.1 file.2).1
    exact ⟨hscope'.trans hscope, huid'.trans huid⟩

/-- The valid files of some directories are loaded, unless something cannot be read. -/
theorem exists_launcherLoadServices (userScope : Bool) (dirs : List (Bytes × ServiceDir)) :
    ∃ (valid : UInt32 → List (Bytes × ServiceData)) (error : Option LauncherError),
      (error = none → ∀ getuid, valid getuid = validServices userScope getuid dirs) ∧
      ∀ l : Launcher, l.userScope = userScope → launcherLoadServices l dirs = (l.loadAll (valid l.getuid), error) := by
  induction dirs with
  | nil => exact ⟨fun _ => [], none, fun _ _ => rfl, fun _ _ => rfl⟩
  | cons dir rest ih =>
    obtain ⟨valid, error, hvalid, hload⟩ := ih
    obtain ⟨dirpath, dir⟩ := dir
    obtain ⟨first, failed, hfirst, hdir⟩ : ∃ (first : UInt32 → List (Bytes × ServiceData)) (failed : Option LauncherError),
        (failed = none → ∀ getuid, validServices userScope getuid [(dirpath, dir)] = first getuid) ∧
        ∀ l : Launcher, l.userScope = userScope →
          launcherLoadServiceDir l dirpath dir = (l.loadAll (first l.getuid), failed) := by
      cases dir with
      | missing => exact ⟨fun _ => [], none, fun _ _ => rfl, fun _ _ => rfl⟩
      | denied => exact ⟨fun _ => [], none, fun _ _ => rfl, fun _ _ => rfl⟩
      | failed => exact ⟨fun _ => [], some .failed, fun _ _ => rfl, fun _ _ => rfl⟩
      | entries files =>
        obtain ⟨first, failed, hfirst, hfiles⟩ := exists_launcherLoadServiceFiles userScope dirpath files
        refine ⟨first, failed, fun hnone getuid => ?_, hfiles⟩
        rw [hfirst hnone, validServices, List.flatMap_singleton]
    cases failed with
    | some e =>
      refine ⟨first, some e, fun hnone => absurd hnone (Option.some_ne_none _), fun l hscope => ?_⟩
      rw [launcherLoadServices, hdir l hscope]
    | none =>
      refine ⟨fun getuid => first getuid ++ valid getuid, error, fun hnone getuid => ?_, fun l hscope => ?_⟩
      · dsimp only
        rw [hvalid hnone, ← hfirst rfl, validServices, validServices, validServices, List.flatMap_singleton,
          List.flatMap_cons]
      · obtain ⟨hscope', huid'⟩ := l.loadAll_scope (first l.getuid)
        rw [launcherLoadServices, hdir l hscope]
        dsimp only
        rw [hload _ (hscope'.trans hscope), huid', Launcher.loadAll, Launcher.loadAll, Launcher.loadAll, List.foldl_append]

/-! ## Marking and sweeping -/

/-- The tag is taken off. -/
def untagEntry (e : ServiceEntry) : Option ServiceEntry := some { e with tagged := false }

/-- An entry without a tag is dropped. -/
def sweepEntry (e : ServiceEntry) : Option ServiceEntry := if e.tagged then some e else none

/-- An entry that is not registered is registered with the uid of its data. -/
def registerEntry (e : ServiceEntry) : Option ServiceEntry := some { e with registered := some (e.registered.getD e.data.uid) }

/-- The tags are taken off all services. -/
theorem Launcher.Sound.clearTags (h : l.Sound) :
    l.clearTags.Sound ∧ ∀ name, l.clearTags.entry name = (l.entry name).bind untagEntry := by
  have hfind (id : Bytes) : l.clearTags.services.find? id = (l.services.find? id).map fun s => { s with reloadTag := false } :=
    SearchTree.find?_mapValues _ _ _
  have hsound : l.clearTags.Sound := by
    refine ⟨fun id s hs => ?_, fun name id hid => ?_, fun id s hs => ?_, fun id s hs hrun => ?_, fun path x hx => ?_,
      h.assertFailed⟩
    · rw [hfind] at hs
      obtain ⟨t, ht, rfl⟩ := Option.map_eq_some_iff.mp hs
      exact h.filed id t ht
    · obtain ⟨t, ht, hname⟩ := h.named name id hid
      exact ⟨{ t with reloadTag := false }, by rw [hfind, ht]; rfl, hname⟩
    · rw [hfind] at hs
      obtain ⟨t, ht, rfl⟩ := Option.map_eq_some_iff.mp hs
      exact h.ids id t ht
    · rw [hfind] at hs
      obtain ⟨t, ht, rfl⟩ := Option.map_eq_some_iff.mp hs
      exact h.running id t ht hrun
    · obtain ⟨id, t, hpath, ht, hrun⟩ := h.registered path x hx
      exact ⟨id, { t with reloadTag := false }, hpath, by rw [hfind, ht]; rfl, hrun⟩
  refine ⟨hsound, h.entry_bind hsound fun id => ?_⟩
  rw [Launcher.rowAt, hfind, Launcher.rowAt]
  cases l.services.find? id with
  | none => rfl
  | some s => rfl

/-- What becomes of a launcher when a service is removed. -/
theorem Launcher.removeUntagged_eq (hs : l.services.find? id = some s) (htag : s.reloadTag = false) :
    l.removeUntagged id = { l with
      services := l.services.erase id
      servicesByName := l.servicesByName.erase s.service.name
      broker := if s.service.running then l.broker.erase (serviceObjectPath id) else l.broker } := by
  rw [Launcher.removeUntagged, hs]
  dsimp only
  rw [if_neg (by rw [htag]; exact Bool.false_ne_true), Launcher.serviceRemove, hs]
  dsimp only
  by_cases hrun : s.service.running = true
  · rw [if_neg (by simp [hrun]), if_pos hrun, Launcher.serviceFree]
    dsimp only
    rw [SearchTree.find?_insert_self]
    dsimp only
    rw [SearchTree.erase_insert]
    rfl
  · rw [if_pos (by simpa using hrun), if_neg hrun, Launcher.serviceFree, hs]

/-- A service without a tag is removed from both trees and from the broker. -/
theorem Launcher.Sound.removeUntagged (h : l.Sound) (k : Bytes) : (l.removeUntagged k).Sound ∧ ∀ id,
    (l.removeUntagged k).rowAt id = if id = k then changeRow sweepEntry (l.rowAt id) else l.rowAt id := by
  cases hs : l.services.find? k with
  | none =>
    have hsame : l.removeUntagged k = l := by rw [Launcher.removeUntagged, hs]
    rw [hsame]
    refine ⟨h, fun id => ?_⟩
    by_cases hid : id = k
    · have hnone : l.rowAt id = none := by rw [hid, Launcher.rowAt, hs]; rfl
      rw [if_pos hid, hnone]
      rfl
    · rw [if_neg hid]
  | some s =>
    cases htag : s.reloadTag with
    | true =>
      have hsame : l.removeUntagged k = l := by rw [Launcher.removeUntagged, hs]; exact if_pos htag
      rw [hsame]
      refine ⟨h, fun id => ?_⟩
      by_cases hid : id = k
      · rw [if_pos hid, hid, Launcher.rowAt, hs, Option.map_some, changeRow, Option.bind_some, sweepEntry, if_pos htag]
        rfl
      · rw [if_neg hid]
    | false =>
      rw [Launcher.removeUntagged_eq hs htag]
      -- the broker keeps what it has for the other services
      have hbroker (path : Bytes) (hpath : path ≠ serviceObjectPath k) :
          (if s.service.running then l.broker.erase (serviceObjectPath k) else l.broker).find? path =
            l.broker.find? path := by
        split
        · exact SearchTree.find?_erase_of_ne _ hpath
        · rfl
      have hother (id : Bytes) (t : LoadedService) (ht : (l.services.erase k).find? id = some t) :
          id ≠ k ∧ l.services.find? id = some t := by
        rw [SearchTree.find?_erase] at ht
        by_cases hid : id = k
        · rw [if_pos hid] at ht
          cases ht
        · rw [if_neg hid] at ht
          exact ⟨hid, ht⟩
      refine ⟨⟨fun id t ht => ?_, fun name id hid => ?_, fun id t ht => ?_, fun id t ht hrun => ?_, fun path x hx => ?_,
        h.assertFailed⟩, fun id => ?_⟩
      · obtain ⟨hid, ht⟩ := hother id t ht
        dsimp only
        rw [SearchTree.find?_erase_of_ne _ fun hname => hid (h.id_unique ht hs hname)]
        exact h.filed id t ht
      · dsimp only at hid ⊢
        rw [SearchTree.find?_erase] at hid
        by_cases hname : name = s.service.name
        · rw [if_pos hname] at hid
          cases hid
        · rw [if_neg hname] at hid
          obtain ⟨t, ht, hnamed⟩ := h.named name id hid
          refine ⟨t, ?_, hnamed⟩
          rw [SearchTree.find?_erase_of_ne]
          · exact ht
          · intro heq
            rw [heq, hs] at ht
            cases ht
            exact hname hnamed.symm
      · exact h.ids id t (hother id t ht).2
      · obtain ⟨hid, ht⟩ := hother id t ht
        dsimp only
        rw [hbroker _ fun hpath => hid (serviceObjectPath_injective hpath)]
        exact h.running id t ht hrun
      · dsimp only at hx ⊢
        have hpath : path ≠ serviceObjectPath k := by
          intro heq
          rw [heq] at hx
          cases hrun : s.service.running with
          | true =>
            rw [hrun, if_pos rfl, SearchTree.find?_erase_self] at hx
            cases hx
          | false =>
            rw [hrun, if_neg Bool.false_ne_true] at hx
            obtain ⟨id, t, hpath, ht, hrun'⟩ := h.registered _ x hx
            rw [← serviceObjectPath_injective hpath, hs] at ht
            cases ht
            rw [hrun] at hrun'
            cases hrun'
        rw [hbroker path hpath] at hx
        obtain ⟨id, t, rfl, ht, hrun⟩ := h.registered path x hx
        refine ⟨id, t, rfl, ?_, hrun⟩
        rw [SearchTree.find?_erase_of_ne _ fun hid => hpath (by rw [hid])]
        exact ht
      · rw [Launcher.rowAt]
        dsimp only
        rw [SearchTree.find?_erase]
        by_cases hid : id = k
        · rw [if_pos hid, if_pos hid, hid, Launcher.rowAt, hs, Option.map_some, changeRow, Option.bind_some, sweepEntry]
          dsimp only
          rw [htag, if_neg Bool.false_ne_true]
          rfl
        · rw [if_neg hid, if_neg hid, hbroker _ fun hpath => hid (serviceObjectPath_injective hpath), Launcher.rowAt]

/-- Every service without a tag is removed. -/
theorem Launcher.Sound.removeServices (h : l.Sound) : (launcherRemoveServices l).Sound ∧
    ∀ name, (launcherRemoveServices l).entry name = (l.entry name).bind sweepEntry := by
  refine h.foldl_keys (fun _ h => h.removeUntagged) fun e => ?_
  rw [sweepEntry]
  by_cases htag : e.tagged = true
  · rw [if_pos htag, Option.bind_some, sweepEntry, if_pos htag]
  · rw [if_neg htag, Option.bind_none]

/-- A service that does not run is registered with the broker. -/
theorem Launcher.Sound.serviceAdd (h : l.Sound) (k : Bytes) : (l.serviceAdd k).Sound ∧ ∀ id,
    (l.serviceAdd k).rowAt id = if id = k then changeRow registerEntry (l.rowAt id) else l.rowAt id := by
  cases hs : l.services.find? k with
  | none =>
    have hsame : l.serviceAdd k = l := by rw [Launcher.serviceAdd, hs]
    rw [hsame]
    refine ⟨h, fun id => ?_⟩
    by_cases hid : id = k
    · have hnone : l.rowAt id = none := by rw [hid, Launcher.rowAt, hs]; rfl
      rw [if_pos hid, hnone]
      rfl
    · rw [if_neg hid]
  | some s =>
    cases hrun : s.service.running with
    | true =>
      have hsame : l.serviceAdd k = l := by rw [Launcher.serviceAdd, hs]; exact if_pos hrun
      rw [hsame]
      refine ⟨h, fun id => ?_⟩
      by_cases hid : id = k
      · obtain ⟨uid, huid⟩ := h.running k s hs hrun
        rw [if_pos hid, hid, Launcher.rowAt, hs, Option.map_some, if_pos hrun, huid]
        rfl
      · rw [if_neg hid]
    | false =>
      have hadd : l.serviceAdd k = { l with
          services := l.services.insert k { s with service := { s.service with running := true } }
          broker := l.broker.insert (serviceObjectPath k) (s.service.name, s.service.data.uid) } := by
        rw [Launcher.serviceAdd, hs]
        exact if_neg (by rw [hrun]; exact Bool.false_ne_true)
      rw [hadd]
      have hbroker (id : Bytes) (hid : id ≠ k) :
          (l.broker.insert (serviceObjectPath k) (s.service.name, s.service.data.uid)).find? (serviceObjectPath id) =
            l.broker.find? (serviceObjectPath id) :=
        SearchTree.find?_insert_of_ne _ (fun hpath => hid (serviceObjectPath_injective hpath)) _
      refine ⟨⟨fun id t ht => ?_, fun name id hid => ?_, fun id t ht => ?_, fun id t ht hrun' => ?_, fun path x hx => ?_,
        h.assertFailed⟩, fun id => ?_⟩
      · dsimp only at ht ⊢
        rw [SearchTree.find?_insert] at ht
        by_cases hid : id = k
        · rw [if_pos hid] at ht
          cases ht
          rw [hid]
          exact h.filed k s hs
        · rw [if_neg hid] at ht
          exact h.filed id t ht
      · dsimp only at hid ⊢
        obtain ⟨t, ht, hname⟩ := h.named name id hid
        rw [SearchTree.find?_insert]
        by_cases heq : id = k
        · rw [heq, hs] at ht
          cases ht
          exact ⟨_, if_pos heq, hname⟩
        · exact ⟨t, (if_neg heq).trans ht, hname⟩
      · dsimp only at ht ⊢
        rw [SearchTree.find?_insert] at ht
        by_cases hid : id = k
        · rw [hid]
          exact h.ids k s hs
        · rw [if_neg hid] at ht
          exact h.ids id t ht
      · dsimp only at ht ⊢
        rw [SearchTree.find?_insert] at ht
        by_cases hid : id = k
        · rw [if_pos hid] at ht
          cases ht
          rw [hid, SearchTree.find?_insert_self]
          exact ⟨_, rfl⟩
        · rw [if_neg hid] at ht
          rw [hbroker id hid]
          exact h.running id t ht hrun'
      · dsimp only at hx ⊢
        by_cases hpath : path = serviceObjectPath k
        · exact ⟨k, _, hpath, SearchTree.find?_insert_self _ _ _, rfl⟩
        · rw [SearchTree.find?_insert_of_ne _ hpath] at hx
          obtain ⟨id, t, rfl, ht, hrun'⟩ := h.registered path x hx
          refine ⟨id, t, rfl, ?_, hrun'⟩
          rw [SearchTree.find?_insert_of_ne _ fun hid => hpath (by rw [hid])]
          exact ht
      · rw [Launcher.rowAt]
        dsimp only
        by_cases hid : id = k
        · rw [if_pos hid, hid, SearchTree.find?_insert_self, SearchTree.find?_insert_self, Launcher.rowAt, hs]
          dsimp only [Option.map_some]
          rw [hrun]
          rfl
        · rw [if_neg hid, SearchTree.find?_insert_of_ne _ hid, hbroker id hid, Launcher.rowAt]

/-- Every service that does not run is registered with the broker. -/
theorem Launcher.Sound.addServices (h : l.Sound) : (launcherAddServices l).Sound ∧
    ∀ name, (launcherAddServices l).entry name = (l.entry name).bind registerEntry :=
  h.foldl_keys (fun _ h => h.serviceAdd) fun _ => rfl

end entries

end DbusBroker.Launch
