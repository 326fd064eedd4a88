import DbusBroker.Launch.ReloadEntries

/-!
# What reloads keep and what they miss

After a reload the launcher has the services of its files: for every name the first valid one. The
broker has their names. But a name that was registered before is not registered again, so that the
broker keeps its uid: it has the uids of the files only if no file gives another uid to such a name.
And a service without a user has the uid of the launcher, which is another one than that of a fresh
launcher once the permissions are dropped.
-/

namespace DbusBroker.Launch

open Std

section reload

variable {l l' : Launcher} {id name : Bytes} {s s' : LoadedService} {e : ServiceEntry} {uid : UInt32} {data : ServiceData}

/-! ## Lists of services -/

/-- The names of the services with their data. -/
def Launcher.serviceList (l : Launcher) : List (Bytes × ServiceData) :=
  l.services.values.map fun s => (s.service.name, s.service.data)

/-- The names that the broker has registered, with the uids that their activations are charged to. -/
def Launcher.registeredNames (l : Launcher) : List (Bytes × UInt32) := l.broker.values

/-- The services are the entries. -/
theorem Launcher.Sound.mem_serviceList (h : l.Sound) :
    (name, data) ∈ l.serviceList ↔ ∃ e, l.entry name = some e ∧ e.data = data := by
  rw [Launcher.serviceList, List.mem_map]
  constructor
  · intro hex
    obtain ⟨s, hs, heq⟩ := hex
    cases heq
    obtain ⟨pair, hpair, rfl⟩ := List.mem_map.mp hs
    exact ⟨_, h.entry_of_find? ((l.services.find?_eq_some_iff _ _).mpr hpair), rfl⟩
  · intro hex
    obtain ⟨e, he, rfl⟩ := hex
    obtain ⟨id, hid⟩ := h.entry_eq_some_iff.mp he
    obtain ⟨s, hs, heq⟩ := Option.map_eq_some_iff.mp hid
    cases heq
    exact ⟨s, List.mem_map_of_mem ((l.services.find?_eq_some_iff id s).mp hs), rfl⟩

/-- The registered names are those of the entries that are registered. -/
theorem Launcher.Sound.mem_registeredNames (h : l.Sound) :
    (name, uid) ∈ l.registeredNames ↔ ∃ e, l.entry name = some e ∧ e.registered = some uid := by
  rw [Launcher.registeredNames, SearchTree.values, List.mem_map]
  constructor
  · intro hex
    obtain ⟨pair, hpair, heq⟩ := hex
    have hfind : l.broker.find? pair.1 = some (name, uid) := by
      rw [← heq]
      exact (l.broker.find?_eq_some_iff _ _).mpr hpair
    obtain ⟨id, s, hpath, hs, hrun⟩ := h.registered pair.1 _ hfind
    obtain ⟨uid', huid⟩ := h.running id s hs hrun
    rw [hpath, huid] at hfind
    cases hfind
    exact ⟨_, h.entry_of_find? hs, by rw [if_pos hrun, huid]; rfl⟩
  · intro hex
    obtain ⟨e, he, huid⟩ := hex
    obtain ⟨id, hid⟩ := h.entry_eq_some_iff.mp he
    obtain ⟨s, hs, heq⟩ := Option.map_eq_some_iff.mp hid
    cases heq
    by_cases hrun : s.service.running = true
    · obtain ⟨uid', hfind⟩ := h.running id s hs hrun
      rw [if_pos hrun, hfind] at huid
      cases huid
      exact ⟨(serviceObjectPath id, s.service.name, _), (l.broker.find?_eq_some_iff _ _).mp hfind, rfl⟩
    · rw [if_neg hrun] at huid
      cases huid

/-- No two services have the same name. -/
theorem Launcher.Sound.nodup_serviceList (h : l.Sound) : (l.serviceList.map Prod.fst).Nodup := by
  rw [Launcher.serviceList, SearchTree.values, List.map_map, List.map_map]
  refine List.Nodup.map_on ?_ l.services.nodup_entries
  intro pair hpair pair' hpair' hname
  have hs := (l.services.find?_eq_some_iff _ _).mpr hpair
  have hs' := (l.services.find?_eq_some_iff _ _).mpr hpair'
  exact SearchTree.key_injective_of_sorted l.services.sorted hpair hpair' (h.id_unique hs hs' hname)

/-- No name is registered twice. -/
theorem Launcher.Sound.nodup_registeredNames (h : l.Sound) : (l.registeredNames.map Prod.fst).Nodup := by
  rw [Launcher.registeredNames, SearchTree.values, List.map_map]
  refine List.Nodup.map_on ?_ l.broker.nodup_entries
  intro pair hpair pair' hpair' hname
  have hfind := (l.broker.find?_eq_some_iff _ _).mpr hpair
  have hfind' := (l.broker.find?_eq_some_iff _ _).mpr hpair'
  obtain ⟨id, s, hpath, hs, hrun⟩ := h.registered _ _ hfind
  obtain ⟨id', s', hpath', hs', hrun'⟩ := h.registered _ _ hfind'
  obtain ⟨uid, huid⟩ := h.running id s hs hrun
  obtain ⟨uid', huid'⟩ := h.running id' s' hs' hrun'
  rw [hpath, huid] at hfind
  rw [hpath', huid'] at hfind'
  have hnames : s.service.name = s'.service.name := by
    have hfst := congrArg Prod.fst (Option.some.inj hfind)
    have hfst' := congrArg Prod.fst (Option.some.inj hfind')
    exact hfst.trans (Eq.trans hname hfst'.symm)
  exact SearchTree.key_injective_of_sorted l.broker.sorted hpair hpair' (by rw [hpath, hpath', h.id_unique hs hs' hnames])

/-! ## One reload -/

/-- The scope and the user of a launcher. -/
def Launcher.scope (l : Launcher) : Bool × UInt32 := (l.userScope, l.getuid)

/-- What does not change for one service does not change for many. -/
theorem Launcher.scope_foldl {op : Launcher → Bytes → Launcher} (hop : ∀ l k, (op l k).scope = l.scope) (ks : List Bytes) :
    (ks.foldl op l).scope = l.scope := by
  induction ks generalizing l with
  | nil => rfl
  | cons k rest ih => exact ih.trans (hop l k)

/-- A service is registered in the same scope. -/
theorem Launcher.scope_serviceAdd (l : Launcher) (k : Bytes) : (l.serviceAdd k).scope = l.scope := by
  rw [Launcher.serviceAdd]
  cases l.services.find? k with
  | none => rfl
  | some s =>
    dsimp only
    split <;> rfl

/-- A service is removed in the same scope. -/
theorem Launcher.scope_removeUntagged (l : Launcher) (k : Bytes) : (l.removeUntagged k).scope = l.scope := by
  cases hs : l.services.find? k with
  | none => rw [Launcher.removeUntagged, hs]
  | some s =>
    cases htag : s.reloadTag with
    | true =>
      rw [Launcher.removeUntagged, hs]
      dsimp only
      rw [if_pos htag]
    | false =>
      rw [Launcher.removeUntagged_eq hs htag]
      rfl

/-- What a reload makes of an entry: the data of the first valid file, and the uid that was registered before. -/
def reloadedEntry (entry : Option ServiceEntry) (data : Option ServiceData) : Option ServiceEntry :=
  data.map fun data => ⟨true, data, some ((entry.bind (·.registered)).getD data.uid)⟩

/-- The steps of a reload, for one entry. -/
theorem reloadedEntry_eq (entry : Option ServiceEntry) (data : Option ServiceData) :
    ((loadedEntry (entry.bind untagEntry) data).bind sweepEntry).bind registerEntry = reloadedEntry entry data := by
  cases entry with
  | none => cases data <;> rfl
  | some e => cases data <;> rfl

/-- A reload keeps the launcher sound, and if it succeeds, every entry has the data of the first valid file. -/
theorem Launcher.Sound.reload (h : l.Sound) (r : Reload) :
    ((launcherReloadConfig l r).1.Sound ∧ (launcherReloadConfig l r).1.scope = l.scope) ∧
      ((launcherReloadConfig l r).2 = .success → ∀ name, (launcherReloadConfig l r).1.entry name =
        reloadedEntry (l.entry name) ((validServices l.userScope l.getuid r.dirs).lookup name)) := by
  obtain ⟨valid, error, hvalid, hload⟩ := exists_launcherLoadServices l.userScope r.dirs
  obtain ⟨hclear, hcleared⟩ := h.clearTags
  obtain ⟨hloaded, hentries⟩ := hclear.loadAll (valid l.getuid)
  obtain ⟨hremove, hremoved⟩ := hloaded.removeServices
  obtain ⟨hadd, hadded⟩ := hremove.addServices
  have hscope : (l.clearTags.loadAll (valid l.getuid)).scope = l.scope := by
    obtain ⟨huser, huid⟩ := l.clearTags.loadAll_scope (valid l.getuid)
    exact Prod.ext huser huid
  have hscope' : (launcherRemoveServices (l.clearTags.loadAll (valid l.getuid))).scope = l.scope :=
    (Launcher.scope_foldl Launcher.scope_removeUntagged _).trans hscope
  have hscope'' : (launcherAddServices (launcherRemoveServices (l.clearTags.loadAll (valid l.getuid)))).scope = l.scope :=
    (Launcher.scope_foldl Launcher.scope_serviceAdd _).trans hscope'
  rw [launcherReloadConfig]
  by_cases hnotified : (!r.notified) = true
  · rw [if_pos hnotified]
    exact ⟨⟨h, rfl⟩, fun hfalse => by cases hfalse⟩
  rw [if_neg hnotified]
  by_cases hconfigured : (!r.configured) = true
  · rw [if_pos hconfigured]
    exact ⟨⟨hclear, rfl⟩, fun hfalse => by cases hfalse⟩
  rw [if_neg hconfigured, hload l.clearTags rfl, show l.clearTags.getuid = l.getuid from rfl]
  cases error with
  | some error => exact ⟨⟨hloaded, hscope⟩, fun hfalse => by cases hfalse⟩
  | none =>
    dsimp only
    by_cases hpolicy : (!r.policyLoaded) = true
    · rw [if_pos hpolicy]
      exact ⟨⟨hloaded, hscope⟩, fun hfalse => by cases hfalse⟩
    rw [if_neg hpolicy]
    by_cases happarmor : r.apparmorMissing = true
    · rw [if_pos happarmor]
      exact ⟨⟨hloaded, hscope⟩, fun hfalse => by cases hfalse⟩
    rw [if_neg happarmor]
    by_cases hset : (!r.policySet) = true
    · rw [if_pos hset]
      exact ⟨⟨hremove, hscope'⟩, fun hfalse => by cases hfalse⟩
    rw [if_neg hset]
    refine ⟨⟨hadd, hscope''⟩, fun _ name => ?_⟩
    rw [hadded, hremoved, hentries, hcleared, hvalid rfl, reloadedEntry_eq]

/-! ## Activations between reloads -/

/-- The name of a service and whether it runs. -/
def serviceRole (s : Service) : Bytes × Bool := (s.name, s.running)

/-- What systemd sends changes neither. -/
theorem serviceRole_dispatch (s : Service) (event : SystemdEvent) : serviceRole (serviceDispatch s event) = serviceRole s := by
  rw [serviceDispatch.eq_def]
  cases event with
  | loadUnitReply reply =>
    dsimp only
    split
    · rw [serviceWatchUnitLoadHandler.eq_def]
      cases reply with
      | error => rfl
      | ok path =>
        dsimp only
        split <;> rfl
    · rfl
  | startUnitReply reply =>
    dsimp only
    split
    · rw [serviceStartUnitHandler.eq_def]
      cases reply with
      | ok path => rfl
      | error error =>
        dsimp only
        rw [startUnitError]
        split_ifs <;> rfl
    · rfl
  | jobRemoved n path unit result =>
    dsimp only
    split
    · rw [serviceWatchJobsHandler]
      split
      · rfl
      · split_ifs <;> rfl
    · rfl
  | propertiesChanged interface properties =>
    dsimp only
    split
    · rw [serviceWatchUnitHandler]
      split_ifs
      · rfl
      · rfl
      · dsimp only
        split_ifs <;> rfl
    · rfl

/-- What is watched for an activation changes neither. -/
theorem serviceRole_watchActivation (uniqueName : Bytes) (s : Service) (activation : ℕ) :
    serviceRole (serviceWatchActivation uniqueName s activation) = serviceRole s := by
  rw [serviceWatchActivation]
  obtain ⟨s₁, hs₁⟩ : ∃ s₁, (s.check s.running).check s.activeUnit.isNone = s₁ := ⟨_, rfl⟩
  obtain ⟨unit, transient, count, hframe⟩ := serviceActiveUnit_frame uniqueName s₁ s₁.data
  rw [hs₁, hframe]
  have hrole : serviceRole s₁ = serviceRole s := by
    rw [← hs₁]
    rfl
  cases unit with
  | none => exact hrole
  | some unit => exact hrole

/-- An activation changes neither. -/
theorem serviceRole_activate (uniqueName : Bytes) (s : Service) (serial : ℕ) :
    serviceRole (serviceActivate uniqueName s serial) = serviceRole s := by
  rw [serviceActivate]
  dsimp only
  split
  · rfl
  · rw [serviceRole_watchActivation]
    rfl
/-- An activation, or its progress, keeps the launcher sound. -/
theorem Launcher.Sound.modify (h : l.Sound) (id : Bytes) {f : Service → Service} (hf : ∀ s, serviceRole (f s) = serviceRole s) :
    (l.modify id fun s => { s with service := f s.service }).Sound ∧
      (l.modify id fun s => { s with service := f s.service }).scope = l.scope := by
  rw [Launcher.modify]
  cases hs : l.services.find? id with
  | none => exact ⟨h, rfl⟩
  | some s => exact ⟨h.replace hs (congrArg Prod.fst (hf s.service)) (congrArg Prod.snd (hf s.service)), rfl⟩

/-- Every event keeps the launcher sound. -/
theorem Launcher.Sound.step (h : l.Sound) (op : LauncherOp) : (l.step op).Sound ∧ (l.step op).scope = l.scope := by
  cases op with
  | reload r => exact (h.reload r).1
  | activate id uniqueName serial => exact h.modify id fun s => serviceRole_activate uniqueName s serial
  | dispatch id event => exact h.modify id fun s => serviceRole_dispatch s event

/-- There are no services yet. -/
theorem Launcher.Sound.init (userScope : Bool) (getuid : UInt32) : (Launcher.init userScope getuid).Sound where
  filed _ _ hs := by cases hs
  named _ _ hid := by cases hid
  ids _ _ hs := by cases hs
  running _ _ hs _ := by cases hs
  registered _ _ hx := by cases hx
  assertFailed := rfl

/-- A launcher starts sound. -/
theorem Launcher.Sound.start (userScope : Bool) (getuid : UInt32) (user : Option UInt32) (dirs : List (Bytes × ServiceDir)) :
    (launcherStart userScope getuid user dirs).Sound := by
  obtain ⟨valid, error, -, hload⟩ := exists_launcherLoadServices userScope dirs
  rw [launcherStart, hload _ rfl]
  obtain ⟨filed, named, ids, running, registered, assertFailed⟩ :=
    ((Launcher.Sound.init userScope getuid).loadAll (valid getuid)).1.addServices.1
  exact ⟨filed, named, ids, running, registered, assertFailed⟩

/-! ## Reloads and fresh launchers -/

/-- The services are those of a launcher that is started afresh by a user, for every name the first valid file, and
the broker has registered their names with their uids. -/
structure Launcher.AsFresh (l : Launcher) (getuid : UInt32) (dirs : List (Bytes × ServiceDir)) : Prop where
  fresh : l.serviceList.Perm (launcherLoadServices (.init l.userScope getuid) dirs).1.serviceList
  first : ∀ name data, (name, data) ∈ l.serviceList ↔ (validServices l.userScope getuid dirs).lookup name = some data
  nodup : (l.serviceList.map Prod.fst).Nodup
  registered : l.registeredNames.Perm (l.serviceList.map fun s => (s.1, s.2.uid))

/-- No first valid file changes the uid of a name that is registered. -/
def Launcher.KeepsUids (l : Launcher) (dirs : List (Bytes × ServiceDir)) : Prop :=
  ∀ name uid data, (name, uid) ∈ l.registeredNames → (validServices l.userScope l.getuid dirs).lookup name = some data →
    data.uid = uid

/-- The launcher still has the uid that it was started with, or every first valid file names a user. -/
def Launcher.NamesUsers (l : Launcher) (getuid : UInt32) (dirs : List (Bytes × ServiceDir)) : Prop :=
  l.getuid = getuid ∨ ∀ name data, (validServices l.userScope l.getuid dirs).lookup name = some data → data.user.isSome = true

/-- The first valid files of launchers of different uids. -/
theorem lookup_validServices (userScope : Bool) (getuid getuid' : UInt32) (dirs : List (Bytes × ServiceDir)) (name : Bytes) :
    (validServices userScope getuid dirs).lookup name =
      ((validServices userScope getuid' dirs).lookup name).map fun data => (runAs getuid (name, data)).2 := by
  rw [validServices_runAs userScope getuid getuid']
  induction validServices userScope getuid' dirs with
  | nil => rfl
  | cons service rest ih =>
    obtain ⟨name', data⟩ := service
    rw [List.map_cons, List.lookup_cons, runAs, List.lookup_cons]
    dsimp only
    cases name == name' with
    | true => rfl
    | false => exact ih

/-- Launchers of different uids have the same first valid files if and only if all of these name a user. -/
theorem Launcher.namesUsers_iff (l : Launcher) (getuid : UInt32) (dirs : List (Bytes × ServiceDir)) :
    l.NamesUsers getuid dirs ↔
      ∀ name, (validServices l.userScope getuid dirs).lookup name = (validServices l.userScope l.getuid dirs).lookup name := by
  constructor
  · rintro (huid | husers) name
    · rw [huid]
    · rw [lookup_validServices l.userScope getuid l.getuid]
      cases hdata : (validServices l.userScope l.getuid dirs).lookup name with
      | none => rfl
      | some data => rw [Option.map_some, runAs, if_pos (husers name data hdata)]
  · intro hsame
    refine or_iff_not_imp_left.mpr fun huid name data hdata => by_contra fun huser => ?_
    have hown := lookup_validServices l.userScope l.getuid l.getuid dirs name
    have hother := lookup_validServices l.userScope getuid l.getuid dirs name
    rw [hdata, Option.map_some, runAs, if_neg huser] at hown
    rw [hsame, hdata, Option.map_some, runAs, if_neg huser] at hother
    have hboth := congrArg ServiceData.uid (Option.some.inj (hown.symm.trans hother))
    exact huid hboth

/-- A reload that succeeds has read all directories. -/
theorem launcherLoadServices_of_success {r : Reload} (hsuccess : (launcherReloadConfig l r).2 = .success) :
    (launcherLoadServices l.clearTags r.dirs).2 = none := by
  rw [launcherReloadConfig] at hsuccess
  by_cases hnotified : (!r.notified) = true
  · rw [if_pos hnotified] at hsuccess
    cases hsuccess
  rw [if_neg hnotified] at hsuccess
  by_cases hconfigured : (!r.configured) = true
  · rw [if_pos hconfigured] at hsuccess
    cases hsuccess
  rw [if_neg hconfigured] at hsuccess
  obtain ⟨x, hx⟩ : ∃ x, launcherLoadServices l.clearTags r.dirs = x := ⟨_, rfl⟩
  rw [hx] at hsuccess ⊢
  obtain ⟨l', error⟩ := x
  cases error with
  | none => rfl
  | some error => cases hsuccess

/-- A fresh launcher has the first valid file of every name. -/
theorem mem_serviceList_fresh (getuid : UInt32) {dirs : List (Bytes × ServiceDir)}
    (hok : (launcherLoadServices l dirs).2 = none) :
    (launcherLoadServices (.init l.userScope getuid) dirs).1.Sound ∧ ∀ name data,
      (name, data) ∈ (launcherLoadServices (.init l.userScope getuid) dirs).1.serviceList ↔
        (validServices l.userScope getuid dirs).lookup name = some data := by
  obtain ⟨valid, error, hvalid, hload⟩ := exists_launcherLoadServices l.userScope dirs
  rw [hload l rfl] at hok
  rw [hload (.init l.userScope getuid) rfl, ← hvalid hok]
  obtain ⟨hsound, hentry⟩ := (Launcher.Sound.init l.userScope getuid).loadAll (valid getuid)
  refine ⟨hsound, fun name data => ?_⟩
  have hnone : (Launcher.init l.userScope getuid).entry name = none := rfl
  rw [show (Launcher.init l.userScope getuid).getuid = getuid from rfl, hsound.mem_serviceList, hentry, hnone]
  cases (valid getuid).lookup name with
  | none =>
    constructor
    · intro hex
      obtain ⟨e, he, -⟩ := hex
      cases he
    · exact fun hfalse => by cases hfalse
  | some first =>
    constructor
    · intro hex
      obtain ⟨e, he, rfl⟩ := hex
      cases he
      rfl
    · intro hdata
      cases hdata
      exact ⟨_, rfl, rfl⟩

/-- A reload is as good as a fresh start if and only if the files change no uid that was registered, and name a user where
the launcher has another uid than a fresh one. -/
theorem Launcher.Sound.asFresh_iff (h : l.Sound) (getuid : UInt32) {r : Reload}
    (hsuccess : (launcherReloadConfig l r).2 = .success) :
    (launcherReloadConfig l r).1.AsFresh getuid r.dirs ↔ l.KeepsUids r.dirs ∧ l.NamesUsers getuid r.dirs := by
  obtain ⟨⟨hsound, hscope⟩, hentry⟩ := h.reload r
  replace hentry := hentry hsuccess
  obtain ⟨l', hl'⟩ : ∃ l', (launcherReloadConfig l r).1 = l' := ⟨_, rfl⟩
  rw [hl'] at hsound hscope hentry ⊢
  have huser : l'.userScope = l.userScope := congrArg Prod.fst hscope
  rw [Launcher.KeepsUids, Launcher.namesUsers_iff]
  obtain ⟨files, hfiles⟩ : ∃ files, validServices l.userScope l.getuid r.dirs = files := ⟨_, rfl⟩
  have hlist (name : Bytes) (data : ServiceData) : (name, data) ∈ l'.serviceList ↔ files.lookup name = some data := by
    rw [hsound.mem_serviceList, hentry, hfiles, reloadedEntry]
    constructor
    · intro hex
      obtain ⟨e, he, rfl⟩ := hex
      obtain ⟨data, hdata, rfl⟩ := Option.map_eq_some_iff.mp he
      exact hdata
    · intro hdata
      exact ⟨_, by rw [hdata]; rfl, rfl⟩
  have hnames (name : Bytes) (uid : UInt32) : (name, uid) ∈ l'.registeredNames ↔
      ∃ data, files.lookup name = some data ∧ ((l.entry name).bind (·.registered)).getD data.uid = uid := by
    rw [hsound.mem_registeredNames, hentry, hfiles, reloadedEntry]
    constructor
    · intro hex
      obtain ⟨e, he, hreg⟩ := hex
      obtain ⟨data, hdata, rfl⟩ := Option.map_eq_some_iff.mp he
      exact ⟨data, hdata, Option.some.inj hreg⟩
    · intro hex
      obtain ⟨data, hdata, hreg⟩ := hex
      exact ⟨_, by rw [hdata]; rfl, congrArg some hreg⟩
  rw [hfiles]
  constructor
  · intro hfresh
    refine ⟨fun name uid data hmem hdata => ?_, fun name => Option.ext fun data => ?_⟩
    swap
    · rw [← huser]
      exact (hfresh.first name data).symm.trans (hlist name data)
    obtain ⟨e, he, hreg⟩ := h.mem_registeredNames.mp hmem
    have hreg' : ((l.entry name).bind (·.registered)).getD data.uid = uid := by
      rw [he, Option.bind_some, hreg]
      rfl
    have hin := hfresh.registered.mem_iff.mp ((hnames name uid).mpr ⟨data, hdata, hreg'⟩)
    obtain ⟨service, hservice, heq⟩ := List.mem_map.mp hin
    cases heq
    have hsame := (hlist service.1 service.2).mp hservice
    rw [hdata] at hsame
    rw [Option.some.inj hsame]
  · rintro ⟨hkeeps, hsame⟩
    obtain ⟨hfreshSound, hfresh⟩ := mem_serviceList_fresh getuid (launcherLoadServices_of_success hsuccess)
    refine ⟨?_, ?_, hsound.nodup_serviceList, ?_⟩
    · rw [huser]
      refine (List.perm_ext_iff_of_nodup (List.Nodup.of_map _ hsound.nodup_serviceList)
        (List.Nodup.of_map _ hfreshSound.nodup_serviceList)).mpr fun service => ?_
      rw [hlist service.1 service.2, ← hsame]
      exact (hfresh service.1 service.2).symm
    · intro name data
      rw [huser, hsame]
      exact hlist name data
    · have hnodup : (l'.serviceList.map fun s => (s.1, s.2.uid)).Nodup := by
        refine List.Nodup.of_map Prod.fst ?_
        rw [List.map_map]
        exact hsound.nodup_serviceList
      refine (List.perm_ext_iff_of_nodup (List.Nodup.of_map _ hsound.nodup_registeredNames) hnodup).mpr fun name => ?_
      rw [hnames name.1 name.2, List.mem_map]
      have huids (data : ServiceData) (hdata : files.lookup name.1 = some data) :
          ((l.entry name.1).bind (·.registered)).getD data.uid = data.uid := by
        cases hreg : (l.entry name.1).bind (·.registered) with
        | none => rfl
        | some uid =>
          obtain ⟨e, he, hreg⟩ := Option.bind_eq_some_iff.mp hreg
          exact (hkeeps name.1 uid data (h.mem_registeredNames.mpr ⟨e, he, hreg⟩) hdata).symm
      constructor
      · intro hex
        obtain ⟨data, hdata, hreg⟩ := hex
        rw [huids data hdata] at hreg
        exact ⟨(name.1, data), (hlist name.1 data).mpr hdata, Prod.ext rfl hreg⟩
      · intro hex
        obtain ⟨service, hservice, rfl⟩ := hex
        have hdata := (hlist service.1 service.2).mp hservice
        exact ⟨service.2, hdata, huids service.2 hdata⟩

/-- A directory with one service, of a user if one is given. -/
def oneService (user : Option Bytes) (uid : UInt32) : List (Bytes × ServiceDir) :=
  [(lit "/usr", .entries [(lit "a.b.service", .group (some (lit "a.b")) none none user (.ok []) (.ok uid))])]

/-- A reload that finds some directories and has no other trouble. -/
def plainReload (dirs : List (Bytes × ServiceDir)) : Reload := ⟨true, true, dirs, true, false, true, true⟩

/-- Once the launcher of root runs as another user, a new service without a user is not what a fresh launcher has. -/
theorem not_asFresh_dropped :
    (launcherReloadConfig (launcherStart false 0 (some 81) []) (plainReload (oneService none 0))).2 = .success ∧
      ¬ (launcherReloadConfig (launcherStart false 0 (some 81) []) (plainReload (oneService none 0))).1.AsFresh 0
        (oneService none 0) := by
  have hsuccess : (launcherReloadConfig (launcherStart false 0 (some 81) []) (plainReload (oneService none 0))).2 =
      .success := by
    rfl
  refine ⟨hsuccess, fun hfresh => ?_⟩
  have hnames := (((Launcher.Sound.start false 0 (some 81) []).asFresh_iff 0 hsuccess).mp hfresh).2
  have hfile : (validServices false 81 (oneService none 0)).lookup (lit "a.b") =
      some ⟨some (lit "/usr/a.b.service"), none, none, 81, []⟩ := by
    rfl
  exact absurd (hnames.resolve_left (by decide) _ _ hfile) (by decide)

end reload

end DbusBroker.Launch
