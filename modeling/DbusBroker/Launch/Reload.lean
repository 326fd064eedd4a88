import DbusBroker.Dbus.Protocol
import DbusBroker.Launch.Service
import DbusBroker.Lib.Run
import DbusBroker.Lib.SearchTree

/-!
# Reloads of the launcher

`launcher_reload_config` and what it calls. The services of the launcher are in a tree by their
id and in a tree by their name, and are loaded in place: a service whose file is still there is
tagged and gets its data anew, and a service that is not tagged in the end is removed. A service
is registered with the broker once, under an object path made of its id.

The calls to the broker succeed, so it has a name for every object path that was added and not
released. What is read of a service file is given with the file.
-/

namespace DbusBroker.Launch

open Std

/-! ## Service files -/

/-- The errors of the launcher: `LAUNCHER_E_INVALID_SERVICE_FILE`, and a negative error code. -/
inductive LauncherError where
  | invalidServiceFile
  | failed
  deriving DecidableEq, Repr

/-- What `launcher_ini_reader_parse_file` makes of a service file, with the arguments that `c_shquote_parse_argv` and the
uid that `nss_cache_get_uid` make of its entries. -/
inductive ServiceFile where
  | invalid
  | failed
  | group (name unit exec user : Option Bytes) (argv : Except LauncherError (List Bytes))
      (uid : Except LauncherError UInt32)

/-- A directory of service files: `ENOENT` or `ENOTDIR`, `EACCES`, another error, or the files that `fs_dir_list` lists. -/
inductive ServiceDir where
  | missing
  | denied
  | failed
  | entries (files : List (Bytes × ServiceFile))

/-- The first part of `launcher_load_service_file`: the name and the data of a service. -/
def launcherParseService (userScope : Bool) (getuid : UInt32) (path basename : Bytes) :
    ServiceFile → Except LauncherError (Bytes × ServiceData)
  | .invalid => .error .invalidServiceFile
  | .failed => .error .failed
  | .group none _ _ _ _ _ => .error .invalidServiceFile
  | .group (some name) unit exec user argv uid => do
    if !dbusValidateName name then throw .invalidServiceFile
    if name ≠ basename ∧ !userScope then throw .invalidServiceFile
    let argv ← if exec.isSome then argv else pure []
    let uid ← if user.isSome then uid else pure getuid
    pure (name, ⟨some path, unit, user, uid, argv⟩)

/-- The name of a service file, without `.service`. -/
def serviceBasename (entry : Bytes) : Option Bytes :=
  if (lit ".service").length < entry.length ∧ lit ".service" <:+ entry then
    some (entry.take (entry.length - (lit ".service").length))
  else none

/-! ## Services -/

/-- A service in the trees of the launcher. -/
structure LoadedService where
  reloadTag : Bool
  service : Service

/-- The parts of `Launcher` that reloads use, and the names that the broker has registered for it. -/
structure Launcher where
  services : SearchTree strcmp LoadedService
  servicesByName : SearchTree strcmp Bytes
  serviceIds : ℕ
  userScope : Bool
  getuid : UInt32
  broker : SearchTree strcmp (Bytes × UInt32)
  assertFailed : Bool

/-- `launcher_new`. -/
def Launcher.init (userScope : Bool) (getuid : UInt32) : Launcher := ⟨.empty, .empty, 0, userScope, getuid, .empty, false⟩

/-- The object path of a service. -/
def serviceObjectPath (id : Bytes) : Bytes := lit "/org/bus1/DBus/Name/" ++ id

/-- Change a service. -/
def Launcher.modify (l : Launcher) (id : Bytes) (f : LoadedService → LoadedService) : Launcher :=
  match l.services.find? id with
  | none => l
  | some s => { l with services := l.services.insert id (f s) }

/-- `service_new`, and the tag that `launcher_load_service_file` sets. -/
def Launcher.serviceNew (l : Launcher) (name : Bytes) (data : ServiceData) : Launcher :=
  let id := natToString (l.serviceIds + 1)
  { l with
    serviceIds := l.serviceIds + 1
    assertFailed := l.assertFailed || (l.services.find? id).isSome
    services := l.services.insert id ⟨true, { DbusBroker.serviceNew name data with running := false }⟩
    servicesByName := l.servicesByName.insert name id }

/-- `service_free`. -/
def Launcher.serviceFree (l : Launcher) (id : Bytes) : Launcher :=
  match l.services.find? id with
  | none => l
  | some s => { l with services := l.services.erase id, servicesByName := l.servicesByName.erase s.service.name }

/-- `service_add`. -/
def Launcher.serviceAdd (l : Launcher) (id : Bytes) : Launcher :=
  match l.services.find? id with
  | none => l
  | some s =>
    if s.service.running then l
    else
      { l with
        services := l.services.insert id { s with service := { s.service with running := true } }
        broker := l.broker.insert (serviceObjectPath id) (s.service.name, s.service.data.uid) }

/-- `service_remove`. -/
def Launcher.serviceRemove (l : Launcher) (id : Bytes) : Launcher :=
  match l.services.find? id with
  | none => l
  | some s =>
    if !s.service.running then l
    else
      { l with
        services := l.services.insert id { s with service := { serviceDiscardActivation s.service with running := false } }
        broker := l.broker.erase (serviceObjectPath id) }

/-! ## Loading -/

/-- The second part of `launcher_load_service_file`. -/
def Launcher.loadService (l : Launcher) (name : Bytes) (data : ServiceData) : Launcher × Option LauncherError :=
  match l.servicesByName.find? name with
  | none => (l.serviceNew name data, none)
  | some id =>
    match l.services.find? id with
    | none => (l, none)
    | some old =>
      if old.reloadTag then (l, some .invalidServiceFile)
      else ({ l with services := l.services.insert id ⟨true, serviceUpdate old.service data⟩ }, none)

/-- `launcher_load_service_file`. -/
def launcherLoadServiceFile (l : Launcher) (path basename : Bytes) (file : ServiceFile) : Launcher × Option LauncherError :=
  match launcherParseService l.userScope l.getuid path basename file with
  | .error error => (l, some error)
  | .ok (name, data) => l.loadService name data

/-- The loop of `launcher_load_service_dir`. -/
def launcherLoadServiceFiles (dirpath : Bytes) : Launcher → List (Bytes × ServiceFile) → Launcher × Option LauncherError
  | l, [] => (l, none)
  | l, (entry, file) :: rest =>
    match serviceBasename entry with
    | none => launcherLoadServiceFiles dirpath l rest
    | some basename =>
      match launcherLoadServiceFile l (dirpath ++ [byte '/'] ++ entry) basename file with
      | (l, some .failed) => (l, some .failed)
      | (l, _) => launcherLoadServiceFiles dirpath l rest

/-- `launcher_load_service_dir`. -/
def launcherLoadServiceDir (l : Launcher) (dirpath : Bytes) : ServiceDir → Launcher × Option LauncherError
  | .missing => (l, none)
  | .denied => (l, none)
  | .failed => (l, some .failed)
  | .entries files => launcherLoadServiceFiles dirpath l files

/-- `launcher_load_services` of the directories of a configuration. -/
def launcherLoadServices : Launcher → List (Bytes × ServiceDir) → Launcher × Option LauncherError
  | l, [] => (l, none)
  | l, (dirpath, dir) :: rest =>
    match launcherLoadServiceDir l dirpath dir with
    | (l, some error) => (l, some error)
    | (l, none) => launcherLoadServices l rest

/-! ## Reloading -/

/-- `launcher_add_services`. -/
def launcherAddServices (l : Launcher) : Launcher := l.services.keys.foldl Launcher.serviceAdd l

/-- The loop body of `launcher_remove_services`. -/
def Launcher.removeUntagged (l : Launcher) (id : Bytes) : Launcher :=
  match l.services.find? id with
  | none => l
  | some s => if s.reloadTag then l else (l.serviceRemove id).serviceFree id

/-- `launcher_remove_services`. -/
def launcherRemoveServices (l : Launcher) : Launcher := l.services.keys.foldl Launcher.removeUntagged l

/-- No service is tagged. -/
def Launcher.clearTags (l : Launcher) : Launcher :=
  { l with services := l.services.mapValues fun s => { s with reloadTag := false } }

/-- What a reload finds: whether its steps succeed, and the service directories of the configuration. -/
structure Reload where
  notified : Bool
  configured : Bool
  dirs : List (Bytes × ServiceDir)
  policyLoaded : Bool
  apparmorMissing : Bool
  policySet : Bool
  ready : Bool

/-- What a reload ends with. The launcher exits if it needs AppArmor and does not have it. -/
inductive ReloadResult where
  | success
  | exits
  | failed
  deriving DecidableEq, Repr

/-- `launcher_reload_config`. -/
def launcherReloadConfig (l : Launcher) (r : Reload) : Launcher × ReloadResult :=
  if !r.notified then (l, .failed)
  else if !r.configured then (l.clearTags, .failed)
  else
    match launcherLoadServices l.clearTags r.dirs with
    | (l, some _) => (l, .failed)
    | (l, none) =>
      if !r.policyLoaded then (l, .failed)
      else if r.apparmorMissing then (l, .exits)
      else if !r.policySet then (launcherRemoveServices l, .failed)
      else (launcherAddServices (launcherRemoveServices l), if r.ready then .success else .failed)

/-- `util_drop_permissions`, if the configuration names a user: from now on `getuid` returns its uid. -/
def Launcher.dropPermissions (l : Launcher) (uid : Option UInt32) : Launcher := { l with getuid := uid.getD l.getuid }

/-- `launcher_run` up to the event loop: the services are loaded and added, and then the permissions are dropped. -/
def launcherStart (userScope : Bool) (getuid : UInt32) (uid : Option UInt32) (dirs : List (Bytes × ServiceDir)) : Launcher :=
  (launcherAddServices (launcherLoadServices (.init userScope getuid) dirs).1).dropPermissions uid

/-- What happens to the services of a launcher: reloads, activations and what systemd sends. -/
inductive LauncherOp where
  | reload (r : Reload)
  | activate (id uniqueName : Bytes) (serial : ℕ)
  | dispatch (id : Bytes) (event : SystemdEvent)

/-- One event. -/
def Launcher.step (l : Launcher) : LauncherOp → Launcher
  | .reload r => (launcherReloadConfig l r).1
  | .activate id uniqueName serial => l.modify id fun s => { s with service := serviceActivate uniqueName s.service serial }
  | .dispatch id event => l.modify id fun s => { s with service := serviceDispatch s.service event }

end DbusBroker.Launch
