import DbusBroker.Util.Systemd
import Mathlib.Data.Nat.Notation

/-!
# Services of the launcher

The service object of `launch/service.c`. It starts the unit of an activatable name when the
broker asks for it, and reports to the broker when the start fails. Its progress is spread over
three bus slots, the path of a job and the name of a unit. A slot delivers events of systemd
until it is dropped.

A failed assertion is remembered and the code goes on as with assertions disabled. For the
statements about runs, every slot and every job carries the number of the `Activate` signal
whose handling led to it, and every `Reset` call is recorded with what led to it.
-/

namespace DbusBroker

/-- `CONTROLLER_NAME_ERROR_*`. -/
inductive NameError where
  | destructiveTransaction
  | unknownUnit
  | maskedUnit
  | invalidUnit
  | unitFailure
  | startupFailure
  | startupSkipped
  | nameReleased
  deriving DecidableEq, Repr

/-- `controller_name_error_to_string`. -/
def controllerNameErrorToString : NameError → Bytes
  | .destructiveTransaction => lit "org.bus1.DBus.Name.Error.DestructiveTransaction"
  | .unknownUnit => lit "org.bus1.DBus.Name.Error.UnknownUnit"
  | .maskedUnit => lit "org.bus1.DBus.Name.Error.MaskedUnit"
  | .invalidUnit => lit "org.bus1.DBus.Name.Error.InvalidUnit"
  | .unitFailure => lit "org.bus1.DBus.Name.Error.UnitFailure"
  | .startupFailure => lit "org.bus1.DBus.Name.Error.StartupFailure"
  | .startupSkipped => lit "org.bus1.DBus.Name.Error.StartupSkipped"
  | .nameReleased => lit "org.bus1.DBus.Name.Error.NameReleased"

/-- The errors in the order of `controller_name_error_table`. -/
def controllerNameErrors : List NameError :=
  [.destructiveTransaction, .unknownUnit, .maskedUnit, .invalidUnit, .unitFailure, .startupFailure,
    .startupSkipped, .nameReleased]

/-- `controller_name_error_from_string`. -/
def controllerNameErrorFromString (error : Bytes) : Option NameError :=
  controllerNameErrors.find? fun e => stringEqual (some error) (some (controllerNameErrorToString e))

/-- `ServiceData`. -/
structure ServiceData where
  path : Option Bytes
  unit : Option Bytes
  user : Option Bytes
  uid : UInt32
  argv : List Bytes
  deriving DecidableEq

/-- A call of the launcher to the manager of systemd. -/
inductive ManagerCall where
  | loadUnit (unit : Bytes)
  | startUnit (unit mode : Bytes)
  | startTransientUnit (unit mode : Bytes) (execStart : Bytes × List Bytes × Bool)
      (killMode collectMode : Bytes) (user : Option Bytes)
  deriving DecidableEq

/-- What the slot `slot_watch_unit` is open for: the reply to a `LoadUnit` call, or the signals of a unit. -/
inductive WatchUnit where
  | load
  | properties (objectPath : Bytes)
  deriving DecidableEq

/-- A bus slot, with the number of the `Activate` signal it was opened for. -/
structure BusSlot where
  activation : ℕ
  deriving DecidableEq

/-- The path of a job, with the number of the `Activate` signal it was started for. -/
structure ServiceJob where
  path : Bytes
  activation : ℕ
  deriving DecidableEq

/-- A `Reset` call to the broker, with the serials of the `Activate` signals received before it, and the
numbers of those that led to it. -/
structure ResetCall where
  serial : ℕ
  error : Bytes
  received : List ℕ
  causes : List ℕ
  deriving DecidableEq

/-- `Service`, with the calls it made and the serials of the `Activate` signals it got. -/
structure Service where
  name : Bytes
  slotWatchJobs : Option BusSlot
  slotWatchUnit : Option (WatchUnit × BusSlot)
  slotStartUnit : Option BusSlot
  nMissingUnit : ℕ
  nMaskedUnit : ℕ
  lastSerial : ℕ
  activeData : Option ServiceData
  activeUnit : Option Bytes
  job : Option ServiceJob
  running : Bool
  isTransient : Bool
  instanceCount : ℕ
  data : ServiceData
  received : List ℕ
  resets : List ResetCall
  calls : List ManagerCall
  assertFailed : Bool

/-- `service_new` and then `service_add`. -/
def serviceNew (name : Bytes) (data : ServiceData) : Service where
  name := name
  slotWatchJobs := none
  slotWatchUnit := none
  slotStartUnit := none
  nMissingUnit := 0
  nMaskedUnit := 0
  lastSerial := 0
  activeData := none
  activeUnit := none
  job := none
  running := true
  isTransient := false
  instanceCount := 0
  data := data
  received := []
  resets := []
  calls := []
  assertFailed := false

/-- `service_update`. -/
def serviceUpdate (service : Service) (data : ServiceData) : Service := { service with data := data }

/-- `assert`, which goes on in a build without assertions. -/
def Service.check (service : Service) (ok : Bool) : Service :=
  { service with assertFailed := service.assertFailed || !ok }

/-- `service_discard_activation`. -/
def serviceDiscardActivation (service : Service) : Service :=
  { service with
    job := none
    activeUnit := none
    activeData := none
    isTransient := false
    slotStartUnit := none
    slotWatchUnit := none
    slotWatchJobs := none }

/-- `service_reset_activation`, on an event of the given activations. -/
def serviceResetActivation (service : Service) (causes : List ℕ) (error : NameError) : Service :=
  let service := serviceDiscardActivation service
  let call : ResetCall := ⟨service.lastSerial, controllerNameErrorToString error, service.received, causes⟩
  { service with resets := service.resets ++ [call] }

/-- `service_watch_jobs_handler`. -/
def serviceWatchJobsHandler (service : Service) (slot : BusSlot) (path result : Bytes) : Service :=
  match service.job with
  | none => service
  | some job =>
    if strcmp path job.path ≠ .eq then service
    else if result = lit "done" ∨ result = lit "skipped" then { service with job := none, slotWatchJobs := none }
    else
      serviceResetActivation service [slot.activation, job.activation]
        (if result = lit "skipped" then .startupSkipped else .startupFailure)

/-- `service_watch_jobs`. -/
def serviceWatchJobs (service : Service) (activation : ℕ) : Service :=
  let service := (service.check service.slotWatchJobs.isNone).check service.job.isNone
  { service with slotWatchJobs := some ⟨activation⟩ }

/-- The error of the broker for an error of `StartUnit`, and the counters of what is logged once. -/
def startUnitError (service : Service) (error : Bytes) : Service × NameError :=
  if error = lit "org.freedesktop.systemd1.TransactionIsDestructive" then (service, .destructiveTransaction)
  else if error = lit "org.freedesktop.systemd1.NoSuchUnit" then
    ({ service with nMissingUnit := service.nMissingUnit + 1 }, .unknownUnit)
  else if error = lit "org.freedesktop.systemd1.UnitMasked" then
    ({ service with nMaskedUnit := service.nMaskedUnit + 1 }, .maskedUnit)
  else (service, .invalidUnit)

/-- `service_start_unit_handler` of the path of a job, or of the name of an error. -/
def serviceStartUnitHandler (service : Service) (slot : BusSlot) (reply : Except Bytes Bytes) : Service :=
  let service := { service with slotStartUnit := none }
  match reply with
  | .ok path =>
    let service := service.check service.job.isNone
    { service with job := some ⟨path, slot.activation⟩ }
  | .error error =>
    let (service, nameError) := startUnitError service error
    serviceResetActivation service [slot.activation] nameError

/-- `service_start_unit`. -/
def serviceStartUnit (service : Service) (activation : ℕ) : Service :=
  let call := ManagerCall.startUnit (service.activeUnit.getD []) (lit "replace")
  { service with calls := service.calls ++ [call], slotStartUnit := some ⟨activation⟩ }

/-- The decimal digits of a number, as a string. -/
def natToString (n : ℕ) : Bytes := (Nat.toDigits 10 n).map byte

/-- `service_start_transient_unit`. -/
def serviceStartTransientUnit (service : Service) (activation : ℕ) : Service :=
  let argv := (service.activeData.map (·.argv)).getD []
  let user := service.activeData.bind fun data => data.user.map fun _ => natToString data.uid.toNat
  let call := ManagerCall.startTransientUnit (service.activeUnit.getD []) (lit "replace")
    (argv.headD [], argv, false) (lit "process") (lit "inactive-or-failed") user
  { service with calls := service.calls ++ [call], slotStartUnit := some ⟨activation⟩ }

/-- A property in a `PropertiesChanged` signal. -/
inductive UnitProperty where
  | activeState (value : Bytes)
  | conditionResult (value : Bool)
  | other (property : Bytes)
  deriving DecidableEq

/-- The loop of `service_watch_unit_handler`: the last value of either property. -/
def unitProperties (properties : List UnitProperty) : Option Bytes × Bool :=
  properties.foldl
    (fun s property => match property with
      | .activeState value => (some value, s.2)
      | .conditionResult value => (s.1, value)
      | .other _ => s)
    (none, true)

/-- `service_watch_unit_handler`. -/
def serviceWatchUnitHandler (service : Service) (slot : BusSlot) (interface : Bytes)
    (properties : List UnitProperty) : Service :=
  -- as long as the job is watched, its end says whether the start failed
  if service.slotWatchJobs.isSome then service
  else if interface ≠ lit "org.freedesktop.systemd1.Unit" then service
  else
    let (value, conditionResult) := unitProperties properties
    if value = some (lit "failed") ∨ !conditionResult then
      serviceResetActivation service [slot.activation] .unitFailure
    else service

/-- `service_watch_unit_load_handler` of the path of the unit, or of an error. -/
def serviceWatchUnitLoadHandler (service : Service) (slot : BusSlot) (reply : Except Bytes Bytes) : Service :=
  let service := { service with slotWatchUnit := none }
  match reply with
  | .error _ => serviceResetActivation service [slot.activation] .unitFailure
  | .ok objectPath =>
    let service := { service with slotWatchUnit := some (.properties objectPath, ⟨slot.activation⟩) }
    if service.isTransient then serviceStartTransientUnit service slot.activation
    else serviceStartUnit service slot.activation

/-- `service_watch_unit`. -/
def serviceWatchUnit (service : Service) (activation : ℕ) (unit : Bytes) : Service :=
  let service := service.check service.slotWatchUnit.isNone
  { service with calls := service.calls ++ [.loadUnit unit], slotWatchUnit := some (.load, ⟨activation⟩) }

/-- The unit that `service_activate` starts for the data of a service. -/
def serviceActiveUnit (uniqueName : Bytes) (service : Service) (data : ServiceData) : Service :=
  match data.unit with
  | some unit => { service with activeUnit := some unit }
  | none =>
    if data.argv.length > 0 then
      { service with
        activeUnit := some (lit "dbus-" ++ uniqueName ++ lit "-" ++ systemdEscapeUnit service.name ++ lit "@" ++
          natToString service.instanceCount ++ lit ".service")
        instanceCount := service.instanceCount + 1
        isTransient := true }
    -- the service is expected to appear on its own
    else service

/-- The choice of a unit touches its name only. -/
theorem serviceActiveUnit_frame (uniqueName : Bytes) (s : Service) (data : ServiceData) :
    ∃ unit transient count, serviceActiveUnit uniqueName s data =
      { s with activeUnit := unit, isTransient := transient, instanceCount := count } := by
  rw [serviceActiveUnit.eq_def]
  split
  · exact ⟨_, _, _, rfl⟩
  · split_ifs
    · exact ⟨_, _, _, rfl⟩
    · exact ⟨_, _, _, rfl⟩

/-- What `service_activate` does for a service other than systemd itself. -/
def serviceWatchActivation (uniqueName : Bytes) (service : Service) (activation : ℕ) : Service :=
  let service := (service.check service.running).check service.activeUnit.isNone
  let service := serviceActiveUnit uniqueName service service.data
  match service.activeUnit with
  | none => service
  | some unit => serviceWatchUnit (serviceWatchJobs service activation) activation unit

/-- `service_activate`, where `uniqueName` is the name of the launcher on its bus. -/
def serviceActivate (uniqueName : Bytes) (service : Service) (serial : ℕ) : Service :=
  let service := serviceDiscardActivation service
  let service := { service with
    lastSerial := serial, activeData := some service.data, received := service.received ++ [serial] }
  if service.name = lit "org.freedesktop.systemd1" then service
  else serviceWatchActivation uniqueName service service.received.length

/-- What systemd sends to the launcher. -/
inductive SystemdEvent where
  | loadUnitReply (reply : Except Bytes Bytes)
  | startUnitReply (reply : Except Bytes Bytes)
  | jobRemoved (id : UInt32) (path unit result : Bytes)
  | propertiesChanged (interface : Bytes) (properties : List UnitProperty)

/-- An event is delivered through the slot that is open for it, and not at all if there is none. -/
def serviceDispatch (service : Service) (event : SystemdEvent) : Service :=
  match event with
  | .loadUnitReply reply =>
    match service.slotWatchUnit with
    | some (.load, slot) => serviceWatchUnitLoadHandler service slot reply
    | _ => service
  | .startUnitReply reply =>
    match service.slotStartUnit with
    | some slot => serviceStartUnitHandler service slot reply
    | none => service
  | .jobRemoved _ path _ result =>
    match service.slotWatchJobs with
    | some slot => serviceWatchJobsHandler service slot path result
    | none => service
  | .propertiesChanged interface properties =>
    match service.slotWatchUnit with
    | some (.properties _, slot) => serviceWatchUnitHandler service slot interface properties
    | _ => service

end DbusBroker
