import DbusBroker.Lib.Heap
import DbusBroker.Util.User
import DbusBroker.Dbus.Message

/-!
# Reload requests of the controller

The requests to reload the configuration in `broker/controller.c`. Each is an object under a
serial of its own, charged to the user of the broker on behalf of the caller. The objects
have an address, as one that exceeds the quota is not in the tree.
-/

namespace DbusBroker

open Std

/-- `ControllerReload`. -/
structure ControllerReload where
  charge : UserCharge
  senderId : Option ℕ
  senderSerial : UInt32
  serial : UInt32

/-- The part of `Controller` for reload requests. -/
structure Controller where
  serial : UInt32
  reloadTree : SearchTree (compare : UInt32 → UInt32 → Ordering) ℕ
  reloads : Heap ControllerReload

/-- What the controller functions return. -/
inductive ControllerResult where
  | success
  | serialExhausted
  | quota
  deriving DecidableEq, Repr

/-- No reload was requested. -/
def Controller.init : Controller := ⟨0, .empty, .empty⟩

/-- The loop of `controller_reload_new`: the next serial that is not in use, if one is found in time, and
the last serial that was tried. -/
def controllerNextSerial (tree : SearchTree (compare : UInt32 → UInt32 → Ordering) ℕ) :
    ℕ → UInt32 → Option UInt32 × UInt32
  | 0, serial => (none, serial)
  | n + 1, serial =>
    let serial := serial + 1
    if serial = 0 then controllerNextSerial tree n serial
    else if (tree.find? serial).isNone then (some serial, serial)
    else controllerNextSerial tree n serial

/-- `controller_reload_new`, where `broker` is the user of the broker. A request that exceeds the quota is not
in the tree, and not freed. -/
def controllerReloadNew (sizes : Sizes) (users : UserRegistry) (c : Controller) (broker : Option Uid)
    (user : Option Uid) : UserRegistry × Controller × Option ℕ × ControllerResult :=
  match controllerNextSerial c.reloadTree (2 ^ 32 - 1) c.serial with
  | (none, last) => (users, { c with serial := last }, none, .serialExhausted)
  | (some serial, last) =>
    let reload := c.reloads.next
    let (users, charge, r) := userCharge users broker .init user userSlotBytes (UInt32.ofNat sizes.controllerReload)
    let c := { c with serial := last, reloads := c.reloads.alloc ⟨charge, none, 0, serial⟩ }
    match r with
    | .quota => (users, c, none, .quota)
    | .success => (users, { c with reloadTree := c.reloadTree.insert serial reload }, some reload, .success)

/-- `controller_reload_free`. -/
def controllerReloadFree (users : UserRegistry) (c : Controller) (reload : ℕ) : UserRegistry × Controller :=
  match c.reloads.read reload with
  | none => (users, c)
  | some r =>
    let (users, _) := userChargeDeinit users r.charge
    let reloadTree := if c.reloadTree.find? r.serial = some reload then c.reloadTree.erase r.serial else c.reloadTree
    (users, { c with reloadTree := reloadTree, reloads := c.reloads.free reload })

end DbusBroker
