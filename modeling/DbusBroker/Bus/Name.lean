import DbusBroker.Bus.MatchRegistry
import DbusBroker.Util.User

/-!
# The name registry

The names of `bus/name.c`. A name is live while something refers to it: an ownership in its
queue, a match rule, an activation, a snapshot or a pending notification. Its queue lists
the ownerships of the peers that want it, the first of which is the primary one.

A live name is always linked in the registry, so a pointer to it is its string. Ownerships
are objects of their own with an address, since the queue of the name and the tree of the
owner refer to the same object. The ownership trees are ordered by name rather than by the
address of the name. A name also embeds two match registries; whether they are empty when it
is destroyed is a parameter here. Owners are of any type `ο`.
-/

namespace DbusBroker

open Std

/-- `DBUS_NAME_FLAG_ALLOW_REPLACEMENT`. -/
def nameFlagAllowReplacement : UInt32 := 1

/-- `DBUS_NAME_FLAG_REPLACE_EXISTING`. -/
def nameFlagReplaceExisting : UInt32 := 2

/-- `DBUS_NAME_FLAG_DO_NOT_QUEUE`. -/
def nameFlagDoNotQueue : UInt32 := 4

/-- A flag is set in a word of flags. -/
def hasFlag (flags flag : UInt32) : Bool := flags &&& flag != 0

/-- What the name registry returns. -/
inductive NameResult where
  | success
  | notFound
  | notOwner
  | quota
  | alreadyOwner
  | inQueue
  | exists
  deriving DecidableEq, Repr

/-- `NameChange`: the primary owner of a name changed. A change that names a name refers to it. -/
structure NameChange (ο : Type) where
  name : Option Bytes
  oldOwner : Option ο
  newOwner : Option ο
  deriving DecidableEq

/-- `NAME_CHANGE_INIT`. -/
def NameChange.init {ο : Type} : NameChange ο := ⟨none, none, none⟩

/-- `NameOwnership`. -/
structure NameOwnership (ο : Type) where
  owner : ο
  name : Bytes
  flags : UInt32
  charge : UserCharge

/-- `Name`, with the path of its activation and the addresses of its ownerships. -/
structure Name where
  nRefs : ℕ
  activation : Option Bytes
  ownershipList : List ℕ

/-- `NAME_INIT`. -/
def Name.init : Name := ⟨1, none, []⟩

/-- `NameOwner`, with the address of its ownership of each name. -/
structure NameOwner where
  nOwnerPrimaries : ℕ
  ownershipTree : StringTree ℕ

/-- `NAME_OWNER_INIT`. -/
def NameOwner.init : NameOwner := ⟨0, .empty⟩

/-- `NameRegistry`, with the owners and the ownership objects. -/
structure NameRegistry (ο : Type) where
  nPrimaries : ℕ
  nPrimariesPeak : ℕ
  nOwnerPrimariesPeak : ℕ
  nameTree : StringTree Name
  owners : ο → NameOwner
  ownerships : SearchTree (compare : ℕ → ℕ → Ordering) (NameOwnership ο)
  nextOwnership : ℕ
  assertFailed : Bool

namespace NameRegistry

variable {ο : Type}

/-- `NAME_REGISTRY_INIT`. -/
def init : NameRegistry ο := ⟨0, 0, 0, .empty, fun _ => .init, .empty, 0, false⟩

/-- Record the outcome of an assertion. -/
def check (w : NameRegistry ο) (condition : Bool) : NameRegistry ο :=
  { w with assertFailed := w.assertFailed || !condition }

/-- Write back a name. -/
def setName (w : NameRegistry ο) (name : Bytes) (n : Name) : NameRegistry ο :=
  { w with nameTree := w.nameTree.insert name n }

/-- Write back an ownership. -/
def setOwnership (w : NameRegistry ο) (id : ℕ) (o : NameOwnership ο) : NameRegistry ο :=
  { w with ownerships := w.ownerships.insert id o }

/-- The addresses in the queue of a name. -/
def ownershipList (w : NameRegistry ο) (name : Bytes) : List ℕ :=
  match w.nameTree.find? name with
  | some n => n.ownershipList
  | none => []

/-- Rewrite the queue of a name. -/
def setOwnershipList (w : NameRegistry ο) (name : Bytes) (l : List ℕ) : NameRegistry ο :=
  match w.nameTree.find? name with
  | some n => w.setName name { n with ownershipList := l }
  | none => w.check false

/-- The owner of an ownership. -/
def ownerOf (w : NameRegistry ο) (id : ℕ) : Option ο := (w.ownerships.find? id).map (·.owner)

variable [DecidableEq ο]

/-- Rewrite the ownership tree of an owner. -/
def setOwnershipTree (w : NameRegistry ο) (o : ο) (t : StringTree ℕ) : NameRegistry ο :=
  { w with owners := Function.update w.owners o { w.owners o with ownershipTree := t } }

/-- Rewrite the number of names an owner is the primary owner of. -/
def setOwnerPrimaries (w : NameRegistry ο) (o : ο) (n : ℕ) : NameRegistry ο :=
  { w with owners := Function.update w.owners o { w.owners o with nOwnerPrimaries := n } }

end NameRegistry

section Functions

variable {ο : Type} [DecidableEq ο]

/-- `name_ref`. -/
def nameRef (w : NameRegistry ο) (name : Bytes) : NameRegistry ο :=
  match w.nameTree.find? name with
  | some n => (w.check (0 < n.nRefs)).setName name { n with nRefs := n.nRefs + 1 }
  | none => w.check false

/-- `name_free`, where `idle` says which names have no match rules linked to them. -/
def nameFree (idle : Bytes → Bool) (w : NameRegistry ο) (name : Bytes) (n : Name) : NameRegistry ο :=
  { w.check (n.ownershipList.isEmpty && n.activation.isNone && idle name) with
    nameTree := w.nameTree.erase name }

/-- `name_unref`. -/
def nameUnref (idle : Bytes → Bool) (w : NameRegistry ο) (name : Bytes) : NameRegistry ο :=
  match w.nameTree.find? name with
  | some n =>
    if n.nRefs = 1 then nameFree idle w name n
    else (w.check (0 < n.nRefs)).setName name { n with nRefs := n.nRefs - 1 }
  | none => w.check false

/-- `name_change_deinit`. -/
def nameChangeDeinit (idle : Bytes → Bool) (w : NameRegistry ο) (change : NameChange ο) : NameRegistry ο :=
  match change.name with
  | some name => nameUnref idle w name
  | none => w

/-- `name_registry_ref_name`. -/
def nameRegistryRefName (w : NameRegistry ο) (name : Bytes) : NameRegistry ο :=
  match w.nameTree.find? name with
  | some _ => nameRef w name
  | none => w.setName name .init

/-- `name_primary`. -/
def namePrimary (w : NameRegistry ο) (name : Bytes) : Option ℕ := (w.ownershipList name).head?

/-- `name_ownership_is_primary`. -/
def nameOwnershipIsPrimary (w : NameRegistry ο) (id : ℕ) : Bool :=
  match w.ownerships.find? id with
  | some ownership => namePrimary w ownership.name = some id
  | none => false

/-- `name_ownership_free`. -/
def nameOwnershipFree (idle : Bytes → Bool) (users : UserRegistry) (w : NameRegistry ο) (id : ℕ) :
    UserRegistry × NameRegistry ο :=
  match w.ownerships.find? id with
  | none => (users, w.check false)
  | some ownership =>
    let w := w.check (id ∉ w.ownershipList ownership.name)
    let (users, _) := userChargeDeinit users ownership.charge
    let tree := (w.owners ownership.owner).ownershipTree
    -- `c_rbnode_unlink` does nothing for a node that is not linked
    let w := if tree.find? ownership.name = some id then
        w.setOwnershipTree ownership.owner (tree.erase ownership.name)
      else w
    let w := nameUnref idle w ownership.name
    (users, { w with ownerships := w.ownerships.erase id })

/-- `name_ownership_new`: the address of the new object, unless the quota of the user is exceeded. -/
def nameOwnershipNew (idle : Bytes → Bool) (users : UserRegistry) (w : NameRegistry ο) (owner : ο)
    (user : Option Uid) (name : Bytes) : UserRegistry × NameRegistry ο × Option ℕ :=
  let id := w.nextOwnership
  let w := nameRef { w with nextOwnership := id + 1 } name
  let (users, charge, r) := userCharge users user .init none userSlotObjects 1
  let w := w.setOwnership id ⟨owner, name, 0, charge⟩
  match r with
  | .success => (users, w, some id)
  | .quota =>
    let (users, w) := nameOwnershipFree idle users w id
    (users, w, none)

/-- `name_ownership_link`. -/
def nameOwnershipLink (w : NameRegistry ο) (owner : ο) (name : Bytes) (id : ℕ) : NameRegistry ο :=
  w.setOwnershipTree owner ((w.owners owner).ownershipTree.insert name id)

/-- The counters when an owner becomes the primary one of a name without an owner. -/
def NameRegistry.addPrimary (w : NameRegistry ο) (o : ο) : NameRegistry ο :=
  let n := (w.owners o).nOwnerPrimaries + 1
  { w.setOwnerPrimaries o n with
    nPrimaries := w.nPrimaries + 1
    nPrimariesPeak := max w.nPrimariesPeak (w.nPrimaries + 1)
    nOwnerPrimariesPeak := max w.nOwnerPrimariesPeak n }

/-- The counters when a primary owner is replaced by another one. -/
def NameRegistry.replacePrimary (w : NameRegistry ο) (old new : ο) : NameRegistry ο :=
  let w := w.setOwnerPrimaries old ((w.owners old).nOwnerPrimaries - 1)
  let n := (w.owners new).nOwnerPrimaries + 1
  { w.setOwnerPrimaries new n with nOwnerPrimariesPeak := max w.nOwnerPrimariesPeak n }

/-- The counters when a primary owner gives up a name. -/
def NameRegistry.dropPrimary (w : NameRegistry ο) (o : ο) : NameRegistry ο :=
  { w.setOwnerPrimaries o ((w.owners o).nOwnerPrimaries - 1) with nPrimaries := w.nPrimaries - 1 }

/-- The counters when the next owner in the queue of a given up name is promoted; the peak of the
number of primaries is left alone, since that number did not change in the end. -/
def NameRegistry.promotePrimary (w : NameRegistry ο) (o : ο) : NameRegistry ο :=
  let n := (w.owners o).nOwnerPrimaries + 1
  { w.setOwnerPrimaries o n with
    nPrimaries := w.nPrimaries + 1
    nOwnerPrimariesPeak := max w.nOwnerPrimariesPeak n }

/-- `name_ownership_release`. -/
def nameOwnershipRelease (idle : Bytes → Bool) (users : UserRegistry) (w : NameRegistry ο) (id : ℕ) :
    UserRegistry × NameRegistry ο × NameChange ο :=
  match w.ownerships.find? id with
  | none => (users, w.check false, .init)
  | some ownership =>
    let name := ownership.name
    let primary := namePrimary w name
    let w := w.setOwnershipList name ((w.ownershipList name).erase id)
    if primary = some id then
      let w := w.dropPrimary ownership.owner
      let successor := (namePrimary w name).bind w.ownerOf
      let w := nameRef w name
      let w := match successor with
        | some o => w.promotePrimary o
        | none => w
      let (users, w) := nameOwnershipFree idle users w id
      (users, w, ⟨some name, some ownership.owner, successor⟩)
    else
      let (users, w) := nameOwnershipFree idle users w id
      (users, w, .init)

/-- `name_ownership_update`. -/
def nameOwnershipUpdate (idle : Bytes → Bool) (users : UserRegistry) (w : NameRegistry ο) (id : ℕ)
    (flags : UInt32) : UserRegistry × NameRegistry ο × NameChange ο × NameResult :=
  match w.ownerships.find? id with
  | none => (users, w.check false, .init, .success)
  | some ownership =>
    let name := ownership.name
    let owner := ownership.owner
    let primary := namePrimary w name
    let w := w.setOwnership id { ownership with flags := flags }
    let queue := w.ownershipList name
    match primary.bind fun p => (w.ownerships.find? p).map fun o => (p, o) with
    | none =>
      -- there is no primary owner
      let w := (nameRef w name).check (id ∉ queue)
      let w := (w.setOwnershipList name (id :: queue)).addPrimary owner
      (users, w, ⟨some name, none, some owner⟩, .success)
    | some (p, primary) =>
      if p = id then (users, w, .init, .alreadyOwner)
      else if hasFlag flags nameFlagReplaceExisting && hasFlag primary.flags nameFlagAllowReplacement then
        let w := (nameRef w name).setOwnershipList name (id :: queue.erase id)
        let w := w.replacePrimary primary.owner owner
        let (users, w) := if hasFlag primary.flags nameFlagDoNotQueue then
            nameOwnershipFree idle users (w.setOwnershipList name ((id :: queue.erase id).erase p)) p
          else (users, w)
        (users, w, ⟨some name, some primary.owner, some owner⟩, .success)
      else if !hasFlag flags nameFlagDoNotQueue then
        let w := if id ∈ queue then w else w.setOwnershipList name (queue ++ [id])
        (users, w, .init, .inQueue)
      else (users, w.setOwnershipList name (queue.erase id), .init, .exists)

/-- The end of `name_registry_request_name`: the ownership is updated, and destroyed if it is not
in the queue after that. -/
def nameRegistryRequestUpdate (idle : Bytes → Bool) (users : UserRegistry) (w : NameRegistry ο) (name : Bytes)
    (id : ℕ) (flags : UInt32) : UserRegistry × NameRegistry ο × NameChange ο × NameResult :=
  let (users, w, change, r) := nameOwnershipUpdate idle users w id flags
  let (users, w) := if id ∈ w.ownershipList name then (users, w) else nameOwnershipFree idle users w id
  (users, nameUnref idle w name, change, r)

/-- `name_registry_request_name`. -/
def nameRegistryRequestName (idle : Bytes → Bool) (users : UserRegistry) (w : NameRegistry ο) (owner : ο)
    (user : Option Uid) (name : Bytes) (flags : UInt32) :
    UserRegistry × NameRegistry ο × NameChange ο × NameResult :=
  let w := nameRegistryRefName w name
  match (w.owners owner).ownershipTree.find? name with
  | some id => nameRegistryRequestUpdate idle users w name id flags
  | none =>
    match nameOwnershipNew idle users w owner user name with
    | (users, w, none) => (users, nameUnref idle w name, .init, .quota)
    | (users, w, some id) =>
      nameRegistryRequestUpdate idle users (nameOwnershipLink w owner name id) name id flags

/-- `name_registry_release_name`. -/
def nameRegistryReleaseName (idle : Bytes → Bool) (users : UserRegistry) (w : NameRegistry ο) (owner : ο)
    (name : Bytes) : UserRegistry × NameRegistry ο × NameChange ο × NameResult :=
  match namePrimary w name with
  | none => (users, w, .init, .notFound)
  | some _ =>
    match (w.owners owner).ownershipTree.find? name with
    | none => (users, w, .init, .notOwner)
    | some id =>
      let (users, w, change) := nameOwnershipRelease idle users w id
      (users, w, change, .success)

/-- `name_snapshot_new`: the names an owner wants, each with a reference. -/
def nameSnapshotNew (w : NameRegistry ο) (owner : ο) : NameRegistry ο × List Bytes :=
  let names := (w.owners owner).ownershipTree.keys
  (names.foldl nameRef w, names)

/-- `name_snapshot_free`. -/
def nameSnapshotFree (idle : Bytes → Bool) (w : NameRegistry ο) (snapshot : List Bytes) : NameRegistry ο :=
  snapshot.foldl (nameUnref idle) w

end Functions

end DbusBroker
