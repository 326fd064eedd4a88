import DbusBroker.Bus.Name

/-!
# The policy of the broker

The registry, the snapshots and the checks of `bus/policy.c`. A registry is imported from the
records that the controller sends. The snapshot of a peer is the list of the batches that
concern it, and a check lets their rules compete by priority. What AppArmor and SELinux answer
is an argument of the checks; the message is well-typed, so that importing fails on its values
only.
-/

namespace DbusBroker

open Std

/-- `PolicyVerdict`. -/
structure PolicyVerdict where
  verdict : Bool
  priority : UInt64
  deriving DecidableEq, Repr

/-- `POLICY_VERDICT_INIT`. -/
def PolicyVerdict.init : PolicyVerdict := ⟨false, 0⟩

/-- `PolicyXmit`. -/
structure PolicyXmit where
  verdict : PolicyVerdict
  type : UInt32
  broadcast : UInt32
  path : Option Bytes
  interface : Option Bytes
  member : Option Bytes
  minFds : UInt64
  maxFds : UInt64
  deriving DecidableEq, Repr

/-- `PolicyBatchName`. -/
structure PolicyBatchName where
  ownVerdict : PolicyVerdict
  ownPrefixVerdict : PolicyVerdict
  sendUnindexed : List PolicyXmit
  recvUnindexed : List PolicyXmit
  deriving DecidableEq, Repr

/-- `POLICY_BATCH_NAME_NULL`. -/
def PolicyBatchName.null : PolicyBatchName := ⟨.init, .init, [], []⟩

/-- `PolicyBatch`. -/
structure PolicyBatch where
  connectVerdict : PolicyVerdict
  nameTree : StringTree PolicyBatchName

/-- `POLICY_BATCH_NULL`. -/
def PolicyBatch.null : PolicyBatch := ⟨.init, .empty⟩

/-- `policy_registry_node_compare`. -/
def policyRegistryNodeCompare : UInt32 × UInt32 → UInt32 × UInt32 → Ordering :=
  compareLex (compareOn Prod.fst) (compareOn Prod.snd)

instance : TransCmp policyRegistryNodeCompare := inferInstanceAs (TransCmp (compareLex _ _))

instance : LawfulEqCmp policyRegistryNodeCompare where
  eq_of_compare {a b} h := by
    obtain ⟨h₁, h₂⟩ := Ordering.then_eq_eq.mp h
    exact Prod.ext (LawfulEqOrd.eq_of_compare h₁) (LawfulEqOrd.eq_of_compare h₂)

/-- `PolicyRegistry`. -/
structure PolicyRegistry where
  defaultBatch : PolicyBatch
  uidRangeTree : SearchTree policyRegistryNodeCompare PolicyBatch
  uidTree : SearchTree policyRegistryNodeCompare PolicyBatch
  gidTree : SearchTree policyRegistryNodeCompare PolicyBatch

/-- `policy_registry_new`. -/
def PolicyRegistry.new : PolicyRegistry := ⟨.null, .empty, .empty, .empty⟩

/-- A record `(btbs)` of a policy message. -/
structure PolicyDumpOwn where
  verdict : PolicyVerdict
  isPrefix : Bool
  name : Bytes
  deriving DecidableEq, Repr

/-- A record `(btssssuutt)` of a policy message. -/
structure PolicyDumpXmit where
  verdict : PolicyVerdict
  name : Bytes
  path : Bytes
  interface : Bytes
  member : Bytes
  type : UInt32
  broadcast : UInt32
  minFds : UInt64
  maxFds : UInt64
  deriving DecidableEq, Repr

/-- The records of a batch in a policy message. -/
structure PolicyDumpBatch where
  connect : PolicyVerdict
  own : List PolicyDumpOwn
  send : List PolicyDumpXmit
  recv : List PolicyDumpXmit
  deriving DecidableEq, Repr

/-- The batches of a policy message: for a user, and for a group or a range of users. -/
structure PolicyDump where
  uids : List (UInt32 × PolicyDumpBatch)
  ranges : List (Bool × UInt32 × UInt32 × PolicyDumpBatch)
  deriving DecidableEq, Repr

/-- A string of `policy_xmit_new`: an empty one is no filter. -/
def policyFilter (string : Bytes) : Option Bytes := if string.isEmpty then none else some string

/-- `policy_xmit_new`, with the verdict. -/
def policyXmitNew (record : PolicyDumpXmit) : PolicyXmit :=
  ⟨record.verdict, record.type, record.broadcast, policyFilter record.path, policyFilter record.interface,
    policyFilter record.member, record.minFds, record.maxFds⟩

/-- `policy_batch_at_name`: the name, created if it is new. -/
def policyBatchAtName (batch : PolicyBatch) (name : Bytes) : PolicyBatchName := (batch.nameTree.find? name).getD .null

/-- Write back a name of a batch. -/
def PolicyBatch.setName (batch : PolicyBatch) (name : Bytes) (n : PolicyBatchName) : PolicyBatch :=
  { batch with nameTree := batch.nameTree.insert name n }

/-- The verdict that is remembered: the new one unless its priority is lower. -/
def PolicyVerdict.supersede (old new : PolicyVerdict) : PolicyVerdict :=
  if old.priority ≤ new.priority then new else old

/-- `policy_batch_add_own`. -/
def policyBatchAddOwn (batch : PolicyBatch) (name : Bytes) (verdict : PolicyVerdict) : PolicyBatch :=
  let n := policyBatchAtName batch name
  batch.setName name { n with ownVerdict := n.ownVerdict.supersede verdict }

/-- `policy_batch_add_own_prefix`. -/
def policyBatchAddOwnPrefix (batch : PolicyBatch) (name : Bytes) (verdict : PolicyVerdict) : PolicyBatch :=
  let n := policyBatchAtName batch name
  batch.setName name { n with ownPrefixVerdict := n.ownPrefixVerdict.supersede verdict }

/-- `policy_batch_add_send`. -/
def policyBatchAddSend (batch : PolicyBatch) (name : Bytes) (xmit : PolicyXmit) : PolicyBatch :=
  let n := policyBatchAtName batch name
  batch.setName name { n with sendUnindexed := n.sendUnindexed ++ [xmit] }

/-- `policy_batch_add_recv`. -/
def policyBatchAddRecv (batch : PolicyBatch) (name : Bytes) (xmit : PolicyXmit) : PolicyBatch :=
  let n := policyBatchAtName batch name
  batch.setName name { n with recvUnindexed := n.recvUnindexed ++ [xmit] }

/-- `_UTIL_TRISTATE_N`. -/
def utilTristateN : UInt32 := 3

/-- One own record of `policy_registry_import_batch`. -/
def policyImportOwnRecord (batch : PolicyBatch) (record : PolicyDumpOwn) : PolicyBatch :=
  if record.isPrefix then policyBatchAddOwnPrefix batch record.name record.verdict
  else policyBatchAddOwn batch record.name record.verdict

/-- One send record of `policy_registry_import_batch`. -/
def policyImportSendRecord (batch : PolicyBatch) (record : PolicyDumpXmit) : Option PolicyBatch :=
  if utilTristateN ≤ record.broadcast then none
  else some (policyBatchAddSend batch record.name (policyXmitNew record))

/-- One receive record of `policy_registry_import_batch`. -/
def policyImportRecvRecord (batch : PolicyBatch) (record : PolicyDumpXmit) : Option PolicyBatch :=
  if utilTristateN ≤ record.broadcast then none
  else some (policyBatchAddRecv batch record.name (policyXmitNew record))

/-- `policy_registry_import_batch`, which fails with `POLICY_E_INVALID`. -/
def policyRegistryImportBatch (batch : PolicyBatch) (v : PolicyDumpBatch) : Option PolicyBatch := do
  let batch := v.own.foldl policyImportOwnRecord { batch with connectVerdict := v.connect }
  let batch ← v.send.foldlM policyImportSendRecord batch
  v.recv.foldlM policyImportRecvRecord batch

/-- The batch of a node, created if it is new, after `policy_registry_import_batch`. -/
def policyImportAt (tree : SearchTree policyRegistryNodeCompare PolicyBatch) (index : UInt32 × UInt32)
    (v : PolicyDumpBatch) : Option (SearchTree policyRegistryNodeCompare PolicyBatch) := do
  let batch ← policyRegistryImportBatch ((tree.find? index).getD .null) v
  some (tree.insert index batch)

/-- One user of `policy_registry_import`. -/
def policyImportUid (registry : PolicyRegistry) (entry : UInt32 × PolicyDumpBatch) : Option PolicyRegistry := do
  if entry.1 = -1 then
    let batch ← policyRegistryImportBatch registry.defaultBatch entry.2
    some { registry with defaultBatch := batch }
  else
    let tree ← policyImportAt registry.uidTree (entry.1, entry.1) entry.2
    some { registry with uidTree := tree }

/-- One group or range of users of `policy_registry_import`. -/
def policyImportRange (registry : PolicyRegistry) (entry : Bool × UInt32 × UInt32 × PolicyDumpBatch) :
    Option PolicyRegistry := do
  let (group, first, last, v) := entry
  if group then
    if first ≠ last then none
    else
      let tree ← policyImportAt registry.gidTree (first, first) v
      some { registry with gidTree := tree }
  else
    let tree ← policyImportAt registry.uidRangeTree (first, last) v
    some { registry with uidRangeTree := tree }

/-- `policy_registry_import`. -/
def policyRegistryImport (registry : PolicyRegistry) (v : PolicyDump) : Option PolicyRegistry := do
  let registry ← v.uids.foldlM policyImportUid registry
  v.ranges.foldlM policyImportRange registry

/-- `PolicySnapshot`. -/
abbrev PolicySnapshot := List PolicyBatch

/-- `policy_snapshot_new`: the batch of the user or the default one, those of the ranges that the user is
in, and those of its groups from the last to the first. -/
def policySnapshotNew (registry : PolicyRegistry) (uid : UInt32) (gids : List UInt32) : PolicySnapshot :=
  (registry.uidTree.find? (uid, uid)).getD registry.defaultBatch ::
    (registry.uidRangeTree.entries.filter fun node => node.1.1 ≤ uid && uid ≤ node.1.2).map Prod.snd ++
    gids.reverse.filterMap fun gid => registry.gidTree.find? (gid, gid)

/-- `POLICY_E_*` of a check. -/
inductive PolicyResult where
  | success
  | accessDenied
  | selinuxAccessDenied
  | apparmorAccessDenied
  deriving DecidableEq, Repr

/-- The result of a verdict. -/
def policyResult (verdict : PolicyVerdict) : PolicyResult := if verdict.verdict then .success else .accessDenied

/-- `policy_snapshot_check_connect`. -/
def policySnapshotCheckConnect (snapshot : PolicySnapshot) : PolicyResult :=
  policyResult (snapshot.foldl
    (fun verdict batch => if verdict.priority < batch.connectVerdict.priority then batch.connectVerdict else verdict)
    .init)

/-- The ends of the prefixes behind a position: before every dot, and the end of the string. -/
def policyPrefixEnds (position : ℕ) : Bytes → List ℕ
  | [] => [position]
  | c :: rest =>
    if c = byte '.' then position :: policyPrefixEnds (position + 1) rest else policyPrefixEnds (position + 1) rest

/-- The ends that `policy_snapshot_check_own` iterates: of the empty prefix, and from the second character on. -/
def policyOwnEnds : Bytes → List ℕ
  | [] => [0]
  | _ :: rest => 0 :: policyPrefixEnds 1 rest

/-- The comparison in `policy_snapshot_check_own`: a prefix of a string against a name of the tree. -/
def policyPrefixCompare (nameStr : Bytes) (n : ℕ) (name : Bytes) : Ordering :=
  match strncmp nameStr name n with
  | .lt => .lt
  | .gt => .gt
  | .eq => if n < name.length then .lt else .eq

/-- One prefix of `policy_snapshot_check_own`. -/
def policyCheckOwnPrefix (batch : PolicyBatch) (nameStr : Bytes) (verdict : PolicyVerdict) (n : ℕ) : PolicyVerdict :=
  match SearchTree.findEntry (fun _ name => policyPrefixCompare nameStr n name) nameStr batch.nameTree.entries with
  | none => verdict
  | some name =>
    let verdict := if verdict.priority < name.ownVerdict.priority then name.ownVerdict else verdict
    if verdict.priority < name.ownPrefixVerdict.priority then name.ownPrefixVerdict else verdict

/-- `policy_snapshot_check_own`, where AppArmor and SELinux allow the name or not. -/
def policySnapshotCheckOwn (apparmor selinux : Bool) (snapshot : PolicySnapshot) (nameStr : Bytes) : PolicyResult :=
  if !apparmor then .apparmorAccessDenied
  else if !selinux then .selinuxAccessDenied
  else
    policyResult (snapshot.foldl
      (fun verdict batch => (policyOwnEnds nameStr).foldl (policyCheckOwnPrefix batch nameStr) verdict) .init)

/-- What the policy looks at in a message. -/
structure PolicyMessage where
  interface : Option Bytes
  member : Option Bytes
  path : Option Bytes
  type : UInt32
  broadcast : Bool
  nFds : ℕ
  deriving DecidableEq, Repr

/-- `NameSet`. -/
inductive NameSet where
  | owner (owner : NameOwner)
  | snapshot (names : List Bytes)
  | empty

/-- A string filter that a message does not meet. -/
def policyStringDiffers (filter value : Option Bytes) : Bool :=
  match filter, value with
  | none, _ => false
  | some _, none => true
  | some filter, some value => strcmp value filter != .eq

/-- One rule of `policy_snapshot_check_xmit_name`. -/
def policyCheckXmitRule (m : PolicyMessage) (verdict : PolicyVerdict) (xmit : PolicyXmit) : PolicyVerdict :=
  if xmit.verdict.priority ≤ verdict.priority then verdict
  else if xmit.type != 0 && m.type != xmit.type then verdict
  else if policyStringDiffers xmit.path m.path then verdict
  else if policyStringDiffers xmit.interface m.interface then verdict
  else if policyStringDiffers xmit.member m.member then verdict
  else if xmit.broadcast == 1 && !m.broadcast then verdict
  else if xmit.broadcast == 2 && m.broadcast then verdict
  else if m.nFds < xmit.minFds.toNat then verdict
  else if xmit.maxFds.toNat < m.nFds then verdict
  else xmit.verdict

/-- `policy_snapshot_check_xmit_name`. -/
def policySnapshotCheckXmitName (isSend : Bool) (m : PolicyMessage) (batch : PolicyBatch) (verdict : PolicyVerdict)
    (name : Bytes) : PolicyVerdict :=
  match batch.nameTree.find? name with
  | none => verdict
  | some n => (if isSend then n.sendUnindexed else n.recvUnindexed).foldl (policyCheckXmitRule m) verdict

/-- `policy_snapshot_check_xmit`. Without a name set the message deals with the driver. -/
def policySnapshotCheckXmit (isSend : Bool) (nameset : Option NameSet) (m : PolicyMessage) (verdict : PolicyVerdict)
    (batch : PolicyBatch) : PolicyVerdict :=
  let verdict := policySnapshotCheckXmitName isSend m batch verdict []
  match nameset with
  | none => policySnapshotCheckXmitName isSend m batch verdict (lit "org.freedesktop.DBus")
  | some (.owner owner) => owner.ownershipTree.keys.foldl (policySnapshotCheckXmitName isSend m batch) verdict
  | some (.snapshot names) => names.foldl (policySnapshotCheckXmitName isSend m batch) verdict
  | some .empty => verdict

/-- `policy_snapshot_check_send`, where AppArmor and SELinux allow the message or not. -/
def policySnapshotCheckSend (apparmor selinux : Bool) (snapshot : PolicySnapshot) (subject : Option NameSet)
    (m : PolicyMessage) : PolicyResult :=
  if !apparmor then .apparmorAccessDenied
  else if !selinux then .selinuxAccessDenied
  else policyResult (snapshot.foldl (policySnapshotCheckXmit true subject m) .init)

/-- `policy_snapshot_check_receive`. -/
def policySnapshotCheckReceive (snapshot : PolicySnapshot) (subject : Option NameSet) (m : PolicyMessage) :
    PolicyResult :=
  policyResult (snapshot.foldl (policySnapshotCheckXmit false subject m) .init)

end DbusBroker
