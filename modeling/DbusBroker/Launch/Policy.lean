import DbusBroker.Bus.Policy
import Mathlib.Data.List.DropRight

/-!
# The policy of the launcher

The conversion of `launch/policy.c`: the rules of the parsed configuration are filed by whom
they concern, the connect rules are reduced to the strongest ones, and the result is written as
a policy message for the broker. The uid of the launcher, the greatest uid of the system users
and the users at the console are arguments.
-/

namespace DbusBroker.Launch

open Std

/-- `CONFIG_POLICY_*`. -/
inductive ConfigPolicy where
  | none
  | default
  | group
  | user
  | atConsole
  | noConsole
  | mandatory
  deriving DecidableEq, Repr

/-- The number of a context. -/
def ConfigPolicy.number : ConfigPolicy → UInt64
  | .none => 0
  | .default => 1
  | .group => 2
  | .user => 3
  | .atConsole => 4
  | .noConsole => 5
  | .mandatory => 6

/-- `_CONFIG_POLICY_N`. -/
def configPolicyN : UInt64 := 7

/-- `UTIL_TRISTATE_*`. -/
inductive UtilTristate where
  | unset
  | yes
  | no
  deriving DecidableEq, Repr

/-- The number of a tristate. -/
def UtilTristate.number : UtilTristate → UInt32
  | .unset => 0
  | .yes => 1
  | .no => 2

/-- `allow_deny` of a `ConfigNode`, as it is parsed. -/
structure ConfigAllowDeny where
  sendInterface : Option Bytes := none
  sendMember : Option Bytes := none
  sendError : Option Bytes := none
  sendDestination : Option Bytes := none
  sendPath : Option Bytes := none
  sendType : UInt32 := 0
  sendBroadcast : UtilTristate := .unset
  recvInterface : Option Bytes := none
  recvMember : Option Bytes := none
  recvError : Option Bytes := none
  recvSender : Option Bytes := none
  recvPath : Option Bytes := none
  recvType : UInt32 := 0
  minFds : UInt64 := 0
  maxFds : UInt64 := -1
  own : Option Bytes := none
  ownPrefix : Option Bytes := none
  uid : UInt32 := 0
  gid : UInt32 := 0
  sendRequestedReply : UtilTristate := .unset
  recvRequestedReply : UtilTristate := .unset
  eavesdrop : UtilTristate := .unset
  user : Bool := false
  group : Bool := false
  deriving DecidableEq, Repr

/-- `policy` of a `ConfigNode`. -/
structure ConfigContext where
  context : ConfigPolicy
  id : UInt32
  deriving DecidableEq, Repr

/-- `ConfigNode`: an allow or deny element with the policy element around it, if there is one, or another element. -/
inductive ConfigNode where
  | allowDeny (isAllow : Bool) (parent : Option ConfigContext) (rule : ConfigAllowDeny)
  | other
  deriving DecidableEq, Repr

/-- A transmission record of the launcher. -/
structure PolicyRecordXmit where
  verdict : PolicyVerdict
  name : Option Bytes
  path : Option Bytes
  interface : Option Bytes
  member : Option Bytes
  type : UInt32
  broadcast : UInt32
  minFds : UInt64
  maxFds : UInt64
  deriving DecidableEq, Repr

/-- `PolicyEntries`. A connect record is a verdict, an own record is exported as it is. -/
structure PolicyEntries where
  connectList : List PolicyVerdict
  ownList : List PolicyDumpOwn
  sendList : List PolicyRecordXmit
  recvList : List PolicyRecordXmit
  deriving DecidableEq, Repr

/-- `POLICY_ENTRIES_NULL`. -/
def PolicyEntries.null : PolicyEntries := ⟨[], [], [], []⟩

/-- `policy_entries_is_empty`. -/
def PolicyEntries.isEmpty (entries : PolicyEntries) : Bool :=
  entries.connectList.isEmpty && entries.ownList.isEmpty && entries.sendList.isEmpty && entries.recvList.isEmpty

/-- The nodes of users or of groups, ordered by `policy_node_compare`. -/
abbrev PolicyNodeTree := SearchTree (compare : UInt32 → UInt32 → Ordering) PolicyEntries

/-- `Policy`. -/
structure Policy where
  iPriority : UInt64
  defaultEntries : PolicyEntries
  atConsoleEntries : PolicyEntries
  noConsoleEntries : PolicyEntries
  uidTree : PolicyNodeTree
  gidTree : PolicyNodeTree

/-- `POLICY_PRIORITY_DEFAULT`. -/
def policyPriorityDefault : UInt64 := 1

/-- `POLICY_INIT`. -/
def Policy.init : Policy := ⟨policyPriorityDefault, .null, .null, .null, .empty, .empty⟩

/-- `policy_at_uidgid`: change the entries of a node, which is created if it is new. -/
def policyAtUidgid (tree : PolicyNodeTree) (uidgid : UInt32) (link : PolicyEntries → PolicyEntries) : PolicyNodeTree :=
  tree.insert uidgid (link ((tree.find? uidgid).getD .null))

/-- `policy_at_uid`. -/
def policyAtUid (policy : Policy) (uid : UInt32) (link : PolicyEntries → PolicyEntries) : Policy :=
  { policy with uidTree := policyAtUidgid policy.uidTree uid link }

/-- `policy_at_gid`. -/
def policyAtGid (policy : Policy) (gid : UInt32) (link : PolicyEntries → PolicyEntries) : Policy :=
  { policy with gidTree := policyAtUidgid policy.gidTree gid link }

/-- `UINT64_MAX`. -/
def uint64Max : UInt64 := -1

/-- The verdict of `policy_import_verdict`, which counts the record. -/
def policyImportVerdict (policy : Policy) (isAllow : Bool) (context : ConfigPolicy) : PolicyVerdict :=
  ⟨isAllow, uint64Max / configPolicyN * context.number + (policy.iPriority + 1)⟩

/-- The policy after `policy_import_verdict`. -/
def Policy.count (policy : Policy) : Policy := { policy with iPriority := policy.iPriority + 1 }

/-- Add a connect record to a list. -/
def PolicyEntries.addConnect (record : PolicyVerdict) (entries : PolicyEntries) : PolicyEntries :=
  { entries with connectList := entries.connectList ++ [record] }

/-- Add an own record to a list. -/
def PolicyEntries.addOwn (record : PolicyDumpOwn) (entries : PolicyEntries) : PolicyEntries :=
  { entries with ownList := entries.ownList ++ [record] }

/-- Add a send record to a list. -/
def PolicyEntries.addSend (record : PolicyRecordXmit) (entries : PolicyEntries) : PolicyEntries :=
  { entries with sendList := entries.sendList ++ [record] }

/-- Add a receive record to a list. -/
def PolicyEntries.addRecv (record : PolicyRecordXmit) (entries : PolicyEntries) : PolicyEntries :=
  { entries with recvList := entries.recvList ++ [record] }

/-- `policy_import_connect_self`. -/
def policyImportConnectSelf (uid : UInt32) (policy : Policy) : Policy :=
  policyAtUid policy.count uid (.addConnect ⟨true, policy.iPriority + 1⟩)

/-- A rule has an attribute of sending. -/
def ConfigAllowDeny.sends (rule : ConfigAllowDeny) : Bool :=
  rule.sendInterface.isSome || rule.sendMember.isSome || rule.sendError.isSome || rule.sendDestination.isSome ||
    rule.sendPath.isSome || rule.sendType != 0 || rule.sendBroadcast != .unset || rule.sendRequestedReply != .unset

/-- A rule has an attribute of receiving. -/
def ConfigAllowDeny.receives (rule : ConfigAllowDeny) : Bool :=
  rule.recvInterface.isSome || rule.recvMember.isSome || rule.recvError.isSome || rule.recvSender.isSome ||
    rule.recvPath.isSome || rule.recvType != 0 || rule.recvRequestedReply != .unset

/-- The combination of attributes that `policy_import_connect` takes. -/
def ConfigAllowDeny.isConnect (rule : ConfigAllowDeny) : Bool :=
  !(rule.user == rule.group || rule.own.isSome || rule.ownPrefix.isSome || rule.sends || rule.receives)

/-- `policy_import_connect`. -/
def policyImportConnect (policy : Policy) (isAllow : Bool) (parent : ConfigContext) (rule : ConfigAllowDeny) : Policy :=
  if !rule.isConnect then policy
  else if parent.context = .user ∨ parent.context = .group then policy
  else
    let link := PolicyEntries.addConnect (policyImportVerdict policy isAllow parent.context)
    let policy := policy.count
    if rule.user ∧ rule.uid ≠ -1 then policyAtUid policy rule.uid link
    else if rule.group ∧ rule.gid ≠ -1 then policyAtGid policy rule.uid link
    else { policy with defaultEntries := link policy.defaultEntries }

/-- How `policy_import_own`, `policy_import_send` and `policy_import_recv` file a record. -/
def policyLinkRecord (policy : Policy) (parent : ConfigContext) (link : PolicyEntries → PolicyEntries) : Policy :=
  match parent.context with
  | .user => if parent.id ≠ -1 then policyAtUid policy parent.id link else policy
  | .noConsole => { policy with noConsoleEntries := link policy.noConsoleEntries }
  | .atConsole => { policy with atConsoleEntries := link policy.atConsoleEntries }
  | .group => if parent.id ≠ -1 then policyAtGid policy parent.id link else policy
  | _ => { policy with defaultEntries := link policy.defaultEntries }

/-- The combination of attributes that `policy_import_own` takes. -/
def ConfigAllowDeny.isOwn (rule : ConfigAllowDeny) : Bool :=
  !(rule.own.isNone == rule.ownPrefix.isNone || rule.user || rule.group || rule.sends || rule.receives)

/-- The own record of a rule. -/
def policyOwnRecord (verdict : PolicyVerdict) (rule : ConfigAllowDeny) : PolicyDumpOwn :=
  match rule.own with
  | some own => if own = lit "*" then ⟨verdict, true, []⟩ else ⟨verdict, false, own⟩
  | none => ⟨verdict, true, rule.ownPrefix.getD []⟩

/-- `policy_import_own`. -/
def policyImportOwn (policy : Policy) (isAllow : Bool) (parent : ConfigContext) (rule : ConfigAllowDeny) : Policy :=
  if !rule.isOwn then policy
  else
    policyLinkRecord policy.count parent
      (.addOwn (policyOwnRecord (policyImportVerdict policy isAllow parent.context) rule))

/-- `policy_record_xmit_trim`: a wildcard is no string. -/
def policyTrim (string : Option Bytes) : Option Bytes := if string = some (lit "*") then none else string

/-- The types of messages that rules are ignored for: method returns and errors. -/
def policyTypeIgnored (type : UInt32) : Bool := type == 2 || type == 3

/-- A rule that denies eavesdropping only. -/
def policyEavesdropIgnored (isAllow : Bool) (rule : ConfigAllowDeny) : Bool := rule.eavesdrop == .yes && !isAllow

/-- The combination of attributes that `policy_import_send` takes. -/
def ConfigAllowDeny.isSend (rule : ConfigAllowDeny) : Bool :=
  !(rule.user || rule.group || rule.own.isSome || rule.ownPrefix.isSome || rule.receives)

/-- The send record of a rule. -/
def policySendRecord (verdict : PolicyVerdict) (rule : ConfigAllowDeny) : PolicyRecordXmit :=
  ⟨verdict, policyTrim rule.sendDestination, policyTrim rule.sendPath, policyTrim rule.sendInterface,
    policyTrim rule.sendMember, rule.sendType, rule.sendBroadcast.number, rule.minFds, rule.maxFds⟩

/-- `policy_import_send`. -/
def policyImportSend (policy : Policy) (isAllow : Bool) (parent : ConfigContext) (rule : ConfigAllowDeny) : Policy :=
  if !rule.isSend then policy
  else if policyTypeIgnored rule.sendType then policy
  else if policyEavesdropIgnored isAllow rule then policy
  else
    policyLinkRecord policy.count parent
      (.addSend (policySendRecord (policyImportVerdict policy isAllow parent.context) rule))

/-- The combination of attributes that `policy_import_recv` takes. -/
def ConfigAllowDeny.isRecv (rule : ConfigAllowDeny) : Bool :=
  !(rule.user || rule.group || rule.own.isSome || rule.ownPrefix.isSome || rule.sends)

/-- The receive record of a rule. -/
def policyRecvRecord (verdict : PolicyVerdict) (rule : ConfigAllowDeny) : PolicyRecordXmit :=
  ⟨verdict, policyTrim rule.recvSender, policyTrim rule.recvPath, policyTrim rule.recvInterface,
    policyTrim rule.recvMember, rule.recvType, 0, rule.minFds, rule.maxFds⟩

/-- `policy_import_recv`. -/
def policyImportRecv (policy : Policy) (isAllow : Bool) (parent : ConfigContext) (rule : ConfigAllowDeny) : Policy :=
  if !rule.isRecv then policy
  else if policyTypeIgnored rule.recvType then policy
  else if policyEavesdropIgnored isAllow rule then policy
  else
    policyLinkRecord policy.count parent
      (.addRecv (policyRecvRecord (policyImportVerdict policy isAllow parent.context) rule))

/-- One element of `policy_import`. -/
def policyImportNode (policy : Policy) : ConfigNode → Policy
  | .other => policy
  | .allowDeny _ none _ => policy
  | .allowDeny isAllow (some parent) rule =>
    if parent.context = .none then policy
    else if rule.user || rule.group then policyImportConnect policy isAllow parent rule
    else if rule.own.isSome || rule.ownPrefix.isSome then policyImportOwn policy isAllow parent rule
    else if rule.sends then policyImportSend policy isAllow parent rule
    else if rule.receives || rule.eavesdrop != .unset then policyImportRecv policy isAllow parent rule
    else policy

/-- `policy_import`. -/
def policyImport (uid : UInt32) (policy : Policy) (root : List ConfigNode) : Policy :=
  root.foldl policyImportNode (policyImportConnectSelf uid policy)

/-- `policy_list_find_top`: the first of the strongest records. -/
def policyListFindTop (list : List PolicyVerdict) : Option PolicyVerdict :=
  list.foldl (fun top record =>
    match top with
    | none => some record
    | some top => if top.priority < record.priority then some record else some top) none

/-- A node after `policy_optimize_connect`: its strongest connect record is kept if the default one is not
stronger. -/
def policyOptimizeNode (topDefault : Option PolicyVerdict) (entries : PolicyEntries) : PolicyEntries :=
  let top := policyListFindTop entries.connectList
  let top :=
    match top, topDefault with
    | some record, some default => if record.priority ≤ default.priority then none else some record
    | top, _ => top
  { entries with connectList := top.toList }

/-- `policy_optimize_connect`. -/
def policyOptimizeConnect (policy : Policy) : Policy :=
  let topDefault := policyListFindTop policy.defaultEntries.connectList
  { policy with
    defaultEntries := { policy.defaultEntries with connectList := topDefault.toList }
    uidTree := policy.uidTree.mapValues (policyOptimizeNode topDefault)
    gidTree := policy.gidTree.mapValues (policyOptimizeNode topDefault) }

/-- `policy_optimize_trim`. -/
def policyOptimizeTrim (policy : Policy) : Policy :=
  { policy with
    uidTree := policy.uidTree.filterValues (!·.isEmpty)
    gidTree := policy.gidTree.filterValues (!·.isEmpty) }

/-- `policy_optimize`. -/
def policyOptimize (policy : Policy) : Policy := policyOptimizeTrim (policyOptimizeConnect policy)

/-- `launcher_load_policy` of a new policy. -/
def launcherLoadPolicy (uid : UInt32) (root : List ConfigNode) : Policy := policyOptimize (policyImport uid .init root)

/-- `policy_export_connect`. -/
def policyExportConnect (defaultList specificList : Option (List PolicyVerdict)) : PolicyVerdict :=
  let top := specificList.bind List.head?
  let top := top.or (defaultList.bind List.head?)
  top.getD ⟨false, policyPriorityDefault⟩

/-- `policy_export_own`. -/
def policyExportOwn (list1 list2 : Option (List PolicyDumpOwn)) : List PolicyDumpOwn := list1.getD [] ++ list2.getD []

/-- One record of `policy_export_xmit`, where a missing string is an empty one. -/
def policyExportXmitRecord (record : PolicyRecordXmit) : PolicyDumpXmit :=
  ⟨record.verdict, record.name.getD [], record.path.getD [], record.interface.getD [], record.member.getD [],
    record.type, record.broadcast, record.minFds, record.maxFds⟩

/-- `policy_export_xmit`. -/
def policyExportXmit (list1 list2 : Option (List PolicyRecordXmit)) : List PolicyDumpXmit :=
  (list1.getD [] ++ list2.getD []).map policyExportXmitRecord

/-- One batch of a policy message: whose connect record is the fallback, and whose other records come first. -/
def policyExportBatch (defaultConnect : Option PolicyEntries) (first entries : Option PolicyEntries) : PolicyDumpBatch :=
  ⟨policyExportConnect (defaultConnect.map (·.connectList)) (entries.map (·.connectList)),
    policyExportOwn (first.map (·.ownList)) (entries.map (·.ownList)),
    policyExportXmit (first.map (·.sendList)) (entries.map (·.sendList)),
    policyExportXmit (first.map (·.recvList)) (entries.map (·.recvList))⟩

/-- `policy_export_console`. -/
def policyExportConsole (entries : PolicyEntries) (uidStart nUid : UInt32) :
    List (Bool × UInt32 × UInt32 × PolicyDumpBatch) :=
  if nUid = 0 then []
  else if entries.isEmpty then []
  else [(false, uidStart, uidStart + nUid - 1, policyExportBatch none none (some entries))]

/-- The ranges of the system users, in turns between and at the users at the console. -/
def policyExportSystem (systemUidMax : UInt32) (policy : Policy) (nextUid : UInt32) :
    List UInt32 → List (Bool × UInt32 × UInt32 × PolicyDumpBatch)
  | [] => policyExportConsole policy.noConsoleEntries nextUid (systemUidMax + 1 - nextUid)
  | uid :: rest =>
    policyExportConsole policy.noConsoleEntries nextUid (uid - nextUid) ++
      policyExportConsole policy.atConsoleEntries uid 1 ++ policyExportSystem systemUidMax policy (uid + 1) rest

/-- The users at the console that are system users, in order. -/
def policySystemConsoleUids (systemUidMax : UInt32) (atConsoleUids : List UInt32) : List UInt32 :=
  (atConsoleUids.mergeSort fun a b => decide (a ≤ b)).rdropWhile fun uid => decide (systemUidMax < uid)

/-- `policy_export`. -/
def policyExport (systemUidMax : UInt32) (policy : Policy) (atConsoleUids : List UInt32) : PolicyDump where
  uids :=
    (-1, policyExportBatch (some policy.defaultEntries) (some policy.defaultEntries) none) ::
      policy.uidTree.entries.map fun node =>
        (node.1, policyExportBatch (some policy.defaultEntries) (some policy.defaultEntries) (some node.2))
  ranges :=
    (policy.gidTree.entries.map fun node =>
      (true, node.1, node.1, policyExportBatch (some policy.defaultEntries) none (some node.2))) ++
    policyExportSystem systemUidMax policy 0 (policySystemConsoleUids systemUidMax atConsoleUids) ++
    policyExportConsole policy.atConsoleEntries (systemUidMax + 1) (-1 - systemUidMax)

end DbusBroker.Launch
