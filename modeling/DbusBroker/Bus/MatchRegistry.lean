import DbusBroker.Lib.RefIndex
import DbusBroker.Bus.MatchCompare

/-!
# The match registry

The index of match rules in `bus/match.c`: a tree by path, whose nodes are trees by
interface, whose nodes are trees by member, whose nodes are trees by the whole key set, whose
nodes list the rules. Rules without a path, interface or member are filed under the empty
string. Rules are named by `ι`, with their keys and their owner as parameters; a rule
remembers which registry it is linked in and whether it counts as a subscription.
-/

namespace DbusBroker

open Std Counted

/-- A tree whose keys are strings. -/
abbrev StringTree (α : Type) := SearchTree strcmp α

/-- `MatchRegistryByKeys`: the rules with one key set. -/
abbrev MatchRegistryByKeys (ι : Type) := Counted (List ι)

/-- `MatchRegistryByMember`. -/
abbrev MatchRegistryByMember (ι : Type) := Counted (SearchTree matchKeysCompare (MatchRegistryByKeys ι))

/-- `MatchRegistryByInterface`. -/
abbrev MatchRegistryByInterface (ι : Type) := Counted (StringTree (MatchRegistryByMember ι))

/-- `MatchRegistryByPath`. -/
abbrev MatchRegistryByPath (ι : Type) := Counted (StringTree (MatchRegistryByInterface ι))

/-- The trees of a registry. -/
abbrev MatchTree (ι : Type) := StringTree (MatchRegistryByPath ι)

/-- `MatchRegistry`. -/
structure MatchRegistry (ι : Type) where
  subscriptionTree : MatchTree ι
  monitorTree : MatchTree ι

/-- `MATCH_REGISTRY_INIT`. -/
def matchRegistryInit {ι : Type} : MatchRegistry ι := ⟨.empty, .empty⟩

namespace MatchRegistry

variable {ι : Type}

/-- The tree of the monitors or the one of the subscriptions. -/
def tree (r : MatchRegistry ι) (monitor : Bool) : MatchTree ι :=
  if monitor then r.monitorTree else r.subscriptionTree

/-- Replace one of the trees. -/
def setTree (r : MatchRegistry ι) (monitor : Bool) (t : MatchTree ι) : MatchRegistry ι :=
  if monitor then { r with monitorTree := t } else { r with subscriptionTree := t }

end MatchRegistry

section Link

variable {ι : Type}

/-- `match_rule_link_by_keys`. -/
def matchRuleLinkByKeys (rule : ι) (c : MatchRegistryByKeys ι) : MatchRegistryByKeys ι :=
  ⟨c.nRefs + 1, c.content ++ [rule]⟩

/-- `match_rule_link_by_member`. -/
def matchRuleLinkByMember (rule : ι) (keys : MatchKeys) (c : MatchRegistryByMember ι) :
    MatchRegistryByMember ι :=
  visitChild c keys [] (matchRuleLinkByKeys rule)

/-- `match_rule_link_by_interface`. -/
def matchRuleLinkByInterface (rule : ι) (keys : MatchKeys) (c : MatchRegistryByInterface ι) :
    MatchRegistryByInterface ι :=
  visitChild c (keys.filter.member.getD []) .empty (matchRuleLinkByMember rule keys)

/-- `match_rule_link_by_path`. -/
def matchRuleLinkByPath (rule : ι) (keys : MatchKeys) (c : MatchRegistryByPath ι) : MatchRegistryByPath ι :=
  visitChild c (keys.filter.interface.getD []) .empty (matchRuleLinkByInterface rule keys)

/-- The tree part of `match_rule_link`. -/
def matchTreeLink (rule : ι) (keys : MatchKeys) (t : MatchTree ι) : MatchTree ι :=
  visit t (keys.filter.path.getD []) .empty (matchRuleLinkByPath rule keys)

variable [DecidableEq ι]

/-- Take a rule off the list of its node and drop its reference on the node. -/
def matchRuleUnlinkByKeys (rule : ι) (c : MatchRegistryByKeys ι) : MatchRegistryByKeys ι :=
  ⟨c.nRefs - 1, c.content.erase rule⟩

/-- The tree part of `match_rule_unlink`: the dropped reference is passed on as long as it was the
last one of its node. -/
def matchTreeUnlink (rule : ι) (keys : MatchKeys) (t : MatchTree ι) : MatchTree ι :=
  drop t (keys.filter.path.getD []) fun c =>
    dropChild c (keys.filter.interface.getD []) fun c =>
      dropChild c (keys.filter.member.getD []) fun c => dropChild c keys (matchRuleUnlinkByKeys rule)

/-- `match_registry_by_keys_flush`. -/
def matchRegistryByKeysFlush (c : MatchRegistryByKeys ι) : MatchRegistryByKeys ι :=
  c.content.foldl (fun c rule => matchRuleUnlinkByKeys rule c) c

/-- `match_registry_by_member_flush`. -/
def matchRegistryByMemberFlush (c : MatchRegistryByMember ι) : MatchRegistryByMember ι :=
  flushChildren [] matchRegistryByKeysFlush c

/-- `match_registry_by_interface_flush`. -/
def matchRegistryByInterfaceFlush (c : MatchRegistryByInterface ι) : MatchRegistryByInterface ι :=
  flushChildren .empty matchRegistryByMemberFlush c

/-- `match_registry_by_path_flush`. -/
def matchRegistryByPathFlush (c : MatchRegistryByPath ι) : MatchRegistryByPath ι :=
  flushChildren .empty matchRegistryByInterfaceFlush c

/-- The part of `match_registry_flush` for one tree. -/
def matchTreeFlush (t : MatchTree ι) : MatchTree ι := flush t .empty matchRegistryByPathFlush

end Link

section Destinations

variable {ι ο : Type} [DecidableEq ο] (owner : ι → ο)

/-- Put an owner at the end of the destinations, unless it is linked already. -/
def addDestination (destinations : List ο) (o : ο) : List ο :=
  if o ∈ destinations then destinations else destinations ++ [o]

/-- `match_registry_by_keys_get_destinations`. -/
def matchRegistryByKeysGetDestinations (c : MatchRegistryByKeys ι) (destinations : List ο) : List ο :=
  c.content.foldl (fun destinations rule => addDestination destinations (owner rule)) destinations

/-- `match_registry_by_member_get_destinations`. -/
def matchRegistryByMemberGetDestinations (c : MatchRegistryByMember ι) (destinations : List ο)
    (metadata : MessageMetadata) : List ο :=
  c.content.entries.foldl
    (fun destinations e =>
      if matchKeysMatchMetadata e.1 metadata then matchRegistryByKeysGetDestinations owner e.2 destinations
      else destinations)
    destinations

/-- Collect from a node that was looked up, if it was found. -/
def collectFound {α : Type} (collect : α → List ο → List ο) (found : Option α) (destinations : List ο) :
    List ο :=
  match found with
  | some c => collect c destinations
  | none => destinations

/-- Look at the node without a key, and at the node of the key of the message if it has one. -/
def lookupDestinations {α : Type} (t : StringTree α) (key : Option Bytes)
    (collect : α → List ο → List ο) (destinations : List ο) : List ο :=
  collectFound collect (key.bind t.find?) (collectFound collect (t.find? []) destinations)

/-- `match_registry_by_interface_get_destinations`. -/
def matchRegistryByInterfaceGetDestinations (c : MatchRegistryByInterface ι) (destinations : List ο)
    (metadata : MessageMetadata) : List ο :=
  lookupDestinations c.content metadata.member
    (fun c destinations => matchRegistryByMemberGetDestinations owner c destinations metadata) destinations

/-- `match_registry_by_path_get_destinations`. -/
def matchRegistryByPathGetDestinations (c : MatchRegistryByPath ι) (destinations : List ο)
    (metadata : MessageMetadata) : List ο :=
  lookupDestinations c.content metadata.interface
    (fun c destinations => matchRegistryByInterfaceGetDestinations owner c destinations metadata) destinations

/-- `match_registry_get_destinations`. -/
def matchRegistryGetDestinations (t : MatchTree ι) (destinations : List ο) (metadata : MessageMetadata) :
    List ο :=
  lookupDestinations t metadata.path
    (fun c destinations => matchRegistryByPathGetDestinations owner c destinations metadata) destinations

/-- `match_registry_get_subscribers`. -/
def matchRegistryGetSubscribers (r : MatchRegistry ι) (destinations : List ο) (metadata : MessageMetadata) :
    List ο :=
  matchRegistryGetDestinations owner r.subscriptionTree destinations metadata

/-- `match_registry_get_monitors`. -/
def matchRegistryGetMonitors (r : MatchRegistry ι) (destinations : List ο) (metadata : MessageMetadata) :
    List ο :=
  matchRegistryGetDestinations owner r.monitorTree destinations metadata

end Destinations

/-- What a linked rule remembers: its registry, the tree it was filed in, and whether counters
were passed. -/
structure MatchLink (ρ : Type) where
  registry : ρ
  monitor : Bool
  counted : Bool
  deriving DecidableEq

/-- Registries, the links of the rules, and `MatchCounters` with the counts of the owners. -/
structure MatchWorld (ρ ι ο : Type) where
  registries : ρ → MatchRegistry ι
  link : ι → Option (MatchLink ρ)
  nSubscriptions : ℕ
  nSubscriptionsPeak : ℕ
  nOwnerSubscriptions : ο → ℕ
  nOwnerSubscriptionsPeak : ℕ
  assertFailed : Bool

/-- Empty registries and no linked rule. -/
def MatchWorld.init {ρ ι ο : Type} : MatchWorld ρ ι ο :=
  ⟨fun _ => matchRegistryInit, fun _ => none, 0, 0, fun _ => 0, 0, false⟩

section World

variable {ρ ι ο : Type} [DecidableEq ρ] [DecidableEq ι] [DecidableEq ο] (keys : ι → MatchKeys) (owner : ι → ο)

/-- Record the outcome of an assertion. -/
def MatchWorld.check (w : MatchWorld ρ ι ο) (condition : Bool) : MatchWorld ρ ι ο :=
  { w with assertFailed := w.assertFailed || !condition }

/-- The counters after a rule is linked. -/
def matchCountersLink (w : MatchWorld ρ ι ο) (o : ο) : MatchWorld ρ ι ο :=
  { w with
    nSubscriptions := w.nSubscriptions + 1
    nSubscriptionsPeak := max w.nSubscriptionsPeak (w.nSubscriptions + 1)
    nOwnerSubscriptions := Function.update w.nOwnerSubscriptions o (w.nOwnerSubscriptions o + 1)
    nOwnerSubscriptionsPeak := max w.nOwnerSubscriptionsPeak (w.nOwnerSubscriptions o + 1) }

/-- The counters after a rule is unlinked. -/
def matchCountersUnlink (w : MatchWorld ρ ι ο) (o : ο) : MatchWorld ρ ι ο :=
  { w with
    nSubscriptions := w.nSubscriptions - 1
    nOwnerSubscriptions := Function.update w.nOwnerSubscriptions o (w.nOwnerSubscriptions o - 1) }

/-- `match_rule_link`. A rule that is linked stays where it is. -/
def matchRuleLink (w : MatchWorld ρ ι ο) (rule : ι) (counted : Bool) (registry : ρ) (monitor : Bool) :
    MatchWorld ρ ι ο :=
  match w.link rule with
  | some l => w.check (l.registry = registry && l.counted = counted)
  | none =>
    let tree := matchTreeLink rule (keys rule) ((w.registries registry).tree monitor)
    let w :=
      { w with
        registries := Function.update w.registries registry ((w.registries registry).setTree monitor tree)
        link := Function.update w.link rule (some ⟨registry, monitor, counted⟩) }
    if counted then matchCountersLink w (owner rule) else w

/-- The part of `match_rule_unlink` outside the trees. -/
def matchLinkClear (w : MatchWorld ρ ι ο) (rule : ι) : MatchWorld ρ ι ο :=
  match w.link rule with
  | none => w
  | some l =>
    let w := if l.counted then matchCountersUnlink w (owner rule) else w
    { w with link := Function.update w.link rule none }

/-- `match_rule_unlink`. -/
def matchRuleUnlink (w : MatchWorld ρ ι ο) (rule : ι) : MatchWorld ρ ι ο :=
  match w.link rule with
  | none => w
  | some l =>
    let tree := matchTreeUnlink rule (keys rule) ((w.registries l.registry).tree l.monitor)
    let w := matchLinkClear owner w rule
    { w with
      registries := Function.update w.registries l.registry ((w.registries l.registry).setTree l.monitor tree) }

/-- The rules of a tree in the order of the nodes. -/
def matchTreeRules (t : MatchTree ι) : List ι :=
  t.values.flatMap fun c => c.content.values.flatMap fun c => c.content.values.flatMap fun c =>
    c.content.values.flatMap fun c => c.content

/-- `match_registry_flush`: every rule in the registry is unlinked, both trees are empty after it. -/
def matchRegistryFlush (w : MatchWorld ρ ι ο) (registry : ρ) : MatchWorld ρ ι ο :=
  let r := w.registries registry
  let rules := matchTreeRules r.subscriptionTree ++ matchTreeRules r.monitorTree
  let w := rules.foldl (matchLinkClear owner) w
  { w with
    registries := Function.update w.registries registry
      ⟨matchTreeFlush r.subscriptionTree, matchTreeFlush r.monitorTree⟩ }

end World

end DbusBroker
