import Mathlib.Data.Finset.Card
import DbusBroker.Bus.MatchScan
import DbusBroker.Lib.RefChecks

/-!
# References in the match index

The assertions that linking, unlinking and flushing make on the nodes of the index, the links that fail
half-way because there is no memory, and the counters. In every reachable state the references on a node are
those of its children, a node without children is gone, and no assertion fails.
-/

namespace DbusBroker

open Std Machine Counted

section Checks

variable {ι : Type}

/-- What `match_rule_link_by_keys` asserts. -/
def matchRuleLinkByKeysOk (c : MatchRegistryByKeys ι) : Bool := 0 < c.nRefs

/-- What `match_rule_link_by_member` asserts. -/
def matchRuleLinkByMemberOk (rule : ι) (keys : MatchKeys) (c : MatchRegistryByMember ι) : Bool :=
  visitChildOk List.length c keys [] (matchRuleLinkByKeys rule) matchRuleLinkByKeysOk

/-- What `match_rule_link_by_interface` asserts. -/
def matchRuleLinkByInterfaceOk (rule : ι) (keys : MatchKeys) (c : MatchRegistryByInterface ι) : Bool :=
  visitChildOk SearchTree.size c (keys.filter.member.getD []) .empty (matchRuleLinkByMember rule keys)
    (matchRuleLinkByMemberOk rule keys)

/-- What `match_rule_link_by_path` asserts. -/
def matchRuleLinkByPathOk (rule : ι) (keys : MatchKeys) (c : MatchRegistryByPath ι) : Bool :=
  visitChildOk SearchTree.size c (keys.filter.interface.getD []) .empty (matchRuleLinkByInterface rule keys)
    (matchRuleLinkByInterfaceOk rule keys)

/-- What `match_rule_link` asserts on the nodes of a tree. -/
def matchTreeLinkOk (rule : ι) (keys : MatchKeys) (t : MatchTree ι) : Bool :=
  visitOk SearchTree.size t (keys.filter.path.getD []) .empty (matchRuleLinkByPath rule keys)
    (matchRuleLinkByPathOk rule keys)

/-- The level whose node cannot be allocated. -/
inductive LinkFailure where
  | byPath
  | byInterface
  | byMember
  | byKeys
  deriving DecidableEq, Repr

/-- The part of a link that fails below a node by interface: a node by member is there for a while. -/
def matchRuleLinkFailByInterface (keys : MatchKeys) (c : MatchRegistryByInterface ι) : MatchRegistryByInterface ι :=
  visitChild c (keys.filter.member.getD []) .empty id

/-- What it asserts. -/
def matchRuleLinkFailByInterfaceOk (keys : MatchKeys) (c : MatchRegistryByInterface ι) : Bool :=
  visitChildOk SearchTree.size c (keys.filter.member.getD []) .empty id fun _ => true

/-- The part of a link that fails below a node by path, given what happens to the node by interface. -/
def matchRuleLinkFailByPath (keys : MatchKeys) (act : MatchRegistryByInterface ι → MatchRegistryByInterface ι)
    (c : MatchRegistryByPath ι) : MatchRegistryByPath ι :=
  visitChild c (keys.filter.interface.getD []) .empty act

/-- What it asserts. -/
def matchRuleLinkFailByPathOk (keys : MatchKeys) (act : MatchRegistryByInterface ι → MatchRegistryByInterface ι)
    (ok : MatchRegistryByInterface ι → Bool) (c : MatchRegistryByPath ι) : Bool :=
  visitChildOk SearchTree.size c (keys.filter.interface.getD []) .empty act ok

/-- The tree part of a `match_rule_link` that fails: the nodes above the one that cannot be allocated are pinned
and dropped again. -/
def matchTreeLinkFail (keys : MatchKeys) (t : MatchTree ι) : LinkFailure → MatchTree ι
  | .byPath => t
  | .byInterface => visit t (keys.filter.path.getD []) .empty id
  | .byMember => visit t (keys.filter.path.getD []) .empty (matchRuleLinkFailByPath keys id)
  | .byKeys =>
    visit t (keys.filter.path.getD []) .empty (matchRuleLinkFailByPath keys (matchRuleLinkFailByInterface keys))

/-- What a `match_rule_link` that fails asserts. -/
def matchTreeLinkFailOk (keys : MatchKeys) (t : MatchTree ι) : LinkFailure → Bool
  | .byPath => true
  | .byInterface => visitOk SearchTree.size t (keys.filter.path.getD []) .empty id fun _ => true
  | .byMember =>
    visitOk SearchTree.size t (keys.filter.path.getD []) .empty (matchRuleLinkFailByPath keys id)
      (matchRuleLinkFailByPathOk keys id fun _ => true)
  | .byKeys =>
    visitOk SearchTree.size t (keys.filter.path.getD []) .empty
      (matchRuleLinkFailByPath keys (matchRuleLinkFailByInterface keys))
      (matchRuleLinkFailByPathOk keys (matchRuleLinkFailByInterface keys) (matchRuleLinkFailByInterfaceOk keys))

variable [DecidableEq ι]

/-- What dropping the reference of a rule on its node asserts, with the rule taken off the list. -/
def matchRuleUnlinkByKeysOk (rule : ι) (c : MatchRegistryByKeys ι) : Bool :=
  unrefOk List.length ⟨c.nRefs, c.content.erase rule⟩

/-- What `match_rule_unlink` asserts on the nodes of a tree. -/
def matchTreeUnlinkOk (rule : ι) (keys : MatchKeys) (t : MatchTree ι) : Bool :=
  dropOk t (keys.filter.path.getD []) fun c =>
    dropChildOk c (keys.filter.interface.getD [])
      (fun c => dropChild c (keys.filter.member.getD []) fun c => dropChild c keys (matchRuleUnlinkByKeys rule))
      fun c => dropChildOk c (keys.filter.member.getD []) (fun c => dropChild c keys (matchRuleUnlinkByKeys rule))
        fun c => dropChildOk c keys (matchRuleUnlinkByKeys rule) (matchRuleUnlinkByKeysOk rule)

/-- What `match_registry_by_keys_flush` asserts: each drop, and that no rule is left. -/
def matchRegistryByKeysFlushOk (c : MatchRegistryByKeys ι) : Bool :=
  decide (Along (fun c rule => matchRuleUnlinkByKeys rule c) (fun c rule => matchRuleUnlinkByKeysOk rule c = true) c
      c.content) &&
    (matchRegistryByKeysFlush c).content.isEmpty

/-- What `match_registry_by_member_flush` asserts. -/
def matchRegistryByMemberFlushOk (c : MatchRegistryByMember ι) : Bool :=
  flushChildrenOk List.length [] matchRegistryByKeysFlush matchRegistryByKeysFlushOk c

/-- What `match_registry_by_interface_flush` asserts. -/
def matchRegistryByInterfaceFlushOk (c : MatchRegistryByInterface ι) : Bool :=
  flushChildrenOk SearchTree.size .empty matchRegistryByMemberFlush matchRegistryByMemberFlushOk c

/-- What `match_registry_by_path_flush` asserts. -/
def matchRegistryByPathFlushOk (c : MatchRegistryByPath ι) : Bool :=
  flushChildrenOk SearchTree.size .empty matchRegistryByInterfaceFlush matchRegistryByInterfaceFlushOk c

/-- What `match_registry_flush` asserts on one tree. -/
def matchTreeFlushOk (t : MatchTree ι) : Bool :=
  flushOk SearchTree.size t .empty matchRegistryByPathFlush matchRegistryByPathFlushOk

end Checks

section Sound

variable {ι : Type} {t : MatchTree ι} {rule : ι} {keys : MatchKeys}

/-- Linking a rule to a node by keys asserts nothing wrong. -/
theorem admits_matchRuleLinkByKeysOk (rule : ι) : (Level.leaf ι).Admits () rule matchRuleLinkByKeysOk := by
  intro c hc _
  have hcount : c.nRefs = c.content.length + 1 := hc.1
  exact decide_eq_true (by omega)

/-- Linking a rule below a node by member asserts nothing wrong. -/
theorem admits_matchRuleLinkByMemberOk (rule : ι) (keys : MatchKeys) :
    (keysLevel ι).Admits (keys, ()) rule (matchRuleLinkByMemberOk rule keys) :=
  Level.admits_visitChild (Level.leaf ι) ⟨rfl, List.nodup_nil⟩ (files_matchRuleLinkByKeys rule)
    (admits_matchRuleLinkByKeysOk rule)

/-- Linking a rule below a node by interface asserts nothing wrong. -/
theorem admits_matchRuleLinkByInterfaceOk (rule : ι) (keys : MatchKeys) :
    (memberLevel ι).Admits (keys.filter.member.getD [], keys, ()) rule (matchRuleLinkByInterfaceOk rule keys) :=
  Level.admits_visitChild (keysLevel ι) ⟨rfl, Level.sound_empty _⟩ (files_matchRuleLinkByMember rule keys)
    (admits_matchRuleLinkByMemberOk rule keys)

/-- Linking a rule below a node by path asserts nothing wrong. -/
theorem admits_matchRuleLinkByPathOk (rule : ι) (keys : MatchKeys) :
    (interfaceLevel ι).Admits (keys.filter.interface.getD [], keys.filter.member.getD [], keys, ()) rule
      (matchRuleLinkByPathOk rule keys) :=
  Level.admits_visitChild (memberLevel ι) ⟨rfl, Level.sound_empty _⟩ (files_matchRuleLinkByInterface rule keys)
    (admits_matchRuleLinkByInterfaceOk rule keys)

/-- Linking asserts nothing wrong on a sound tree. -/
theorem matchTreeLinkOk_of_sound (ht : (pathLevel ι).Sound t)
    (hfresh : rule ∉ (pathLevel ι).view t (matchRoute keys)) : matchTreeLinkOk rule keys t = true :=
  Level.visitOk_of_admits (interfaceLevel ι) ht ⟨rfl, Level.sound_empty _⟩ (files_matchRuleLinkByPath rule keys)
    (admits_matchRuleLinkByPathOk rule keys) hfresh

/-- A link that fails below a node by interface leaves the node as it was. -/
theorem inert_matchRuleLinkFailByInterface (keys : MatchKeys) :
    (memberLevel ι).Inert (matchRuleLinkFailByInterface keys) (matchRuleLinkFailByInterfaceOk keys) :=
  Level.inert_visitChild (keysLevel ι) (keys.filter.member.getD []) ⟨rfl, Level.sound_empty _⟩
    (Level.inert_id (keysLevel ι))

/-- A link that fails below a node by path leaves the node as it was, if it leaves the node by interface. -/
theorem inert_matchRuleLinkFailByPath (keys : MatchKeys)
    {act : MatchRegistryByInterface ι → MatchRegistryByInterface ι} {ok : MatchRegistryByInterface ι → Bool}
    (h : (memberLevel ι).Inert act ok) :
    (interfaceLevel ι).Inert (matchRuleLinkFailByPath keys act) (matchRuleLinkFailByPathOk keys act ok) :=
  Level.inert_visitChild (memberLevel ι) (keys.filter.interface.getD []) ⟨rfl, Level.sound_empty _⟩ h

/-- A link that fails leaves a sound tree as it was, and asserts nothing wrong. -/
theorem matchTreeLinkFail_of_sound (ht : (pathLevel ι).Sound t) (keys : MatchKeys) (failure : LinkFailure) :
    matchTreeLinkFail keys t failure = t ∧ matchTreeLinkFailOk keys t failure = true := by
  cases failure with
  | byPath => exact ⟨rfl, rfl⟩
  | byInterface =>
    exact Level.visit_of_inert (interfaceLevel ι) (keys.filter.path.getD []) ht ⟨rfl, Level.sound_empty _⟩
      (Level.inert_id (interfaceLevel ι))
  | byMember =>
    exact Level.visit_of_inert (interfaceLevel ι) (keys.filter.path.getD []) ht ⟨rfl, Level.sound_empty _⟩
      (inert_matchRuleLinkFailByPath keys (Level.inert_id (memberLevel ι)))
  | byKeys =>
    exact Level.visit_of_inert (interfaceLevel ι) (keys.filter.path.getD []) ht ⟨rfl, Level.sound_empty _⟩
      (inert_matchRuleLinkFailByPath keys (inert_matchRuleLinkFailByInterface keys))

variable [DecidableEq ι]

/-- Unlinking asserts nothing wrong on a sound tree. -/
theorem matchTreeUnlinkOk_of_sound (ht : (pathLevel ι).Sound t)
    (hmem : rule ∈ (pathLevel ι).view t (matchRoute keys)) : matchTreeUnlinkOk rule keys t = true := by
  have hkeys : (Level.leaf ι).Releases () rule (matchRuleUnlinkByKeysOk rule) := by
    intro c hc hrule
    have hcount : c.nRefs = c.content.length + 0 := hc.1
    have hlength : (c.content.erase rule).length = c.content.length - 1 := List.length_erase_of_mem hrule
    have hpos : 0 < c.content.length := List.length_pos_of_mem hrule
    rw [matchRuleUnlinkByKeysOk, unrefOk, Bool.and_eq_true, Bool.or_eq_true, decide_eq_true_iff, decide_eq_true_iff,
      beq_iff_eq]
    dsimp only
    omega
  have hmember : (keysLevel ι).Releases (keys, ()) rule fun c =>
      dropChildOk c keys (matchRuleUnlinkByKeys rule) (matchRuleUnlinkByKeysOk rule) :=
    Level.releases_dropChild (Level.leaf ι) hkeys
  have hinterface : (memberLevel ι).Releases (keys.filter.member.getD [], keys, ()) rule fun c =>
      dropChildOk c (keys.filter.member.getD []) (fun c => dropChild c keys (matchRuleUnlinkByKeys rule)) fun c =>
        dropChildOk c keys (matchRuleUnlinkByKeys rule) (matchRuleUnlinkByKeysOk rule) :=
    Level.releases_dropChild (keysLevel ι) hmember
  exact Level.dropOk_of_releases (interfaceLevel ι) ht (Level.releases_dropChild (memberLevel ι) hinterface) hmem

/-- Flushing a node by keys asserts nothing wrong. -/
theorem clears_matchRegistryByKeysFlushOk : (Level.leaf ι).Clears matchRegistryByKeysFlushOk := by
  have halong (l : List ι) (n : ℕ) (hn : n = l.length + 1) :
      Along (fun c rule => matchRuleUnlinkByKeys rule c) (fun c rule => matchRuleUnlinkByKeysOk rule c = true)
        (⟨n, l⟩ : MatchRegistryByKeys ι) l := by
    induction l generalizing n with
    | nil => trivial
    | cons x l ih =>
      have herase : (x :: l).erase x = l := List.erase_cons_head x l
      constructor
      · show matchRuleUnlinkByKeysOk x ⟨n, x :: l⟩ = true
        rw [matchRuleUnlinkByKeysOk, herase, unrefOk, Bool.and_eq_true, Bool.or_eq_true, decide_eq_true_iff,
          decide_eq_true_iff, beq_iff_eq]
        dsimp only
        rw [List.length_cons] at hn
        omega
      · show Along _ _ (matchRuleUnlinkByKeys x ⟨n, x :: l⟩) l
        rw [matchRuleUnlinkByKeys, herase]
        exact ih (n - 1) (by rw [hn, List.length_cons, Nat.add_sub_cancel])
  intro c hc
  have hempty : (matchRegistryByKeysFlush c).content = [] :=
    List.eq_nil_of_length_eq_zero (empties_matchRegistryByKeysFlush c hc).2
  rw [matchRegistryByKeysFlushOk, decide_eq_true (halong c.content c.nRefs hc.1), hempty]
  rfl

/-- Flushing a node by member asserts nothing wrong. -/
theorem clears_matchRegistryByMemberFlushOk : (keysLevel ι).Clears matchRegistryByMemberFlushOk :=
  Level.clears_flushChildren (Level.leaf ι) ⟨rfl, List.nodup_nil⟩ empties_matchRegistryByKeysFlush
    clears_matchRegistryByKeysFlushOk

/-- Flushing a node by interface asserts nothing wrong. -/
theorem clears_matchRegistryByInterfaceFlushOk : (memberLevel ι).Clears matchRegistryByInterfaceFlushOk :=
  Level.clears_flushChildren (keysLevel ι) ⟨rfl, Level.sound_empty _⟩ empties_matchRegistryByMemberFlush
    clears_matchRegistryByMemberFlushOk

/-- Flushing a node by path asserts nothing wrong. -/
theorem clears_matchRegistryByPathFlushOk : (interfaceLevel ι).Clears matchRegistryByPathFlushOk :=
  Level.clears_flushChildren (memberLevel ι) ⟨rfl, Level.sound_empty _⟩ empties_matchRegistryByInterfaceFlush
    clears_matchRegistryByInterfaceFlushOk

/-- Flushing asserts nothing wrong on a sound tree. -/
theorem matchTreeFlushOk_of_sound (ht : (pathLevel ι).Sound t) : matchTreeFlushOk t = true :=
  Level.flushOk_of_clears (interfaceLevel ι) ht ⟨rfl, Level.sound_empty _⟩ empties_matchRegistryByPathFlush
    clears_matchRegistryByPathFlushOk

end Sound

section Nodes

variable {ι : Type} {t : MatchTree ι} {keys : MatchKeys} {rule : ι}

/-- A node that is in the index: it is referenced by its children alone, and by one at least. -/
def NodeCounted {α : Type} (size : α → ℕ) (c : Counted α) : Prop := c.nRefs = size c.content ∧ 0 < c.nRefs

/-- Every node of a tree, on each of the four levels, is referenced by its children alone. -/
def NodesCounted (t : MatchTree ι) : Prop :=
  ∀ path byPath, t.find? path = some byPath → NodeCounted SearchTree.size byPath ∧
    ∀ interface byInterface, byPath.content.find? interface = some byInterface →
      NodeCounted SearchTree.size byInterface ∧
      ∀ member byMember, byInterface.content.find? member = some byMember →
        NodeCounted SearchTree.size byMember ∧
        ∀ keys byKeys, byMember.content.find? keys = some byKeys → NodeCounted List.length byKeys

/-- The nodes above a rule, from the tree down to the list the rule is in. -/
def FiledIn (keys : MatchKeys) (rule : ι) (t : MatchTree ι) : Prop :=
  ∃ byPath byInterface byMember byKeys, t.find? (keys.filter.path.getD []) = some byPath ∧
    byPath.content.find? (keys.filter.interface.getD []) = some byInterface ∧
    byInterface.content.find? (keys.filter.member.getD []) = some byMember ∧
    byMember.content.find? keys = some byKeys ∧ rule ∈ byKeys.content

/-- `match_registry_deinit`. -/
def matchRegistryDeinitOk (r : MatchRegistry ι) : Bool := r.subscriptionTree.size == 0 && r.monitorTree.size == 0

/-- A child of a sound node is counted. -/
theorem nodeCounted_of_pinned {α A : Type} {L : Level α A ι} {c : Counted α} (h : L.Pinned 0 c ∧ 0 < c.nRefs) :
    NodeCounted L.size c := ⟨h.1.1, h.2⟩

/-- The nodes of a sound tree are counted. -/
theorem nodesCounted_of_sound (ht : (pathLevel ι).Sound t) : NodesCounted t := by
  intro path byPath hpath
  have hbyPath := ht path byPath hpath
  refine ⟨nodeCounted_of_pinned hbyPath, fun interface byInterface hinterface => ?_⟩
  have hbyInterface := hbyPath.1.2 interface byInterface hinterface
  refine ⟨nodeCounted_of_pinned hbyInterface, fun member byMember hmember => ?_⟩
  have hbyMember := hbyInterface.1.2 member byMember hmember
  refine ⟨nodeCounted_of_pinned hbyMember, fun keys byKeys hkeys => ?_⟩
  exact nodeCounted_of_pinned (hbyMember.1.2 keys byKeys hkeys)

/-- A rule that is found at the address of its keys is filed. -/
theorem filedIn_of_mem_view (h : rule ∈ (pathLevel ι).view t (matchRoute keys)) : FiledIn keys rule t := by
  obtain ⟨byPath, hpath, h⟩ := (interfaceLevel ι).exists_of_mem_view h
  obtain ⟨byInterface, hinterface, h⟩ := (memberLevel ι).exists_of_mem_view h
  obtain ⟨byMember, hmember, h⟩ := (keysLevel ι).exists_of_mem_view h
  obtain ⟨byKeys, hkeys, h⟩ := (Level.leaf ι).exists_of_mem_view h
  exact ⟨byPath, byInterface, byMember, byKeys, hpath, hinterface, hmember, hkeys, h⟩

/-- A sound tree in which nothing is filed has no node. -/
theorem size_eq_zero_of_sound (ht : (pathLevel ι).Sound t) (hnone : ∀ a rule, rule ∉ (pathLevel ι).view t a) :
    t.size = 0 := by
  have hkeys : (keysLevel ι).Occupied := Level.occupied_tree (Level.leaf ι) Level.occupied_leaf
  have hmember : (memberLevel ι).Occupied := Level.occupied_tree (keysLevel ι) hkeys
  have hinterface : (interfaceLevel ι).Occupied := Level.occupied_tree (memberLevel ι) hmember
  by_contra hsize
  obtain ⟨a, rule, hmem⟩ := Level.occupied_tree (interfaceLevel ι) hinterface t ht hsize
  exact hnone a rule hmem

end Nodes

/-- The operations on match registries, and links that fail for want of memory. -/
inductive IndexOp (ρ ι : Type) where
  | perform (op : MatchOp ρ ι)
  | linkFail (rule : ι) (registry : ρ) (monitor : Bool) (failure : LinkFailure)

/-- The operation, if it does not fail. -/
def IndexOp.performed {ρ ι : Type} : IndexOp ρ ι → Option (MatchOp ρ ι)
  | .perform op => some op
  | .linkFail .. => none

section World

variable {ρ ι ο : Type} [DecidableEq ρ] [DecidableEq ι] [DecidableEq ο] {keys : ι → MatchKeys} {owner : ι → ο}
variable {w : MatchWorld ρ ι ο}

/-- A `match_rule_link` that fails. A rule that is linked needs no node. -/
def matchRuleLinkFail (keys : ι → MatchKeys) (w : MatchWorld ρ ι ο) (rule : ι) (registry : ρ) (monitor : Bool)
    (failure : LinkFailure) : MatchWorld ρ ι ο :=
  match w.link rule with
  | some _ => w
  | none =>
    let tree := matchTreeLinkFail (keys rule) ((w.registries registry).tree monitor) failure
    { w with registries := Function.update w.registries registry ((w.registries registry).setTree monitor tree) }

/-- Perform one operation, or let it fail. -/
def MatchWorld.indexStep (keys : ι → MatchKeys) (owner : ι → ο) (w : MatchWorld ρ ι ο) :
    IndexOp ρ ι → MatchWorld ρ ι ο
  | .perform op => w.step keys owner op
  | .linkFail rule registry monitor failure => matchRuleLinkFail keys w rule registry monitor failure

/-- What an operation asserts on the nodes of the index. -/
def MatchWorld.opOk (keys : ι → MatchKeys) (w : MatchWorld ρ ι ο) : IndexOp ρ ι → Bool
  | .perform (.link rule _ registry monitor) =>
    (w.link rule).isSome || matchTreeLinkOk rule (keys rule) ((w.registries registry).tree monitor)
  | .perform (.unlink rule) =>
    (w.link rule).all fun l => matchTreeUnlinkOk rule (keys rule) ((w.registries l.registry).tree l.monitor)
  | .perform (.flush registry) =>
    matchTreeFlushOk (w.registries registry).subscriptionTree && matchTreeFlushOk (w.registries registry).monitorTree
  | .linkFail rule registry monitor failure =>
    (w.link rule).isSome || matchTreeLinkFailOk (keys rule) ((w.registries registry).tree monitor) failure

/-- A rule is linked, and counts as a subscription. -/
def CountedLink (w : MatchWorld ρ ι ο) (rule : ι) : Prop := ∃ l, w.link rule = some l ∧ l.counted = true

/-- The counters are the numbers of linked rules that count, in all and for each owner. -/
def CountersHold (owner : ι → ο) (w : MatchWorld ρ ι ο) : Prop :=
  ∃ rules : Finset ι, (∀ rule, rule ∈ rules ↔ CountedLink w rule) ∧ w.nSubscriptions = rules.card ∧
    ∀ o, w.nOwnerSubscriptions o = {rule ∈ rules | owner rule = o}.card

omit [DecidableEq ρ] [DecidableEq ι] in
/-- The trees do not matter to the counters. -/
theorem CountersHold.congr {w' : MatchWorld ρ ι ο} (h : CountersHold owner w) (hlink : w'.link = w.link)
    (hcount : w'.nSubscriptions = w.nSubscriptions) (howner : w'.nOwnerSubscriptions = w.nOwnerSubscriptions) :
    CountersHold owner w' := by
  rw [CountersHold, hcount, howner]
  unfold CountedLink
  rw [hlink]
  exact h

omit [DecidableEq ρ] [DecidableEq ο] in
/-- Which rules count after the link of one is written. -/
theorem countedLink_update {w' : MatchWorld ρ ι ο} {rule : ι} {x : Option (MatchLink ρ)}
    (hlink : w'.link = Function.update w.link rule x) (rule' : ι) :
    CountedLink w' rule' ↔ if rule' = rule then (∃ l, x = some l ∧ l.counted = true) else CountedLink w rule' := by
  rw [CountedLink, hlink, Function.update_apply]
  split
  · rfl
  · rfl

omit [DecidableEq ρ] in
/-- Counting a rule that did not count. -/
theorem CountersHold.insert {w' : MatchWorld ρ ι ο} (h : CountersHold owner w) {rule : ι} {l : MatchLink ρ}
    (hrule : ¬CountedLink w rule) (hcounted : l.counted = true)
    (hlink : w'.link = Function.update w.link rule (some l)) (hcount : w'.nSubscriptions = w.nSubscriptions + 1)
    (howner : w'.nOwnerSubscriptions =
      Function.update w.nOwnerSubscriptions (owner rule) (w.nOwnerSubscriptions (owner rule) + 1)) :
    CountersHold owner w' := by
  obtain ⟨rules, hmem, hsize, hsizes⟩ := h
  have hfresh : rule ∉ rules := fun hin => hrule ((hmem rule).mp hin)
  refine ⟨Insert.insert rule rules, fun rule' => ?_, ?_, fun o => ?_⟩
  · rw [countedLink_update hlink, Finset.mem_insert, hmem]
    by_cases hsame : rule' = rule
    · rw [if_pos hsame]
      exact iff_of_true (.inl hsame) ⟨l, rfl, hcounted⟩
    · rw [if_neg hsame, or_iff_right hsame]
  · rw [hcount, hsize, Finset.card_insert_of_notMem hfresh]
  · rw [howner, Function.update_apply, Finset.filter_insert]
    by_cases ho : o = owner rule
    · rw [if_pos ho, if_pos ho.symm, Finset.card_insert_of_notMem fun hin => hfresh (Finset.mem_filter.mp hin).1,
        hsizes, ho]
    · rw [if_neg ho, if_neg fun heq => ho heq.symm, hsizes]

omit [DecidableEq ρ] in
/-- Linking or clearing a rule that does not count, before and after. -/
theorem CountersHold.ignore {w' : MatchWorld ρ ι ο} (h : CountersHold owner w) {rule : ι}
    {x : Option (MatchLink ρ)} (hrule : ¬CountedLink w rule) (hcounted : ∀ l, x = some l → l.counted = false)
    (hlink : w'.link = Function.update w.link rule x) (hcount : w'.nSubscriptions = w.nSubscriptions)
    (howner : w'.nOwnerSubscriptions = w.nOwnerSubscriptions) : CountersHold owner w' := by
  obtain ⟨rules, hmem, hsize, hsizes⟩ := h
  refine ⟨rules, fun rule' => ?_, hcount.trans hsize, fun o => (congrFun howner o).trans (hsizes o)⟩
  rw [countedLink_update hlink, hmem]
  by_cases hsame : rule' = rule
  · rw [if_pos hsame, hsame]
    refine iff_of_false hrule ?_
    intro hlinked
    obtain ⟨l, hl, htrue⟩ := hlinked
    rw [hcounted l hl] at htrue
    cases htrue
  · rw [if_neg hsame]

omit [DecidableEq ρ] in
/-- Clearing a rule that counts. -/
theorem CountersHold.erase {w' : MatchWorld ρ ι ο} (h : CountersHold owner w) {rule : ι}
    (hrule : CountedLink w rule) (hlink : w'.link = Function.update w.link rule none)
    (hcount : w'.nSubscriptions = w.nSubscriptions - 1)
    (howner : w'.nOwnerSubscriptions =
      Function.update w.nOwnerSubscriptions (owner rule) (w.nOwnerSubscriptions (owner rule) - 1)) :
    CountersHold owner w' := by
  obtain ⟨rules, hmem, hsize, hsizes⟩ := h
  have hin : rule ∈ rules := (hmem rule).mpr hrule
  refine ⟨rules.erase rule, fun rule' => ?_, ?_, fun o => ?_⟩
  · rw [countedLink_update hlink, Finset.mem_erase, hmem]
    by_cases hsame : rule' = rule
    · rw [if_pos hsame]
      refine iff_of_false (fun hne => hne.1 hsame) ?_
      intro hlinked
      obtain ⟨l, hl, -⟩ := hlinked
      cases hl
    · rw [if_neg hsame, and_iff_right hsame]
  · rw [hcount, hsize, Finset.card_erase_of_mem hin]
  · rw [howner, Function.update_apply, Finset.filter_erase]
    by_cases ho : o = owner rule
    · rw [if_pos ho, Finset.card_erase_of_mem (Finset.mem_filter.mpr ⟨hin, ho.symm⟩), hsizes, ho]
    · rw [if_neg ho, hsizes,
        Finset.erase_eq_of_notMem fun hmem' => ho (Finset.mem_filter.mp hmem').2.symm]

omit [DecidableEq ρ] in
/-- Unlinking keeps the counters right. -/
theorem CountersHold.clear (h : CountersHold owner w) (rule : ι) : CountersHold owner (matchLinkClear owner w rule) := by
  unfold matchLinkClear
  cases hrule : w.link rule with
  | none => exact h
  | some l =>
    dsimp only
    cases hcounted : l.counted with
    | true =>
      rw [if_pos rfl]
      exact h.erase ⟨l, hrule, hcounted⟩ rfl rfl rfl
    | false =>
      rw [if_neg Bool.false_ne_true]
      refine h.ignore (x := none) ?_ (fun l' hl' => by cases hl') rfl rfl rfl
      intro hlinked
      obtain ⟨l', hl', htrue⟩ := hlinked
      rw [hrule] at hl'
      cases hl'
      rw [hcounted] at htrue
      cases htrue

omit [DecidableEq ρ] in
/-- Unlinking several rules keeps the counters right. -/
theorem CountersHold.foldl_clear (rules : List ι) (h : CountersHold owner w) :
    CountersHold owner (rules.foldl (matchLinkClear owner) w) := by
  induction rules generalizing w with
  | nil => exact h
  | cons rule rules ih => exact ih (h.clear rule)

/-- Every operation keeps the counters right. -/
theorem CountersHold.step (h : CountersHold owner w) (op : MatchOp ρ ι) :
    CountersHold owner (w.step keys owner op) := by
  cases op with
  | link rule counted registry monitor =>
    rw [MatchWorld.step, matchRuleLink]
    cases hrule : w.link rule with
    | some l => exact h.congr rfl rfl rfl
    | none =>
      have hunlinked : ¬CountedLink w rule := by
        intro hlinked
        obtain ⟨l, hl, -⟩ := hlinked
        rw [hrule] at hl
        cases hl
      cases counted with
      | true => exact h.insert hunlinked (l := ⟨registry, monitor, true⟩) rfl rfl rfl rfl
      | false =>
        refine h.ignore (x := some ⟨registry, monitor, false⟩) hunlinked (fun l hl => ?_) rfl rfl rfl
        cases hl
        rfl
  | unlink rule =>
    rw [MatchWorld.step, matchRuleUnlink]
    cases w.link rule with
    | none => exact h
    | some l => exact (h.clear rule).congr rfl rfl rfl
  | flush registry =>
    rw [MatchWorld.step, matchRegistryFlush]
    exact (h.foldl_clear _).congr rfl rfl rfl

omit [DecidableEq ι] [DecidableEq ο] in
/-- A link that fails changes nothing. -/
theorem matchRuleLinkFail_eq (h : MatchIndexed keys w) (rule : ι) (registry : ρ) (monitor : Bool)
    (failure : LinkFailure) : matchRuleLinkFail keys w rule registry monitor failure = w := by
  unfold matchRuleLinkFail
  cases w.link rule with
  | some l => rfl
  | none =>
    dsimp only
    have hsame := (matchTreeLinkFail_of_sound (h.sound registry monitor) (keys rule) failure).1
    have hset : (w.registries registry).setTree monitor ((w.registries registry).tree monitor) =
        w.registries registry := by
      cases monitor with
      | false => rfl
      | true => rfl
    rw [hsame, hset, Function.update_eq_self]

/-- A run is what its operations do that do not fail. -/
theorem run_indexStep (keys : ι → MatchKeys) (owner : ι → ο) (ops : List (IndexOp ρ ι)) :
    run (MatchWorld.indexStep keys owner) .init ops =
      run (MatchWorld.step keys owner) .init (ops.filterMap IndexOp.performed) := by
  have hrun (w : MatchWorld ρ ι ο) (h : MatchIndexed keys w) : run (MatchWorld.indexStep keys owner) w ops =
      run (MatchWorld.step keys owner) w (ops.filterMap IndexOp.performed) := by
    induction ops generalizing w with
    | nil => rfl
    | cons op ops ih =>
      cases op with
      | perform op => exact ih _ (matchIndexed_step owner h op).1
      | linkFail rule registry monitor failure =>
        rw [run_cons, MatchWorld.indexStep, matchRuleLinkFail_eq h]
        exact ih w h
  exact hrun _ (matchIndexed_init keys)

omit [DecidableEq ρ] [DecidableEq ο] in
/-- No operation fails an assertion on the nodes of a sound index. -/
theorem MatchIndexed.opOk (h : MatchIndexed keys w) (op : IndexOp ρ ι) : w.opOk keys op = true := by
  cases op with
  | perform op =>
    cases op with
    | link rule counted registry monitor =>
      rw [MatchWorld.opOk]
      cases hrule : w.link rule with
      | some l => rfl
      | none =>
        refine Bool.or_eq_true_iff.mpr (.inr (matchTreeLinkOk_of_sound (h.sound registry monitor) ?_))
        intro hmem
        obtain ⟨l, hl, -⟩ := ((h.filed _ _ _ rule).mp hmem).2
        rw [hrule] at hl
        cases hl
    | unlink rule =>
      rw [MatchWorld.opOk]
      cases hrule : w.link rule with
      | none => rfl
      | some l =>
        exact matchTreeUnlinkOk_of_sound (h.sound l.registry l.monitor)
          ((h.filed _ _ _ rule).mpr ⟨rfl, l, hrule, rfl, rfl⟩)
    | flush registry =>
      exact Bool.and_eq_true_iff.mpr ⟨matchTreeFlushOk_of_sound (h.sound registry false),
        matchTreeFlushOk_of_sound (h.sound registry true)⟩
  | linkFail rule registry monitor failure =>
    exact Bool.or_eq_true_iff.mpr
      (.inr (matchTreeLinkFail_of_sound (h.sound registry monitor) (keys rule) failure).2)

omit [DecidableEq ρ] [DecidableEq ι] [DecidableEq ο] in
/-- A registry in which no rule is linked can be freed. -/
theorem MatchIndexed.deinitOk (h : MatchIndexed keys w) (r : ρ)
    (hnone : ∀ rule l, w.link rule = some l → l.registry ≠ r) : matchRegistryDeinitOk (w.registries r) = true := by
  have hempty (m : Bool) : ((w.registries r).tree m).size = 0 := by
    refine size_eq_zero_of_sound (h.sound r m) fun a rule hmem => ?_
    obtain ⟨l, hl, hr, -⟩ := ((h.filed r m a rule).mp hmem).2
    exact hnone rule l hl hr
  have hsubscription : (w.registries r).subscriptionTree.size = 0 := hempty false
  have hmonitor : (w.registries r).monitorTree.size = 0 := hempty true
  rw [matchRegistryDeinitOk, hsubscription, hmonitor]
  rfl

/-- In every state that links, unlinks, flushes and failing links reach: each node has a reference for each of its
children, and one at least; a rule is where it was linked, and nowhere else; the counters are the numbers of
linked rules that count; a registry without linked rules, or after a flush, is empty; and whatever comes next
asserts nothing wrong. -/
theorem MatchWorld.run_references (keys : ι → MatchKeys) (owner : ι → ο) (ops : List (IndexOp ρ ι)) :
    let w := run (MatchWorld.indexStep keys owner) (.init : MatchWorld ρ ι ο) ops
    (∀ r m, NodesCounted ((w.registries r).tree m)) ∧
      (∀ r m rule, (rule ∈ matchTreeRules ((w.registries r).tree m) ↔ LinkedIn w.link r m rule) ∧
        (LinkedIn w.link r m rule → FiledIn (keys rule) rule ((w.registries r).tree m))) ∧
      (∀ rule, (w.link rule).map (fun l => (l.registry, l.monitor)) =
        run scanStep (fun _ => none) (ops.filterMap IndexOp.performed) rule) ∧
      CountersHold owner w ∧
      (∀ r, (∀ rule l, w.link rule = some l → l.registry ≠ r) → matchRegistryDeinitOk (w.registries r) = true) ∧
      (∀ r, matchRegistryDeinitOk ((matchRegistryFlush owner w r).registries r) = true) ∧
      ∀ op, w.opOk keys op = true := by
  intro w
  obtain ⟨hindexed, hlinks⟩ := matchIndexed_run (ρ := ρ) keys owner (ops.filterMap IndexOp.performed)
  rw [← run_indexStep keys owner ops] at hindexed hlinks
  have hcounters : CountersHold owner w := by
    rw [show w = _ from run_indexStep keys owner ops]
    refine run_invariant (P := fun _ _ => True) (fun _ op h _ => h.step op) ?_ (along_true _ _)
    refine ⟨∅, fun rule => iff_of_false (Finset.notMem_empty rule) ?_, rfl, fun o => rfl⟩
    intro hlinked
    obtain ⟨l, hl, -⟩ := hlinked
    cases hl
  refine ⟨fun r m => nodesCounted_of_sound (hindexed.sound r m), fun r m rule => ⟨?_, fun hlinked => ?_⟩, hlinks,
    hcounters, hindexed.deinitOk, fun r => ?_, hindexed.opOk⟩
  · rw [mem_matchTreeRules_iff]
    constructor
    · intro hmem
      obtain ⟨a, ha⟩ := hmem
      exact ((hindexed.filed r m a rule).mp ha).2
    · exact fun hlinked => ⟨_, (hindexed.filed r m _ rule).mpr ⟨rfl, hlinked⟩⟩
  · exact filedIn_of_mem_view ((hindexed.filed r m _ rule).mpr ⟨rfl, hlinked⟩)
  · refine (hindexed.flush r).deinitOk r fun rule l hl => ?_
    rw [matchRegistryFlush_link hindexed, Option.filter_eq_some_iff] at hl
    exact of_decide_eq_true hl.2

end World

end DbusBroker
