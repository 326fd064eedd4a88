import DbusBroker.Bus.MovesNames

/-!
# The moves of the match rules

Adding and dropping rules as moves of the bus. When a rule is linked in a registry of a name,
the reference that was taken on the name is handed to the rule, if the rule gives it back
once it is dropped. Otherwise nobody will ever drop it.
-/

namespace DbusBroker

open Std

variable {ok : Core → Leave → Prop} {x : Aux} {b : Bus} {id : ℕ} {keys : MatchKeys}

/-- The name that a rule refers to and never gives back. -/
def ruleLeak (keys : MatchKeys) : Option Bytes :=
  if (ruleName keys).isSome then none else (namedRegistry keys).bind (·.name)

section Registry

/-- The registry for an id in a rule. -/
theorem peerMatchRegistryById_eq (b : Bus) (i : ℕ) (registry other : RegistryRef) :
    peerMatchRegistryById b i registry other = b.core.matchRegistryById i registry other := by
  rw [peerMatchRegistryById, Core.matchRegistryById, peerRegistryFindPeer]
  show _ = if b.isRegistered i = true then _ else if b.ids ≤ i then _ else _
  cases b.isRegistered i with
  | true => rfl
  | false => rfl

/-- The registry that `peer_link_match` chooses. -/
theorem peerMatchRegistry_eq (b : Bus) (keys : MatchKeys) : peerMatchRegistry b keys = b.core.matchRegistry keys := by
  simp only [peerMatchRegistry, peerMatchRegistryById_eq]
  rfl

/-- A rule that is not linked for a name gives none back. -/
theorem ruleName_eq_none {c : Core} (h : ∀ r, c.matchRegistry keys = some r → r.name = none) :
    ruleName keys = none ∧ ruleLeak keys = none := by
  have hnamed : namedRegistry keys = none := by
    cases hr : namedRegistry keys with
    | none => rfl
    | some r =>
      obtain ⟨n, hn⟩ := name_of_namedRegistry hr
      rw [h r (Core.matchRegistry_of_named c hr)] at hn
      cases hn
  have hname : ruleName keys = none := by
    cases hn : ruleName keys with
    | none => rfl
    | some n =>
      obtain ⟨r, hr, -⟩ := namedRegistry_of_ruleName hn
      rw [hnamed] at hr
      cases hr
  refine ⟨hname, ?_⟩
  rw [ruleLeak, hname, hnamed]
  rfl

/-- The reference on a name is handed to the rule, or nobody will drop it. -/
theorem holdMore_ruleName {r : RegistryRef} {n : Bytes} (hnamed : namedRegistry keys = some r) (hn : r.name = some n)
    (held : Bytes → ℕ) : holdMore held (some n) = holdMore (holdMore held (ruleLeak keys)) (ruleName keys) := by
  rw [ruleLeak]
  cases hname : ruleName keys with
  | none =>
    rw [hnamed]
    show _ = holdMore held r.name
    rw [hn]
  | some m =>
    obtain ⟨r', hr', hm⟩ := namedRegistry_of_ruleName hname
    rw [hnamed] at hr'
    cases hr'
    rw [hn] at hm
    cases hm
    rfl

end Registry

section Link

/-- A name that was just referred to is there. -/
theorem isSome_nameRegistryRefName {ο : Type} [DecidableEq ο] (w : NameRegistry ο) (n : Bytes) :
    ((nameRegistryRefName w n).nameTree.find? n).isSome := by
  rw [nameRegistryRefName]
  cases hy : w.nameTree.find? n with
  | some y =>
    dsimp only
    rw [nameRef, hy]
    dsimp only
    rw [find?_setName]
    rfl
  | none =>
    dsimp only
    rw [find?_setName]
    rfl

/-- `peer_link_match` of a rule that got one more reference. -/
theorem moves_peerLinkMatch (h : Good x b.core) (rule : MatchRule) (monitor : Bool)
    (arming' : Option (ℕ × List MatchKeys)) (said : List Event) (users : UserRegistry)
    (hchange : ∀ w held, Change ok { x with held := holdMore held (ruleName keys) } { b.core with names := w }
      { x with held := held, arming := arming' } (Core.addRule { b.core with names := w } id keys rule monitor) said)
    (hsaid : ∀ e ∈ said, e.isEmission = false) :
    Moves ok (x, b) ({ x with held := holdMore x.held (ruleLeak keys), arming := arming' },
      (peerLinkMatch { b with
        users := users
        ownedMatches := Function.update b.ownedMatches id ((b.ownedMatches id).insert keys rule) } id keys monitor).log
          said) := by
  have hregistry : peerMatchRegistry { b with
      users := users
      ownedMatches := Function.update b.ownedMatches id ((b.ownedMatches id).insert keys rule) } keys =
      b.core.matchRegistry keys := peerMatchRegistry_eq _ keys
  -- a rule that is linked for nobody, or not for a name, is linked in one step
  have hplain : (∀ r, b.core.matchRegistry keys = some r → r.name = none) → ∀ index,
      b.core.linkRule id keys monitor = index →
      Moves ok (x, b) ({ x with held := holdMore x.held (ruleLeak keys), arming := arming' },
        { b with
          users := users
          ownedMatches := Function.update b.ownedMatches id ((b.ownedMatches id).insert keys rule)
          matchIndex := index
          trace := b.trace ++ said }) := by
    intro hname index hindex
    obtain ⟨hnone, hleak⟩ := ruleName_eq_none hname
    have hone := hchange b.names x.held
    rw [hnone] at hone
    rw [hleak]
    subst hindex
    exact .single (hone.move hsaid rfl)
  rw [peerLinkMatch, hregistry]
  cases hr : b.core.matchRegistry keys with
  | none =>
    refine hplain (fun r hsome => ?_) b.matchIndex ?_
    · rw [hr] at hsome
      cases hsome
    · rw [Core.linkRule, hr]
      rfl
  | some r =>
    dsimp only
    cases hn : r.name with
    | none =>
      refine hplain (fun r' hsome => ?_) _ ?_
      · rw [hr] at hsome
        cases hsome
        exact hn
      · rw [Core.linkRule, hr]
        rfl
    | some n =>
      have hnamed := (Core.placed_of_matchRegistry hr).named hn
      have hheld := holdMore_ruleName hnamed hn x.held
      -- the reference is taken, handed to the rule, and another one is taken and dropped
      have htake : Moves ok (x, b) ({ x with held := holdMore x.held (some n) },
          { b with names := nameRegistryRefName b.names n }) := moves_nameRegistryRefName h n
      obtain ⟨b₂, hb₂⟩ : ∃ b₂ : Bus, b₂ = { b with
        users := users
        names := nameRegistryRefName b.names n
        ownedMatches := Function.update b.ownedMatches id ((b.ownedMatches id).insert keys rule)
        matchIndex := matchRuleLink Prod.snd Prod.fst b.matchIndex (id, keys) (!monitor) r monitor
        trace := b.trace ++ said } := ⟨_, rfl⟩
      have hr' : Core.matchRegistry { b.core with names := nameRegistryRefName b.names n } keys = some r := hr
      have hadd : Core.addRule { b.core with names := nameRegistryRefName b.names n } id keys rule monitor = b₂.core := by
        rw [Core.addRule, Core.linkRule, hr', hb₂]
        rfl
      have hlink : Moves ok (x, b) ({ x with held := holdMore x.held (ruleLeak keys), arming := arming' }, b₂) := by
        have hone := hchange (nameRegistryRefName b.names n) (holdMore x.held (ruleLeak keys))
        rw [← hheld, hadd] at hone
        refine htake.tail (hone.move hsaid ?_)
        rw [hb₂]
      have hthere : (b₂.names.nameTree.find? n).isSome := by
        rw [hb₂]
        exact isSome_nameRegistryRefName b.names n
      have href := hlink.trans (moves_nameRef (h.moves hlink) hthere)
      have hunref := href.trans (moves_nameUnref (h.moves href) rfl
        (Bus.idle { b₂ with names := nameRef b₂.names n }))
      rw [hb₂] at hunref
      exact hunref

/-- `peer_add_match`, with the log of the driver. -/
theorem moves_peerAddMatch (h : Good x b.core) (sizes : Sizes) (string : Bytes)
    (hregistered : b.core.isRegistered id = true) (hleaving : x.leaving = none) (harming : x.arming = none)
    (hok : ∀ keys, matchKeysParse string false = .ok keys → ∀ w, ok { b.core with names := w } (.rule id keys false)) :
    match peerAddMatch sizes b id string with
    | (b', .error _) => Moves ok (x, b) (x, b') ∧ Bus.Sent b [] b'
    | (b', .ok keys) => matchKeysParse string false = .ok keys ∧
      Moves ok (x, b) ({ x with held := holdMore x.held (ruleLeak keys) }, b'.log [.matchAdded id keys]) := by
  rw [peerAddMatch]
  obtain ⟨users', e, herror⟩ | ⟨users', keys, rule, hadded, hrefs, hparse⟩ :=
    matchOwnerRefRule_cases sizes b.users (b.ownedMatches id) (b.userOf id) string false
  · rw [herror]
    have hsame : Function.update b.ownedMatches id (b.ownedMatches id) = b.ownedMatches := Function.update_eq_self _ _
    dsimp only
    rw [hsame]
    exact ⟨Moves.congr .refl rfl rfl, .setUsers b users'⟩
  · rw [hadded]
    refine ⟨hparse, ?_⟩
    refine moves_peerLinkMatch h rule false x.arming [.matchAdded id keys] users' (fun w held => ?_) fun e he => ?_
    · rw [harming]
      exact .subscribe { x with held := holdMore held (ruleName keys), arming := none } { b.core with names := w } id keys
        rule held hregistered hrefs rfl hleaving rfl (hok keys hparse w)
    · rw [List.mem_singleton.mp he]
      rfl

end Link

section Drop

variable {rule : MatchRule}

/-- The name that a rule gives back is the one it is linked for. -/
theorem Good.peerMatchRuleToName_eq (h : Good x b.core) (hrule : (b.ownedMatches id).find? keys = some rule) :
    peerMatchRuleToName b id keys = ruleName keys := by
  cases hname : ruleName keys with
  | some n =>
    obtain ⟨r, hr, hn⟩ := namedRegistry_of_ruleName hname
    obtain ⟨l, hl, hregistry⟩ := h.links.named id keys r (Option.isSome_of_eq_some hrule) hr
    have hlink : b.matchIndex.link (id, keys) = some l := hl
    have hnames : peerMatchRuleNamesName keys = true := by
      rw [ruleName] at hname
      split at hname
      · next hyes => exact hyes
      · cases hname
    rw [peerMatchRuleToName, if_pos hnames, hlink, Option.bind_some, hregistry, hn]
  | none =>
    have hnames : peerMatchRuleNamesName keys = false := by
      by_contra hyes
      rw [Bool.not_eq_false] at hyes
      rw [ruleName, if_pos hyes] at hname
      rw [peerMatchRuleNamesName] at hyes
      cases hsender : keys.sender with
      | none =>
        rw [hsender] at hyes
        cases hyes
      | some sender =>
        rw [hsender] at hname hyes
        dsimp only at hname hyes
        split_ifs at hname hyes with hdriver
        rw [hname] at hyes
        cases hyes
    rw [peerMatchRuleToName, hnames]
    rfl

/-- The core after `match_rule_user_unref`. -/
theorem core_peerRuleUserUnref (hrule : (b.ownedMatches id).find? keys = some rule) :
    (peerRuleUserUnref b id keys).core = b.core.dropRule id keys rule := by
  rw [peerRuleUserUnref, matchRuleUserUnref, hrule, Core.dropRule]
  dsimp only
  split
  · rfl
  · rfl

/-- A rule is dropped, with the name it refers to. -/
theorem moves_peerRemoveRule (h : Good x b.core) (hrule : (b.ownedMatches id).find? keys = some rule) {said : List Event}
    (hsaid : (said = [.matchRemoved id keys] ∧ x.leaving = none ∧ x.arming = none ∧ b.core.isRegistered id = true) ∨
      said = [] ∧ x.leaving = some id ∧ x.flushing = true) :
    Moves ok (x, b) (x, (peerRemoveRule b id keys).log said) ∧
      ∃ w, (peerRemoveRule b id keys).core = { b.core.dropRule id keys rule with names := w } := by
  have hemission : ∀ e ∈ said, e.isEmission = false := by
    intro e he
    obtain ⟨rfl, -⟩ | ⟨rfl, -⟩ := hsaid
    · rw [List.mem_singleton.mp he]
      rfl
    · cases he
  have hchange : Change ok x b.core { x with held := holdMore x.held (ruleName keys) }
      ((peerRuleUserUnref b id keys).log said).core said := by
    show Change ok x b.core _ (peerRuleUserUnref b id keys).core said
    rw [core_peerRuleUserUnref hrule]
    exact .drop x b.core id keys rule said hrule hsaid
  have hdrop : Moves ok (x, b) _ := .single (hchange.move hemission rfl)
  rw [peerRemoveRule, h.peerMatchRuleToName_eq hrule]
  cases hname : ruleName keys with
  | some n =>
    rw [hname] at hdrop
    refine ⟨hdrop.trans (moves_nameUnref (h.moves hdrop) rfl (peerRuleUserUnref b id keys).idle),
      nameUnref (peerRuleUserUnref b id keys).idle (peerRuleUserUnref b id keys).names n, ?_⟩
    rw [← core_peerRuleUserUnref hrule]
    rfl
  | none =>
    rw [hname] at hdrop
    exact ⟨hdrop, (b.core.dropRule id keys rule).names, core_peerRuleUserUnref hrule⟩

/-- How often a rule is among the rules of a tree. -/
theorem count_ruleInstances (tree : RuleTree) (keys : MatchKeys) :
    (ruleInstances tree).count keys = (tree.find? keys).elim 0 (·.nUserRefs) := by
  obtain ⟨f, hf⟩ : ∃ f : MatchKeys → MatchRule → ℕ, f = fun k rule => if k = keys then rule.nUserRefs else 0 := ⟨_, rfl⟩
  have htotal : (ruleInstances tree).count keys = tree.total f := by
    rw [ruleInstances, List.count_flatMap, SearchTree.total, hf]
    congr 1
    refine List.map_congr_left fun e _ => ?_
    rw [Function.comp_apply, List.count_replicate]
    exact if_congr beq_iff_eq rfl rfl
  have hrest : (tree.erase keys).total f = 0 := by
    have hzero : (tree.erase keys).total f = (tree.erase keys).total fun _ _ => 0 := by
      refine SearchTree.total_congr _ fun k rule hk => ?_
      rw [hf]
      refine if_neg fun heq => ?_
      rw [heq, SearchTree.find?_erase_self] at hk
      cases hk
    rw [hzero]
    simp [SearchTree.total]
  have hweight := SearchTree.total_erase f tree keys
  rw [hrest, SearchTree.weightAt, hf] at hweight
  rw [htotal, hf, ← hweight, Nat.zero_add]
  cases tree.find? keys with
  | none => rfl
  | some rule => exact if_pos rfl

/-- How often a rule is asked for after it was dropped once. -/
theorem Core.refs_dropRule {c : Core} (hrule : (c.ownedMatches id).find? keys = some rule) (hpos : 0 < rule.nUserRefs)
    (k : MatchKeys) :
    (c.dropRule id keys rule).refs id k + (if k = keys then 1 else 0) = c.refs id k := by
  rw [Core.refs, Core.refs, Core.find?_dropRule]
  by_cases hk : k = keys
  · rw [if_pos ⟨rfl, hk⟩, if_pos hk, hk, hrule]
    by_cases hlast : rule.nUserRefs ≤ 1
    · rw [if_pos hlast]
      show 0 + 1 = rule.nUserRefs
      omega
    · rw [if_neg hlast]
      show rule.nUserRefs - 1 + 1 = rule.nUserRefs
      omega
  · rw [if_neg fun h => hk h.2, if_neg hk, Nat.add_zero]

/-- Somebody who asks for no rule has none. -/
theorem Good.rules_eq_empty_of_refs (h : Good x b.core) (hrefs : ∀ k, b.core.refs id k = 0) :
    b.ownedMatches id = .empty := by
  refine SearchTree.ext_find? fun k => ?_
  rw [SearchTree.find?_empty]
  cases hfind : (b.ownedMatches id).find? k with
  | none => rfl
  | some rule =>
    have hpos := h.rules.refs id k rule hfind
    have hzero : ((b.ownedMatches id).find? k).elim 0 (·.nUserRefs) = 0 := hrefs k
    rw [hfind] at hzero
    have hzero' : rule.nUserRefs = 0 := hzero
    omega

/-- Nothing is recorded. -/
theorem Bus.log_nil (b : Bus) : b.log [] = b := by
  rw [Bus.log, List.append_nil]

/-- The rules of a peer that leaves are dropped one after the other. -/
theorem moves_removeRules (h : Good x b.core) (hleaving : x.leaving = some id) (hflushing : x.flushing = true)
    {instances : List MatchKeys} (hinstances : ∀ k, b.core.refs id k = instances.count k) {b' : Bus}
    (hb' : instances.foldl (fun b keys => peerRemoveRule b id keys) b = b') :
    Moves ok (x, b) (x, b') ∧ (∃ w owned index,
      b'.core = { b.core with names := w, ownedMatches := owned, matchIndex := index }) ∧ b'.ownedMatches id = .empty := by
  induction instances generalizing b with
  | nil =>
    subst hb'
    exact ⟨.refl, ⟨b.names, b.ownedMatches, b.matchIndex, rfl⟩, h.rules_eq_empty_of_refs hinstances⟩
  | cons keys rest ih =>
    obtain ⟨rule, hrule⟩ : ∃ rule, (b.ownedMatches id).find? keys = some rule := by
      have hcount := hinstances keys
      rw [List.count_cons_self] at hcount
      cases hfind : (b.ownedMatches id).find? keys with
      | some rule => exact ⟨rule, rfl⟩
      | none =>
        have hzero : b.core.refs id keys = 0 := by
          show ((b.ownedMatches id).find? keys).elim 0 (·.nUserRefs) = 0
          rw [hfind]
          rfl
        omega
    obtain ⟨hmoves, w₁, hcore₁⟩ : Moves ok (x, b) _ ∧ _ := moves_peerRemoveRule h hrule (.inr ⟨rfl, hleaving, hflushing⟩)
    rw [Bus.log_nil] at hmoves
    have hrefs : ∀ k, (peerRemoveRule b id keys).core.refs id k = rest.count k := by
      intro k
      have hdrop := Core.refs_dropRule (c := b.core) hrule (h.rules.refs id keys rule hrule) k
      rw [hinstances, List.count_cons] at hdrop
      have hsame : (peerRemoveRule b id keys).core.refs id k = (b.core.dropRule id keys rule).refs id k := by
        rw [hcore₁]
        rfl
      rw [hsame]
      by_cases hk : k = keys
      · simp only [hk, if_true, beq_self_eq_true] at hdrop ⊢
        omega
      · have hne : ¬ (keys == k) = true := fun heq => hk (beq_iff_eq.mp heq).symm
        simp only [if_neg hk, if_neg hne] at hdrop
        omega
    obtain ⟨hrest, ⟨w', owned', index', hcore'⟩, hempty⟩ := ih (h.moves hmoves) hrefs hb'
    refine ⟨hmoves.trans hrest, ⟨w', owned', index', ?_⟩, hempty⟩
    rw [hcore', hcore₁, Core.dropRule_eq]

/-- `peer_flush_matches`. -/
theorem moves_peerFlushMatches (h : Good x b.core) (hleaving : x.leaving = some id) (hflushing : x.flushing = true) :
    Moves ok (x, b) (x, peerFlushMatches b id) ∧ (∃ w owned index, (peerFlushMatches b id).core =
      { b.core with names := w, ownedMatches := owned, matchIndex := index }) ∧
      (peerFlushMatches b id).ownedMatches id = .empty :=
  moves_removeRules h hleaving hflushing (fun k => (count_ruleInstances (b.ownedMatches id) k).symm) rfl

end Drop

section Monitor

/-- `peer_link_match` changes the names and the links only. -/
theorem peerLinkMatch_eq (b : Bus) (id : ℕ) (keys : MatchKeys) (monitor : Bool) :
    ∃ w index, peerLinkMatch b id keys monitor = { b with names := w, matchIndex := index } := by
  rw [peerLinkMatch]
  cases peerMatchRegistry b keys with
  | none => exact ⟨b.names, b.matchIndex, rfl⟩
  | some r =>
    dsimp only
    cases r.name with
    | none => exact ⟨_, _, rfl⟩
    | some n => exact ⟨_, _, rfl⟩

/-- The rules of a bus, its peers, the number of its monitors and its trace are replaced. -/
def Bus.dress (b : Bus) (owned : ℕ → RuleTree) (peers : SearchTree (compare : ℕ → ℕ → Ordering) Peer) (nMonitors : ℕ)
    (trace : List Event) : Bus :=
  { b with ownedMatches := owned, peers := peers, nMonitors := nMonitors, trace := trace }

variable {owned : ℕ → RuleTree} {peers : SearchTree (compare : ℕ → ℕ → Ordering) Peer} {nMonitors : ℕ} {trace : List Event}

/-- `peer_link_match` depends on nothing of that but who is registered. -/
theorem peerLinkMatch_dress (hregistered : ∀ a, (b.dress owned peers nMonitors trace).isRegistered a = b.isRegistered a)
    (id : ℕ) (keys : MatchKeys) (monitor : Bool) :
    peerLinkMatch (b.dress owned peers nMonitors trace) id keys monitor =
      (peerLinkMatch b id keys monitor).dress owned peers nMonitors trace := by
  have hregistry : peerMatchRegistry (b.dress owned peers nMonitors trace) keys = peerMatchRegistry b keys := by
    simp only [peerMatchRegistry, peerMatchRegistryById, peerRegistryFindPeer, hregistered]
    rfl
  rw [peerLinkMatch, peerLinkMatch, hregistry]
  cases peerMatchRegistry b keys with
  | none => rfl
  | some r =>
    dsimp only
    cases r.name with
    | none => rfl
    | some n => rfl

/-- One more reference on a rule of a monitor. -/
def armTree (charges : MatchKeys → UserCharge × UserCharge) (tree : RuleTree) (keys : MatchKeys) : RuleTree :=
  tree.insert keys ⟨(tree.find? keys).elim 0 (·.nUserRefs) + 1, charges keys⟩

/-- A rule of a monitor is added and linked. -/
def armRule (charges : MatchKeys → UserCharge × UserCharge) (id : ℕ) (b : Bus) (keys : MatchKeys) : Bus :=
  peerLinkMatch { b with ownedMatches := Function.update b.ownedMatches id (armTree charges (b.ownedMatches id) keys) } id
    keys true

/-- The rules that are added to a tree. -/
theorem find?_foldl_armTree (charges : MatchKeys → UserCharge × UserCharge) (instances : List MatchKeys) (tree : RuleTree)
    (k : MatchKeys) :
    (instances.foldl (armTree charges) tree).find? k =
      if k ∈ instances then some ⟨(tree.find? k).elim 0 (·.nUserRefs) + instances.count k, charges k⟩ else tree.find? k := by
  induction instances generalizing tree with
  | nil => rw [if_neg List.not_mem_nil]; rfl
  | cons keys rest ih =>
    rw [List.foldl_cons, ih, armTree, SearchTree.find?_insert, List.count_cons]
    by_cases hk : k = keys
    · subst hk
      rw [if_pos rfl, if_pos List.mem_cons_self]
      by_cases hmem : k ∈ rest
      · rw [if_pos hmem, if_pos (beq_self_eq_true k)]
        show some (MatchRule.mk (_ + 1 + _) _) = some (MatchRule.mk (_ + (_ + 1)) _)
        rw [Nat.add_assoc, Nat.add_comm 1]
      · rw [if_neg hmem, if_pos (beq_self_eq_true k), List.count_eq_zero_of_not_mem hmem]
    · have hne : ¬ (keys == k) = true := fun heq => hk (beq_iff_eq.mp heq).symm
      rw [if_neg hk, if_neg hne, Nat.add_zero]
      exact if_congr (by rw [List.mem_cons, or_iff_right hk]) rfl rfl

/-- The rules of a tree are added to an empty one. -/
theorem foldl_armTree_ruleInstances {tree : RuleTree} (hpos : ∀ k rule, tree.find? k = some rule → 0 < rule.nUserRefs) :
    (ruleInstances tree).foldl (armTree fun k => (tree.find? k).elim (.init, .init) (·.charge)) .empty = tree := by
  refine SearchTree.ext_find? fun k => ?_
  have hcount := count_ruleInstances tree k
  rw [find?_foldl_armTree]
  cases hfind : tree.find? k with
  | none =>
    rw [hfind] at hcount
    rw [if_neg (List.count_eq_zero.mp hcount)]
    rfl
  | some rule =>
    rw [hfind] at hcount
    have hmem : k ∈ ruleInstances tree := List.count_pos_iff.mp (by rw [hcount]; exact hpos k rule hfind)
    rw [if_pos hmem, hcount, SearchTree.find?_empty]
    show some (MatchRule.mk (0 + rule.nUserRefs) rule.charge) = some rule
    rw [Nat.zero_add]

/-- The rules of a monitor are linked one after the other, whatever else is replaced. -/
theorem foldl_armRule_dress (charges : MatchKeys → UserCharge × UserCharge) (id : ℕ) (instances : List MatchKeys)
    (hregistered : ∀ a, (b.dress owned peers nMonitors trace).isRegistered a = b.isRegistered a) :
    instances.foldl (armRule charges id) (b.dress owned peers nMonitors trace) =
      (instances.foldl (fun b keys => peerLinkMatch b id keys true) b).dress
        (Function.update owned id (instances.foldl (armTree charges) (owned id))) peers nMonitors trace := by
  induction instances generalizing b owned with
  | nil =>
    rw [List.foldl_nil, List.foldl_nil, List.foldl_nil, Function.update_eq_self]
  | cons keys rest ih =>
    rw [List.foldl_cons, List.foldl_cons, List.foldl_cons]
    have hupdated : ∀ a, (b.dress (Function.update owned id (armTree charges (owned id) keys)) peers nMonitors
        trace).isRegistered a = b.isRegistered a := hregistered
    have hstep : armRule charges id (b.dress owned peers nMonitors trace) keys =
        (peerLinkMatch b id keys true).dress (Function.update owned id (armTree charges (owned id) keys)) peers nMonitors
          trace := peerLinkMatch_dress hupdated id keys true
    obtain ⟨w, index, hlink⟩ := peerLinkMatch_eq b id keys true
    have hrest : ∀ a, ((peerLinkMatch b id keys true).dress
        (Function.update owned id (armTree charges (owned id) keys)) peers nMonitors trace).isRegistered a =
        (peerLinkMatch b id keys true).isRegistered a := by
      rw [hlink]
      exact hregistered
    rw [hstep, ih hrest, Function.update_self, Function.update_idem]

/-- Some rules are linked, whatever else is replaced. -/
theorem foldl_peerLinkMatch_dress (id : ℕ) (instances : List MatchKeys)
    (hregistered : ∀ a, (b.dress owned peers nMonitors trace).isRegistered a = b.isRegistered a) :
    instances.foldl (fun b keys => peerLinkMatch b id keys true) (b.dress owned peers nMonitors trace) =
      (instances.foldl (fun b keys => peerLinkMatch b id keys true) b).dress owned peers nMonitors trace := by
  induction instances generalizing b with
  | nil => rfl
  | cons keys rest ih =>
    obtain ⟨w, index, hlink⟩ := peerLinkMatch_eq b id keys true
    have hrest : ∀ a, ((peerLinkMatch b id keys true).dress owned peers nMonitors trace).isRegistered a =
        (peerLinkMatch b id keys true).isRegistered a := by
      rw [hlink]
      exact hregistered
    rw [List.foldl_cons, List.foldl_cons, peerLinkMatch_dress hregistered, ih hrest]

/-- The links after `peer_link_match`. -/
theorem matchIndex_peerLinkMatch (b : Bus) (id : ℕ) (keys : MatchKeys) (monitor : Bool) :
    (peerLinkMatch b id keys monitor).matchIndex = b.core.linkRule id keys monitor := by
  rw [peerLinkMatch, Core.linkRule, peerMatchRegistry_eq]
  cases b.core.matchRegistry keys with
  | none => rfl
  | some r =>
    dsimp only
    cases r.name with
    | none => rfl
    | some n => rfl

/-- The rules that a peer has linked are in the registries that would be chosen now. -/
def LinksFresh (c : Core) (id : ℕ) : Prop :=
  ∀ k l r, c.matchIndex.link (id, k) = some l → c.matchRegistry k = some r → r = l.registry

/-- A rule that is linked now is where it would be linked now. -/
theorem LinksFresh.armRule (h : LinksFresh b.core id) (charges : MatchKeys → UserCharge × UserCharge) (keys : MatchKeys) :
    LinksFresh (armRule charges id b keys).core id := by
  obtain ⟨b₀, hb₀⟩ : ∃ b₀ : Bus, b₀ =
    { b with ownedMatches := Function.update b.ownedMatches id (armTree charges (b.ownedMatches id) keys) } := ⟨_, rfl⟩
  have harm : DbusBroker.armRule charges id b keys = peerLinkMatch b₀ id keys true := by rw [hb₀]; rfl
  have hfresh : LinksFresh b₀.core id := by
    rw [hb₀]
    exact h
  have hindex := matchIndex_peerLinkMatch b₀ id keys true
  obtain ⟨w, index, hlink⟩ := peerLinkMatch_eq b₀ id keys true
  rw [harm, hlink]
  rw [hlink] at hindex
  intro k l r hl hr
  have hr : b₀.core.matchRegistry k = some r := hr
  have hl : index.link (id, k) = some l := hl
  have hindex : index = b₀.core.linkRule id keys true := hindex
  rw [hindex, Core.linkRule] at hl
  cases hregistry : b₀.core.matchRegistry keys with
  | none =>
    rw [hregistry] at hl
    exact hfresh k l r hl hr
  | some r₀ =>
    rw [hregistry] at hl
    dsimp only at hl
    rw [matchRuleLink_link] at hl
    by_cases hk : k = keys
    · subst hk
      rw [Function.update_self] at hl
      cases hold : b₀.core.matchIndex.link (id, k) with
      | some l' =>
        rw [hold] at hl
        cases hl
        exact hfresh k _ r hold hr
      | none =>
        rw [hold] at hl
        cases hl
        rw [hregistry] at hr
        exact (Option.some.inj hr).symm
    · rw [Function.update_of_ne fun heq => hk (congrArg Prod.snd heq)] at hl
      exact hfresh k l r hl hr

/-- The rules of a monitor are added one after the other. -/
theorem moves_armRules (charges : MatchKeys → UserCharge × UserCharge) {instances : List MatchKeys} (h : Good x b.core)
    (hmonitor : b.core.isMonitor id = true) (hleaving : x.leaving = none) (harming : x.arming = some (id, instances))
    (hfresh : LinksFresh b.core id) (hok : ∀ keys ∈ instances, ∀ c : Core, c.peers = b.peers → c.ids = b.ids →
      c.hup = b.core.hup → ok c (.rule id keys true)) :
    Moves ok (x, b)
      ({ x with
        held := instances.foldl (fun held keys => holdMore held (ruleLeak keys)) x.held, arming := some (id, []) },
      instances.foldl (armRule charges id) b) := by
  induction instances generalizing x b with
  | nil =>
    rw [← harming]
    exact .refl
  | cons keys rest ih =>
    have hmoves : Moves ok (x, b) ({ x with held := holdMore x.held (ruleLeak keys), arming := some (id, rest) }, _) :=
      moves_peerLinkMatch h ⟨((b.ownedMatches id).find? keys).elim 0 (·.nUserRefs) + 1, charges keys⟩ true
        (some (id, rest)) [] b.users (fun w held => by
          rw [harming]
          exact .arm _ { b.core with names := w } id keys rest _ held hmonitor rfl rfl hleaving rfl (hfresh keys)
            (hok keys List.mem_cons_self _ rfl rfl rfl)) fun e he => absurd he List.not_mem_nil
    rw [Bus.log_nil] at hmoves
    have harmed : Moves ok (x, b) ({ x with held := holdMore x.held (ruleLeak keys), arming := some (id, rest) },
        armRule charges id b keys) := hmoves
    obtain ⟨w, index, hlink⟩ := peerLinkMatch_eq
      { b with ownedMatches := Function.update b.ownedMatches id (armTree charges (b.ownedMatches id) keys) } id keys true
    have hcore : (armRule charges id b keys).core = { b.core with
        names := w
        ownedMatches := Function.update b.ownedMatches id (armTree charges (b.ownedMatches id) keys)
        matchIndex := index } := congrArg Bus.core hlink
    refine harmed.trans (ih (h.moves harmed) ?_ hleaving rfl (hfresh.armRule charges keys) fun k hk c hpeers hids hhup => ?_)
    · rw [hcore]
      exact hmonitor
    · refine hok k (List.mem_cons_of_mem keys hk) c (hpeers.trans ?_) (hids.trans ?_) (hhup.trans ?_)
      · exact congrArg Core.peers hcore
      · exact congrArg Core.ids hcore
      · rw [hcore]

/-- The references that the rules of a monitor leave behind. -/
def monitorLeaks (tree : RuleTree) (held : Bytes → ℕ) : Bytes → ℕ :=
  (ruleInstances tree).foldl (fun held keys => holdMore held (ruleLeak keys)) held

/-- `peer_become_monitor`, with the log of the driver. -/
theorem moves_peerBecomeMonitor (h : Good x b.core) {peer : Peer} {tree : RuleTree}
    (hpeer : b.peers.find? id = some peer) (hregistered : peer.registered = false) (hmonitor : peer.monitor = false)
    (hhup : b.core.hup id = false) (hleaving : x.leaving = none) (harming : x.arming = none)
    (hpos : ∀ k rule, tree.find? k = some rule → 0 < rule.nUserRefs)
    (hok : ∀ keys, (tree.find? keys).isSome → ∀ c : Core, c.peers = b.peers.insert id { peer with monitor := true } →
      c.ids = b.ids → c.hup = b.core.hup → ok c (.rule id keys true)) :
    Moves ok (x, b) ({ x with held := monitorLeaks tree x.held },
      (peerBecomeMonitor b id tree).log [.becameMonitor id tree.keys]) := by
  have hnotRegistered : b.core.isRegistered id = false := (Core.isRegistered_of_find? hpeer).trans hregistered
  have hnotMonitor : b.core.isMonitor id = false := (Core.isMonitor_of_find? hpeer).trans hmonitor
  have hrules : b.ownedMatches id = .empty := h.rules_eq_empty hnotRegistered hnotMonitor
  have hinstances : ∀ keys, (tree.find? keys).isSome ↔ keys ∈ ruleInstances tree := by
    intro keys
    have hcount := count_ruleInstances tree keys
    rw [← List.count_pos_iff, hcount]
    cases hfind : tree.find? keys with
    | none => exact iff_of_false Bool.false_ne_true (Nat.lt_irrefl 0)
    | some rule => exact iff_of_true rfl (hpos keys rule hfind)
  -- it is a monitor first, and gets its rules after that
  obtain ⟨b₁, hb₁⟩ : ∃ b₁, b₁ = b.dress b.ownedMatches (b.peers.insert id { peer with monitor := true })
    (b.nMonitors + 1) (b.trace ++ [.becameMonitor id tree.keys]) := ⟨_, rfl⟩
  have hstart : Moves ok (x, b) ({ x with arming := some (id, ruleInstances tree) }, b₁) := by
    have hchange : Change ok x b.core { x with arming := some (id, ruleInstances tree) } b₁.core
        [.becameMonitor id tree.keys] := by
      rw [hb₁]
      refine .startMonitor x b.core id peer tree.keys (ruleInstances tree) hpeer hregistered hmonitor hhup hleaving
        harming fun keys => ?_
      rw [SearchTree.mem_keys_iff, ← hinstances, Option.isSome_iff_exists]
    refine .single (hchange.move (fun e he => ?_) ?_)
    · rw [List.mem_singleton.mp he]
      rfl
    · rw [hb₁]
      rfl
  have hisMonitor : b₁.core.isMonitor id = true := by
    rw [hb₁]
    show ((b.peers.insert id _).find? id).any (·.monitor) = true
    rw [SearchTree.find?_insert_self]
    rfl
  have hfresh : LinksFresh b₁.core id := by
    intro k l r hl
    have hnone : b.core.matchIndex.link (id, k) = none := by
      refine h.link_eq_none ?_
      show (b.ownedMatches id).find? k = none
      rw [hrules]
      rfl
    rw [hb₁] at hl
    have hlink : b.core.matchIndex.link (id, k) = some l := hl
    rw [hnone] at hlink
    cases hlink
  have harm := hstart.trans (moves_armRules (fun k => (tree.find? k).elim (.init, .init) (·.charge)) (h.moves hstart)
    hisMonitor hleaving rfl hfresh fun keys hkeys c hpeers hids hup => by
      rw [hb₁] at hpeers hids hup
      exact hok keys ((hinstances keys).mpr hkeys) c hpeers hids hup)
  have hsame : ∀ a, (b.dress b.ownedMatches (b.peers.insert id { peer with monitor := true }) (b.nMonitors + 1)
      (b.trace ++ [.becameMonitor id tree.keys])).isRegistered a = b.isRegistered a := by
    intro a
    show ((b.peers.insert id _).find? a).any (·.registered) = (b.peers.find? a).any (·.registered)
    rw [SearchTree.find?_insert]
    split
    · next ha =>
      rw [ha, hpeer]
      rfl
    · rfl
  -- the source has all rules at once, and makes it a monitor at the end
  have hfinal : (peerBecomeMonitor b id tree).log [.becameMonitor id tree.keys] =
      (ruleInstances tree).foldl (armRule (fun k => (tree.find? k).elim (.init, .init) (·.charge)) id) b₁ := by
    have hcheck : b.check (!peer.registered && !peer.monitor && (b.ownedMatches id).entries.isEmpty) = b := by
      rw [hregistered, hmonitor, hrules]
      show { b with assertFailed := b.assertFailed || false } = b
      rw [Bool.or_false]
    rw [hb₁, foldl_armRule_dress _ id _ hsame, hrules, foldl_armTree_ruleInstances hpos, peerBecomeMonitor, hpeer]
    dsimp only
    rw [hcheck]
    have hall : (ruleInstances tree).foldl (fun b keys => peerLinkMatch b id keys true)
        (b.dress (Function.update b.ownedMatches id tree) b.peers b.nMonitors b.trace) = _ :=
      foldl_peerLinkMatch_dress id (ruleInstances tree) fun _ => rfl
    rw [Bus.dress] at hall
    rw [hall]
    rfl
  rw [hfinal]
  have harmed : ∀ c, Change ok { x with held := monitorLeaks tree x.held, arming := some (id, []) } c
      { x with held := monitorLeaks tree x.held, arming := none } c [] := fun c => .armed _ c id rfl
  have haux : ({ x with held := monitorLeaks tree x.held } : Aux) =
      { x with held := monitorLeaks tree x.held, arming := none } := by rw [← harming]
  rw [haux]
  exact harm.tail ((harmed _).move_nil rfl)

end Monitor

end DbusBroker
