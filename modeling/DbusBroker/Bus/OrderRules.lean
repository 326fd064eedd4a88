import DbusBroker.Bus.Order

/-!
# Rules keep the bus in order

Adding and dropping rules, and taking the rules of others out of the registries of a peer
that leaves.
-/

namespace DbusBroker

open Std

section Registries

variable {c : Core} {keys : MatchKeys} {r : RegistryRef} {n : Bytes} {id : ℕ}

/-- The registry of a peer is chosen for an id that is registered only. -/
theorem Core.matchRegistryById_eq_some {registry other : RegistryRef}
    (h : c.matchRegistryById id registry other = some r) :
    (r = registry ∧ c.isRegistered id = true) ∨ (r = other ∧ c.isRegistered id = false ∧ c.ids ≤ id) := by
  rw [Core.matchRegistryById] at h
  split at h
  · next hregistered => exact .inl ⟨(Option.some.inj h).symm, hregistered⟩
  · next hregistered =>
    split at h
    · next hids => exact .inr ⟨(Option.some.inj h).symm, Bool.eq_false_iff.mpr hregistered, hids⟩
    · cases h

/-- What `peer_link_match` can choose for a rule. -/
inductive Placed (c : Core) (keys : MatchKeys) : RegistryRef → Prop
  /-- The rule names no sender. -/
  | anybody (hsender : keys.sender = none) : Placed c keys .wildcard
  /-- The rule is about the driver. -/
  | driver (hsender : keys.sender = some driverName) (harg : nameOwnerChangedArg keys = none) :
    Placed c keys .driver
  /-- The rule is about changes of the unique name of a peer that is there. -/
  | changedPeer (name : Bytes) (id : ℕ) (hsender : keys.sender = some driverName)
      (harg : nameOwnerChangedArg keys = some name) (hid : addressFromString name = .id id)
      (hregistered : c.isRegistered id = true) : Placed c keys (.peerNameOwnerChanged id)
  /-- The rule is about changes of the unique name of a peer that is still to come. -/
  | changedFuture (name : Bytes) (id : ℕ) (hsender : keys.sender = some driverName)
      (harg : nameOwnerChangedArg keys = some name) (hid : addressFromString name = .id id)
      (hregistered : c.isRegistered id = false) (hids : c.ids ≤ id) : Placed c keys .driver
  /-- The rule is about changes of a name. -/
  | changedName (name : Bytes) (hsender : keys.sender = some driverName) (harg : nameOwnerChangedArg keys = some name)
      (hid : addressId name = none) : Placed c keys (.nameNameOwnerChanged name)
  /-- The rule is about a peer that is there. -/
  | peer (sender : Bytes) (id : ℕ) (hsender : keys.sender = some sender) (hdriver : sender ≠ driverName)
      (hid : addressFromString sender = .id id) (hregistered : c.isRegistered id = true) :
    Placed c keys (.peerSender id)
  /-- The rule is about a peer that is still to come. -/
  | future (sender : Bytes) (id : ℕ) (hsender : keys.sender = some sender) (hdriver : sender ≠ driverName)
      (hid : addressFromString sender = .id id) (hregistered : c.isRegistered id = false) (hids : c.ids ≤ id) :
    Placed c keys .wildcard
  /-- The rule is about the owner of a name. -/
  | name (sender : Bytes) (hsender : keys.sender = some sender) (hdriver : sender ≠ driverName)
      (hid : addressId sender = none) : Placed c keys (.nameSender sender)

/-- An address that is not an id. -/
theorem addressId_eq_none {s : Bytes} (h : ∀ id, addressFromString s ≠ .id id) : addressId s = none := by
  rw [addressId]
  split
  · next id hid => exact absurd hid (h id)
  · rfl

/-- Every choice is one of these. -/
theorem Core.placed_of_matchRegistry (h : c.matchRegistry keys = some r) : Placed c keys r := by
  rw [Core.matchRegistry] at h
  split at h
  · next hsender =>
    cases h
    exact .anybody hsender
  · next sender hsender =>
    split at h
    · next hdriver =>
      rw [hdriver] at hsender
      split at h
      · next harg =>
        cases h
        exact .driver hsender harg
      · next name harg =>
        split at h
        · next id hid =>
          obtain ⟨rfl, hregistered⟩ | ⟨rfl, hregistered, hids⟩ := Core.matchRegistryById_eq_some h
          · exact .changedPeer name id hsender harg hid hregistered
          · exact .changedFuture name id hsender harg hid hregistered hids
        · next hid =>
          cases h
          exact .changedName name hsender harg (addressId_eq_none hid)
    · next hdriver =>
      split at h
      · next id hid =>
        obtain ⟨rfl, hregistered⟩ | ⟨rfl, hregistered, hids⟩ := Core.matchRegistryById_eq_some h
        · exact .peer sender id hsender hdriver hid hregistered
        · exact .future sender id hsender hdriver hid hregistered hids
      · next hid =>
        cases h
        exact .name sender hsender hdriver (addressId_eq_none hid)

/-- A rule that is linked for a name is always linked there. -/
theorem Core.matchRegistry_of_named (c : Core) (h : namedRegistry keys = some r) : c.matchRegistry keys = some r := by
  rw [namedRegistry] at h
  rw [Core.matchRegistry]
  cases hsender : keys.sender with
  | none =>
    rw [hsender] at h
    cases h
  | some sender =>
    rw [hsender] at h
    dsimp only at h ⊢
    split_ifs at h ⊢ with hdriver haddress
    · cases harg : nameOwnerChangedArg keys with
      | none =>
        rw [harg] at h
        cases h
      | some name =>
        rw [harg] at h
        dsimp only at h ⊢
        split_ifs at h with hid
        rw [Option.not_isSome_iff_eq_none, addressId] at hid
        split
        · next i hi =>
          rw [hi] at hid
          cases hid
        · exact h
    · rw [Option.not_isSome_iff_eq_none, addressId] at haddress
      split
      · next i hi =>
        rw [hi] at haddress
        cases haddress
      · exact h

/-- A rule that is placed in the registry of a name is linked for a name. -/
theorem Placed.named (h : Placed c keys r) (hname : r.name = some n) : namedRegistry keys = some r := by
  cases h with
  | changedName name hsender harg hid =>
    rw [namedRegistry, hsender]
    dsimp only
    rw [if_pos rfl, harg]
    dsimp only
    rw [hid]
    rfl
  | name sender hsender hdriver hid =>
    rw [namedRegistry, hsender]
    dsimp only
    rw [if_neg hdriver, hid]
    rfl
  | _ => cases hname

/-- A rule that is linked for a name is linked in a registry of a name. -/
theorem name_of_namedRegistry (h : namedRegistry keys = some r) : ∃ n, r.name = some n := by
  rw [namedRegistry] at h
  split at h
  · cases h
  · split_ifs at h
    · split at h
      · cases h
      · split_ifs at h
        cases h
        exact ⟨_, rfl⟩
    · cases h
      exact ⟨_, rfl⟩

/-- What starts with a colon is no name. -/
theorem addressId_of_head? {s : Bytes} (h : s.head? ≠ some (byte ':')) : addressId s = none := by
  refine addressId_eq_none fun id hid => ?_
  rw [addressFromString.eq_def] at hid
  split at hid
  · cases hid
  · next c rest =>
    split at hid
    · next hc => exact h (congrArg some hc)
    · cases hid

/-- A rule that gives back a name is linked for it. -/
theorem namedRegistry_of_ruleName (h : ruleName keys = some n) :
    ∃ r, namedRegistry keys = some r ∧ r.name = some n := by
  rw [ruleName] at h
  split at h
  · next hnames =>
    rw [peerMatchRuleNamesName] at hnames
    cases hsender : keys.sender with
    | none =>
      rw [hsender] at h
      cases h
    | some sender =>
      rw [hsender] at h hnames
      rw [namedRegistry, hsender]
      dsimp only at h hnames ⊢
      split_ifs at h hnames ⊢ with hdriver haddress
      · rw [h] at hnames ⊢
        dsimp only
        have hid : addressId n = none := addressId_of_head? (by simpa using hnames)
        rw [hid]
        exact ⟨_, rfl, rfl⟩
      · have hid : addressId sender = none := addressId_of_head? (by simpa using hnames)
        rw [hid] at haddress
        cases haddress
      · cases h
        exact ⟨_, rfl, rfl⟩
  · cases h

end Registries

section Links

variable {ρ ι ο : Type} [DecidableEq ρ] [DecidableEq ι] [DecidableEq ο] (keys : ι → MatchKeys) (owner : ι → ο)

/-- The links after `match_rule_link`: a rule that was linked stays where it is. -/
theorem matchRuleLink_link (w : MatchWorld ρ ι ο) (rule : ι) (counted : Bool) (registry : ρ) (monitor : Bool) :
    (matchRuleLink keys owner w rule counted registry monitor).link =
      Function.update w.link rule (some ((w.link rule).getD ⟨registry, monitor, counted⟩)) := by
  rw [matchRuleLink]
  cases hlink : w.link rule with
  | some l =>
    show w.link = _
    rw [Option.getD_some, ← hlink, Function.update_eq_self]
  | none =>
    dsimp only
    split <;> rfl

/-- The links after `match_rule_unlink`. -/
theorem matchRuleUnlink_link (w : MatchWorld ρ ι ο) (rule : ι) :
    (matchRuleUnlink keys owner w rule).link = Function.update w.link rule none := by
  rw [matchRuleUnlink]
  cases hlink : w.link rule with
  | none =>
    show w.link = _
    rw [← hlink, Function.update_eq_self]
  | some l => exact (matchLinkClear_spec owner w rule).2

end Links

section Good

variable {x : Aux} {c : Core} {id : ℕ} {keys : MatchKeys} {rule : MatchRule} {held : Bytes → ℕ} {monitor : Bool}

/-- The links after a rule was added. -/
theorem Core.link_addRule (c : Core) (id : ℕ) (keys : MatchKeys) (rule : MatchRule) (monitor : Bool) :
    (c.addRule id keys rule monitor).matchIndex.link =
      match c.matchRegistry keys with
      | none => c.matchIndex.link
      | some r => Function.update c.matchIndex.link (id, keys)
          (some ((c.matchIndex.link (id, keys)).getD ⟨r, monitor, !monitor⟩)) := by
  show (c.linkRule id keys monitor).link = _
  rw [Core.linkRule]
  cases c.matchRegistry keys with
  | none => rfl
  | some r => exact matchRuleLink_link _ _ _ _ _ _ _

/-- The rules of a peer after a rule was added. -/
theorem Core.find?_addRule (c : Core) (id : ℕ) (keys : MatchKeys) (rule : MatchRule) (monitor : Bool) (a : ℕ)
    (k : MatchKeys) :
    ((c.addRule id keys rule monitor).ownedMatches a).find? k =
      if a = id ∧ k = keys then some rule else (c.ownedMatches a).find? k := by
  show (Function.update c.ownedMatches id _ a).find? k = _
  by_cases ha : a = id
  · subst ha
    rw [Function.update_self, SearchTree.find?_insert]
    by_cases hk : k = keys
    · rw [if_pos hk, if_pos ⟨rfl, hk⟩]
    · rw [if_neg hk, if_neg fun h => hk h.2]
  · rw [Function.update_of_ne ha, if_neg fun h => ha h.1]

/-- A rule is linked after it was added, or was linked before. -/
theorem Core.link_addRule_cases {a : ℕ} {k : MatchKeys} {l : MatchLink RegistryRef}
    (h : (c.addRule id keys rule monitor).matchIndex.link (a, k) = some l) :
    c.matchIndex.link (a, k) = some l ∨
      a = id ∧ k = keys ∧ c.matchIndex.link (id, keys) = none ∧ c.matchRegistry keys = some l.registry ∧
        l = ⟨l.registry, monitor, !monitor⟩ := by
  rw [Core.link_addRule] at h
  split at h
  · exact .inl h
  · next r hr =>
    by_cases hak : (a, k) = (id, keys)
    · obtain ⟨rfl, rfl⟩ := Prod.mk.inj hak
      rw [Function.update_self] at h
      cases hlink : c.matchIndex.link (a, k) with
      | some l' =>
        rw [hlink] at h
        exact .inl h
      | none =>
        rw [hlink] at h
        cases h
        exact .inr ⟨rfl, rfl, rfl, hr, rfl⟩
    · rw [Function.update_of_ne hak] at h
      exact .inl h

/-- A rule that was linked is still linked after another one was added. -/
theorem Core.link_addRule_of_some {a : ℕ} {k : MatchKeys} {l : MatchLink RegistryRef}
    (h : c.matchIndex.link (a, k) = some l) : (c.addRule id keys rule monitor).matchIndex.link (a, k) = some l := by
  rw [Core.link_addRule]
  split
  · exact h
  · by_cases hak : (a, k) = (id, keys)
    · rw [← hak, Function.update_self, h, Option.getD_some]
    · rw [Function.update_of_ne hak, h]

/-- An added rule is linked for its name. -/
theorem Core.link_addRule_self {r : RegistryRef} (hr : c.matchRegistry keys = some r) :
    ∃ l, (c.addRule id keys rule monitor).matchIndex.link (id, keys) = some l ∧
      (c.matchIndex.link (id, keys) = none → l.registry = r) := by
  rw [Core.link_addRule, hr]
  dsimp only
  rw [Function.update_self]
  refine ⟨_, rfl, ?_⟩
  intro hnone
  rw [hnone, Option.getD_none]

/-- The index after a rule was linked. -/
theorem MatchIndexed.linkRule (h : MatchIndexed Prod.snd c.matchIndex) :
    MatchIndexed Prod.snd (c.linkRule id keys monitor) := by
  rw [Core.linkRule]
  split
  · exact h
  · exact (matchIndexed_step Prod.fst h (.link (id, keys) (!monitor) _ monitor)).1

/-- A rule is added for somebody who may hold it. -/
theorem Good.addRule (h : Good x c) (hholder : c.isRegistered id = true ∨ c.isMonitor id = true)
    (hmonitor : c.isMonitor id = monitor) (hrefs : rule.nUserRefs = c.refs id keys + 1)
    (hheld : x.held = holdMore held (ruleName keys)) (arming : Option (ℕ × List MatchKeys)) :
    Good { x with held := held, arming := arming } (c.addRule id keys rule monitor) where
  peers := h.peers
  names := by
    show NameBooks c.names ((c.addRule id keys rule monitor).pins held)
    rw [Core.pins_addRule (h.lt_ids hholder) hrefs, ← hheld]
    exact h.names
  owners := h.owners
  rules := by
    constructor
    · intro a k r hr
      rw [Core.find?_addRule] at hr
      split at hr
      · cases hr
        omega
      · exact h.rules.refs a k r hr
    · intro a hne
      by_cases ha : a = id
      · rw [ha]
        exact hholder
      · refine h.rules.holder a ?_
        have hsame : (c.addRule id keys rule monitor).ownedMatches a = c.ownedMatches a := Function.update_of_ne ha _ _
        rwa [hsame] at hne
  links :=
    { indexed := h.links.indexed.linkRule
      held := by
        intro a k l hl
        rw [Core.find?_addRule]
        split
        · rfl
        · next hne =>
          obtain hold | ⟨ha, hk, -⟩ := Core.link_addRule_cases hl
          · exact h.links.held a k l hold
          · exact absurd ⟨ha, hk⟩ hne
      kind := by
        intro a k l hl
        obtain hold | ⟨rfl, -, -, -, hl⟩ := Core.link_addRule_cases hl
        · exact h.links.kind a k l hold
        · rw [hl]
          exact ⟨hmonitor.symm, rfl⟩
      sender := by
        intro r l a hl hregistry
        obtain hold | ⟨-, -, -, hr, -⟩ := Core.link_addRule_cases hl
        · exact h.links.sender r l a hold hregistry
        · rw [hregistry] at hr
          cases Core.placed_of_matchRegistry hr with
          | peer sender id' hsender hdriver hid hregistered => exact hregistered
      changed := by
        intro r l a hl hregistry
        obtain hold | ⟨-, -, -, hr, -⟩ := Core.link_addRule_cases hl
        · exact h.links.changed r l a hold hregistry
        · rw [hregistry] at hr
          cases Core.placed_of_matchRegistry hr with
          | changedPeer name id' hsender harg hid hregistered => exact .inl hregistered
      named := by
        intro a k r hfind hnamed
        rw [Core.find?_addRule] at hfind
        by_cases hak : a = id ∧ k = keys
        · obtain ⟨rfl, rfl⟩ := hak
          obtain ⟨l, hl, hnew⟩ := Core.link_addRule_self
            (c.matchRegistry_of_named hnamed)
          cases hlink : c.matchIndex.link (a, k) with
          | none => exact ⟨l, hl, hnew hlink⟩
          | some l' =>
            obtain ⟨l'', hl'', hr⟩ := h.links.named a k r (h.links.held a k l' hlink) hnamed
            exact ⟨l'', Core.link_addRule_of_some hl'', hr⟩
        · rw [if_neg hak] at hfind
          obtain ⟨l, hl, hr⟩ := h.links.named a k r hfind hnamed
          exact ⟨l, Core.link_addRule_of_some hl, hr⟩ }
  replies := h.replies
  activations := h.activations

/-- The links after a rule was dropped. -/
theorem Core.link_dropRule (c : Core) (id : ℕ) (keys : MatchKeys) (rule : MatchRule) (a : ℕ) (k : MatchKeys) :
    (c.dropRule id keys rule).matchIndex.link (a, k) =
      if rule.nUserRefs ≤ 1 ∧ a = id ∧ k = keys then none else c.matchIndex.link (a, k) := by
  rw [Core.dropRule]
  by_cases hlast : rule.nUserRefs ≤ 1
  · rw [if_pos hlast]
    show (matchRuleUnlink Prod.snd Prod.fst c.matchIndex (id, keys)).link (a, k) = _
    rw [matchRuleUnlink_link]
    by_cases hak : (a, k) = (id, keys)
    · obtain ⟨rfl, rfl⟩ := Prod.mk.inj hak
      rw [Function.update_self, if_pos ⟨hlast, rfl, rfl⟩]
    · rw [Function.update_of_ne hak, if_neg]
      intro hall
      exact hak (Prod.ext hall.2.1 hall.2.2)
  · rw [if_neg hlast, if_neg fun h => hlast h.1]

/-- The rules of a peer after a rule was dropped. -/
theorem Core.find?_dropRule (c : Core) (id : ℕ) (keys : MatchKeys) (rule : MatchRule) (a : ℕ) (k : MatchKeys) :
    ((c.dropRule id keys rule).ownedMatches a).find? k =
      if a = id ∧ k = keys then
        (if rule.nUserRefs ≤ 1 then none else some { rule with nUserRefs := rule.nUserRefs - 1 })
      else (c.ownedMatches a).find? k := by
  rw [Core.dropRule]
  by_cases hlast : rule.nUserRefs ≤ 1
  · rw [if_pos hlast, if_pos hlast]
    show (Function.update c.ownedMatches id _ a).find? k = _
    by_cases ha : a = id
    · subst ha
      rw [Function.update_self, SearchTree.find?_erase]
      by_cases hk : k = keys
      · rw [if_pos hk, if_pos ⟨rfl, hk⟩]
      · rw [if_neg hk, if_neg fun h => hk h.2]
    · rw [Function.update_of_ne ha, if_neg fun h => ha h.1]
  · rw [if_neg hlast, if_neg hlast]
    show (Function.update c.ownedMatches id _ a).find? k = _
    by_cases ha : a = id
    · subst ha
      rw [Function.update_self, SearchTree.find?_insert]
      by_cases hk : k = keys
      · rw [if_pos hk, if_pos ⟨rfl, hk⟩]
      · rw [if_neg hk, if_neg fun h => hk h.2]
    · rw [Function.update_of_ne ha, if_neg fun h => ha h.1]

/-- A rule that is linked after another was dropped was linked before. -/
theorem Core.link_of_link_dropRule {a : ℕ} {k : MatchKeys} {l : MatchLink RegistryRef}
    (h : (c.dropRule id keys rule).matchIndex.link (a, k) = some l) : c.matchIndex.link (a, k) = some l := by
  rw [Core.link_dropRule] at h
  split at h
  · cases h
  · exact h

/-- The index after a rule was dropped. -/
theorem MatchIndexed.dropRule (h : MatchIndexed Prod.snd c.matchIndex) :
    MatchIndexed Prod.snd (c.dropRule id keys rule).matchIndex := by
  rw [Core.dropRule]
  split
  · exact (matchIndexed_step Prod.fst h (.unlink (id, keys))).1
  · exact h

/-- Everything but the rules is as before when a rule is dropped. -/
theorem Core.dropRule_eq (c : Core) (id : ℕ) (keys : MatchKeys) (rule : MatchRule) :
    c.dropRule id keys rule = { c with
      ownedMatches := (c.dropRule id keys rule).ownedMatches
      matchIndex := (c.dropRule id keys rule).matchIndex } := by
  rw [Core.dropRule]
  split <;> rfl

/-- A rule is dropped. -/
theorem Good.dropRule (h : Good x c) (hrule : (c.ownedMatches id).find? keys = some rule) :
    Good { x with held := holdMore x.held (ruleName keys) } (c.dropRule id keys rule) := by
  have hholder : c.isRegistered id = true ∨ c.isMonitor id = true := by
    refine h.rules.holder id fun hempty => ?_
    rw [hempty, SearchTree.find?_empty] at hrule
    cases hrule
  have hpins : (c.dropRule id keys rule).pins (holdMore x.held (ruleName keys)) = c.pins x.held :=
    Core.pins_dropRule (h.lt_ids hholder) hrule (h.rules.refs id keys rule hrule)
  have hfind := c.find?_dropRule id keys rule
  have hlink := c.link_dropRule id keys rule
  have hsub : ∀ a k l, (c.dropRule id keys rule).matchIndex.link (a, k) = some l → c.matchIndex.link (a, k) = some l :=
    fun a k l => Core.link_of_link_dropRule
  have hindexed : MatchIndexed Prod.snd (c.dropRule id keys rule).matchIndex := h.links.indexed.dropRule
  rw [Core.dropRule_eq] at hpins ⊢
  refine ⟨h.peers, ?_, h.owners, ?_, ?_, h.replies, h.activations⟩
  · show NameBooks c.names (Core.pins _ (holdMore x.held (ruleName keys)))
    rw [hpins]
    exact h.names
  · constructor
    · intro a k r hr
      have hr := (hfind a k).symm.trans hr
      split at hr
      · split at hr
        · cases hr
        · next hmore =>
          cases hr
          show 0 < rule.nUserRefs - 1
          omega
      · exact h.rules.refs a k r hr
    · intro a hne
      by_cases ha : a = id
      · rw [ha]
        exact hholder
      · refine h.rules.holder a fun hempty => hne ?_
        refine SearchTree.ext_find? fun k => ?_
        have hk := hfind a k
        rw [if_neg fun hak => ha hak.1, hempty] at hk
        exact hk
  · refine ⟨hindexed, ?_, ?_, ?_, ?_, ?_⟩
    · intro a k l hl
      have hk := hfind a k
      have hl' := (hlink a k).symm.trans hl
      split at hl'
      · cases hl'
      · next hnot =>
        show (((c.dropRule id keys rule).ownedMatches a).find? k).isSome
        rw [hk]
        split
        · next hak =>
          rw [if_neg fun hlast => hnot ⟨hlast, hak⟩]
          rfl
        · exact h.links.held a k l hl'
    · intro a k l hl
      exact h.links.kind a k l (hsub a k l hl)
    · intro r l a hl hregistry
      exact h.links.sender r l a (hsub r.1 r.2 l hl) hregistry
    · intro r l a hl hregistry
      exact h.links.changed r l a (hsub r.1 r.2 l hl) hregistry
    · intro a k r hsome hnamed
      have hk := hfind a k
      have hsome' : (((c.dropRule id keys rule).ownedMatches a).find? k).isSome := hsome
      rw [hk] at hsome'
      have hheld : ((c.ownedMatches a).find? k).isSome ∧ ¬ (rule.nUserRefs ≤ 1 ∧ a = id ∧ k = keys) := by
        split at hsome'
        · next hak =>
          split at hsome'
          · cases hsome'
          · next hmore =>
            obtain ⟨rfl, rfl⟩ := hak
            rw [hrule]
            exact ⟨rfl, fun hlast => hmore hlast.1⟩
        · next hak => exact ⟨hsome', fun hlast => hak hlast.2⟩
      obtain ⟨l, hl, hr⟩ := h.links.named a k r hheld.1 hnamed
      refine ⟨l, ?_, hr⟩
      show (c.dropRule id keys rule).matchIndex.link (a, k) = some l
      rw [hlink a k, if_neg hheld.2, hl]

/-- The rules of others are taken out of a registry of a peer. -/
theorem Good.flush (h : Good x c) {registry : RegistryRef} (hregistry : registry.name = none) :
    Good x { c with matchIndex := matchRegistryFlush Prod.fst c.matchIndex registry } := by
  have hlink : ∀ rule, (matchRegistryFlush Prod.fst c.matchIndex registry).link rule =
      (c.matchIndex.link rule).filter fun l => l.registry ≠ registry :=
    matchRegistryFlush_link h.links.indexed registry
  have hsub : ∀ rule l, (matchRegistryFlush Prod.fst c.matchIndex registry).link rule = some l →
      c.matchIndex.link rule = some l := by
    intro rule l hl
    rw [hlink, Option.filter_eq_some_iff] at hl
    exact hl.1
  refine ⟨h.peers, h.names, h.owners, h.rules, ?_, h.replies, h.activations⟩
  refine ⟨h.links.indexed.flush registry, ?_, ?_, ?_, ?_, ?_⟩
  · intro a k l hl
    exact h.links.held a k l (hsub _ l hl)
  · intro a k l hl
    exact h.links.kind a k l (hsub _ l hl)
  · intro rule l a hl hr
    exact h.links.sender rule l a (hsub _ l hl) hr
  · intro rule l a hl hr
    exact h.links.changed rule l a (hsub _ l hl) hr
  · intro a k r hsome hnamed
    obtain ⟨l, hl, hr⟩ := h.links.named a k r hsome hnamed
    refine ⟨l, ?_, hr⟩
    show (matchRegistryFlush Prod.fst c.matchIndex registry).link (a, k) = some l
    rw [hlink, hl, Option.filter_eq_some_iff]
    refine ⟨rfl, ?_⟩
    rw [decide_eq_true_eq, hr]
    -- the registry of a name is not flushed
    intro heq
    obtain ⟨n, hn⟩ := name_of_namedRegistry hnamed
    rw [heq, hregistry] at hn
    cases hn

end Good

end DbusBroker
