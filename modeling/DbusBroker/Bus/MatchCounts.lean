import DbusBroker.Bus.MatchOwner
import DbusBroker.Bus.MatchScan
import DbusBroker.Bus.RuleString

/-!
# Counting rules by meaning

The rules of one owner: they are added and removed as strings, linked in the registries in
between, and freed with their last reference. A rule object stands for all strings with one
meaning, and its references are the adds of such strings less their removes.
-/

namespace DbusBroker

open Std Machine

/-- The rules of an owner and the registries they are linked in. A rule is named by its keys. -/
structure OwnerWorld (ρ : Type) where
  users : UserRegistry
  rules : RuleTree
  registries : MatchWorld ρ MatchKeys Unit

/-- The operations on the rules of an owner. Others change the accounting in between. -/
inductive OwnerOp (ρ : Type) where
  | add (user : Option Uid) (string : Bytes) (allowEavesdrop : Bool)
  | link (keys : MatchKeys) (counted : Bool) (registry : ρ) (monitor : Bool)
  | remove (string : Bytes)
  | account (users : UserRegistry)

/-- The references of a rule in the tree of an owner. -/
def ruleRefs (tree : RuleTree) (keys : MatchKeys) : ℕ := (tree.find? keys).elim 0 (·.nUserRefs)

namespace OwnerWorld

variable {ρ : Type}

/-- An owner without rules. -/
def init (users : UserRegistry) : OwnerWorld ρ := ⟨users, .empty, .init⟩

/-- The references of a rule. -/
def refs (keys : MatchKeys) (w : OwnerWorld ρ) : ℕ := ruleRefs w.rules keys

/-- A rule is in a tree of a registry. -/
def Registered (keys : MatchKeys) (r : ρ) (monitor : Bool) (w : OwnerWorld ρ) : Prop :=
  keys ∈ matchTreeRules ((w.registries.registries r).tree monitor)

variable [DecidableEq ρ] (sizes : Sizes)

/-- Link or unlink a rule of the owner. -/
def move (w : OwnerWorld ρ) (op : MatchOp ρ MatchKeys) : OwnerWorld ρ :=
  { w with registries := w.registries.step id (fun _ => ()) op }

/-- One operation: `match_owner_ref_rule`, `match_rule_link` of a rule that is held, or
`match_owner_find_rule` and `match_rule_user_unref`. A rule is unlinked when it is freed. -/
def step (w : OwnerWorld ρ) : OwnerOp ρ → OwnerWorld ρ
  | .add user string allowEavesdrop =>
    let added := matchOwnerRefRule sizes w.users w.rules user string allowEavesdrop
    { w with users := added.1, rules := added.2.1 }
  | .link keys counted registry monitor =>
    if (w.rules.find? keys).isSome then w.move (.link keys counted registry monitor) else w
  | .remove string =>
    match matchOwnerFindRule w.rules string with
    | .ok (some keys) =>
      let unref := matchRuleUserUnref w.users w.rules keys
      let w := { w with users := unref.1, rules := unref.2.1 }
      if unref.2.2 then w.move (.unlink keys) else w
    | _ => w
  | .account users => { w with users := users }

/-- A string with the meaning of some keys is added. -/
def Adds (keys : MatchKeys) (w : OwnerWorld ρ) : OwnerOp ρ → Prop
  | .add user string allowEavesdrop => RuleMeans string allowEavesdrop keys ∧
      (matchOwnerRefRule sizes w.users w.rules user string allowEavesdrop).2.2.toBool = true
  | _ => False

/-- A string with the meaning of some keys is found and removed. -/
def Removes (keys : MatchKeys) (w : OwnerWorld ρ) : OwnerOp ρ → Prop
  | .remove string => RuleMeans string false keys ∧ (matchOwnerFindRule w.rules string).toOption.join.isSome = true
  | _ => False

instance (keys : MatchKeys) (w : OwnerWorld ρ) : (op : OwnerOp ρ) → Decidable (Adds sizes keys w op)
  | .add _ _ _ => inferInstanceAs (Decidable (_ ∧ _))
  | .link _ _ _ _ => instDecidableFalse
  | .remove _ => instDecidableFalse
  | .account _ => instDecidableFalse

instance (keys : MatchKeys) (w : OwnerWorld ρ) : (op : OwnerOp ρ) → Decidable (Removes keys w op)
  | .add _ _ _ => instDecidableFalse
  | .link _ _ _ _ => instDecidableFalse
  | .remove _ => inferInstanceAs (Decidable (_ ∧ _))
  | .account _ => instDecidableFalse

end OwnerWorld

/-! ## The functions of an owner -/

section Functions

variable {tree : RuleTree} {string : Bytes} {keys keys' : MatchKeys}

/-- A rule gets another reference, named by the meaning of the string. -/
theorem matchOwnerRefRule_means (sizes : Sizes) (users : UserRegistry) (tree : RuleTree) (user : Option Uid)
    (string : Bytes) (allowEavesdrop : Bool) :
    (∃ e, (matchOwnerRefRule sizes users tree user string allowEavesdrop).2 = (tree, .error e)) ∨
      ∃ keys rule, (matchOwnerRefRule sizes users tree user string allowEavesdrop).2 = (tree.insert keys rule, .ok keys) ∧
        RuleMeans string allowEavesdrop keys ∧ rule.nUserRefs = ruleRefs tree keys + 1 := by
  obtain ⟨users', e, he⟩ | ⟨users', keys, rule, hadded, hrefs, hparse⟩ :=
    matchOwnerRefRule_cases sizes users tree user string allowEavesdrop
  · exact .inl ⟨e, congrArg (·.2) he⟩
  · exact .inr ⟨keys, rule, congrArg (·.2) hadded, (matchKeysParse_eq_ok_iff string allowEavesdrop keys).mp hparse,
      hrefs⟩

/-- A string that means no keys, or is too long, is an error. -/
theorem matchOwnerFindRule_cases (tree : RuleTree) (string : Bytes) :
    (∃ e, matchOwnerFindRule tree string = .error e) ∨
      ∃ keys, RuleMeans string false keys ∧ matchOwnerFindRule tree string = .ok ((tree.find? keys).map fun _ => keys) := by
  rw [matchOwnerFindRule]
  cases hnew : matchKeysNew string false with
  | error e => exact .inl ⟨e, rfl⟩
  | ok keys =>
    rw [matchKeysNew] at hnew
    split_ifs at hnew
    exact .inr ⟨keys, (matchKeysParse_eq_ok_iff string false keys).mp hnew, rfl⟩

/-- A string means one key set only. -/
theorem RuleMeans.unique {allowEavesdrop : Bool} (h : RuleMeans string allowEavesdrop keys)
    (h' : RuleMeans string allowEavesdrop keys') : keys = keys' := by
  have hok := (matchKeysParse_eq_ok_iff string allowEavesdrop keys).mpr h
  rw [(matchKeysParse_eq_ok_iff string allowEavesdrop keys').mpr h'] at hok
  exact (Except.ok.inj hok).symm

/-- A rule is looked for by the meaning of the string. -/
theorem matchOwnerFindRule_of_means (tree : RuleTree) (hlength : string.length ≤ matchRuleLengthMax)
    (h : RuleMeans string false keys) :
    matchOwnerFindRule tree string = .ok ((tree.find? keys).map fun _ => keys) := by
  have hnew : matchKeysNew string false = .ok keys := by
    rw [matchKeysNew, if_neg (Nat.not_lt.mpr hlength)]
    exact (matchKeysParse_eq_ok_iff string false keys).mpr h
  rw [matchOwnerFindRule, hnew]

/-- A rule loses a reference, and goes with the last one. -/
theorem matchRuleUserUnref_spec (users : UserRegistry) {rule : MatchRule} (h : tree.find? keys = some rule)
    (hrefs : 0 < rule.nUserRefs) :
    (∀ k, ruleRefs (matchRuleUserUnref users tree keys).2.1 k + (if k = keys then 1 else 0) = ruleRefs tree k) ∧
      ((matchRuleUserUnref users tree keys).2.2 = true ↔ rule.nUserRefs = 1) ∧
      ∀ k r, (matchRuleUserUnref users tree keys).2.1.find? k = some r → 0 < r.nUserRefs ∨ tree.find? k = some r := by
  have hrefs' : ruleRefs tree keys = rule.nUserRefs := by
    rw [ruleRefs, h]
    rfl
  rw [matchRuleUserUnref, h]
  dsimp only
  by_cases hlast : rule.nUserRefs ≤ 1
  · rw [if_pos hlast]
    refine ⟨fun k => ?_, iff_of_true rfl (by omega), fun k r hr => ?_⟩
    · by_cases hk : k = keys
      · rw [if_pos hk, hk, hrefs', ruleRefs, SearchTree.find?_erase_self, Option.elim_none]
        omega
      · rw [if_neg hk, ruleRefs, SearchTree.find?_erase_of_ne _ hk]
        rfl
    · rw [SearchTree.find?_erase] at hr
      split_ifs at hr
      exact .inr hr
  · rw [if_neg hlast]
    refine ⟨fun k => ?_, iff_of_false (by simp) (by omega), fun k r hr => ?_⟩
    · by_cases hk : k = keys
      · rw [if_pos hk, hk, hrefs', ruleRefs, SearchTree.find?_insert_self, Option.elim_some]
        exact Nat.sub_add_cancel hrefs
      · rw [if_neg hk, ruleRefs, SearchTree.find?_insert_of_ne _ hk]
        rfl
    · rw [SearchTree.find?_insert] at hr
      split_ifs at hr
      · cases hr
        exact .inl (by show 0 < rule.nUserRefs - 1; omega)
      · exact .inr hr

end Functions

/-! ## Runs -/

namespace OwnerWorld

variable {ρ : Type} [DecidableEq ρ] {sizes : Sizes} {w : OwnerWorld ρ} {keys : MatchKeys}

/-- Every rule has a reference, and only rules of the owner are linked. -/
structure Sound (w : OwnerWorld ρ) : Prop where
  positive : ∀ keys rule, w.rules.find? keys = some rule → 0 < rule.nUserRefs
  held : ∀ keys, (w.registries.link keys).isSome = true → (w.rules.find? keys).isSome = true
  indexed : MatchIndexed id w.registries

omit [DecidableEq ρ] in
/-- A rule is in the tree exactly as long as it has references. -/
theorem Sound.refs_pos_iff (h : w.Sound) (keys : MatchKeys) : 0 < w.refs keys ↔ (w.rules.find? keys).isSome = true := by
  rw [refs, ruleRefs]
  cases hfind : w.rules.find? keys with
  | none => simp
  | some rule => exact iff_of_true (h.positive keys rule hfind) rfl

omit [DecidableEq ρ] in
theorem sound_init (users : UserRegistry) : (init users : OwnerWorld ρ).Sound where
  positive keys rule h := by cases h
  held keys h := by cases h
  indexed := matchIndexed_init id

omit [DecidableEq ρ] in
/-- A rule with references is in the tree. -/
theorem isSome_of_refs_pos (h : 0 < w.refs keys) : (w.rules.find? keys).isSome = true := by
  rw [refs, ruleRefs] at h
  cases hfind : w.rules.find? keys with
  | none =>
    rw [hfind] at h
    exact absurd h (Nat.lt_irrefl 0)
  | some rule => rfl

/-- A rule that was moved is linked where it was moved to, and others stay. -/
theorem Sound.linked_move (h : w.Sound) (op : MatchOp ρ MatchKeys) (keys : MatchKeys) :
    (((w.move op).registries.link keys).isSome = true ↔
      (scanStep (fun keys => (w.registries.link keys).map fun l => (l.registry, l.monitor)) op keys).isSome = true) := by
  rw [← (matchIndexed_step (fun _ => ()) h.indexed op).2, Option.isSome_map]
  rfl

/-- What a remove does to the rules and their links. -/
theorem Sound.remove_cases (sizes : Sizes) (h : w.Sound) (string : Bytes) :
    ((matchOwnerFindRule w.rules string).toOption.join = none ∧ w.step sizes (.remove string) = w) ∨
      ∃ keys, RuleMeans string false keys ∧ (matchOwnerFindRule w.rules string).toOption.join = some keys ∧
        (∀ k, (w.step sizes (.remove string)).refs k + (if k = keys then 1 else 0) = w.refs k) ∧
        (∀ k r, (w.step sizes (.remove string)).rules.find? k = some r → 0 < r.nUserRefs) ∧
        (w.step sizes (.remove string)).registries =
          if w.refs keys = 1 then (w.move (.unlink keys)).registries else w.registries := by
  rw [OwnerWorld.step]
  obtain ⟨e, he⟩ | ⟨keys, hmeans, hfound⟩ := matchOwnerFindRule_cases w.rules string
  · rw [he]
    exact .inl ⟨rfl, rfl⟩
  · rw [hfound]
    cases hfind : w.rules.find? keys with
    | none => exact .inl ⟨rfl, rfl⟩
    | some rule =>
      obtain ⟨hrefs, hlast, hpositive⟩ := matchRuleUserUnref_spec w.users hfind (h.positive keys rule hfind)
      have hcount : w.refs keys = rule.nUserRefs := by
        rw [refs, ruleRefs, hfind]
        rfl
      have hkept : ∀ k r, (matchRuleUserUnref w.users w.rules keys).2.1.find? k = some r → 0 < r.nUserRefs :=
        fun k r hr => (hpositive k r hr).elim id (h.positive k r)
      refine .inr ⟨keys, hmeans, rfl, ?_⟩
      rw [Option.map_some]
      dsimp only
      by_cases hone : rule.nUserRefs = 1
      · rw [if_pos (hlast.mpr hone), if_pos (hcount.trans hone)]
        exact ⟨hrefs, hkept, rfl⟩
      · rw [if_neg (fun hfreed => hone (hlast.mp hfreed)), if_neg (fun hfreed => hone (hcount.symm.trans hfreed))]
        exact ⟨hrefs, hkept, rfl⟩

/-- The operations on the rules of an owner keep them sound. -/
theorem Sound.step (h : w.Sound) (op : OwnerOp ρ) : (w.step sizes op).Sound := by
  cases op with
  | account users => exact ⟨h.positive, h.held, h.indexed⟩
  | add user string allowEavesdrop =>
    obtain ⟨e, he⟩ | ⟨keys, rule, hadded, -, hrefs⟩ :=
      matchOwnerRefRule_means sizes w.users w.rules user string allowEavesdrop
    · have hrules : (w.step sizes (.add user string allowEavesdrop)).rules = w.rules := congrArg (·.1) he
      exact ⟨fun k r hr => h.positive k r (hrules ▸ hr), fun k hk => hrules ▸ h.held k hk, h.indexed⟩
    · have hrules : (w.step sizes (.add user string allowEavesdrop)).rules = w.rules.insert keys rule :=
        congrArg (·.1) hadded
      refine ⟨fun k r hr => ?_, fun k hk => ?_, h.indexed⟩
      · rw [hrules, SearchTree.find?_insert] at hr
        split_ifs at hr
        · cases hr
          omega
        · exact h.positive k r hr
      · rw [hrules, SearchTree.find?_insert]
        split_ifs
        · rfl
        · exact h.held k hk
  | link keys counted registry monitor =>
    rw [OwnerWorld.step]
    split_ifs with hheld
    · refine ⟨h.positive, fun k hk => ?_,
        (matchIndexed_step (fun _ => ()) h.indexed (.link keys counted registry monitor)).1⟩
      rw [h.linked_move, scanStep] at hk
      split_ifs at hk
      · exact h.held k (by rwa [Option.isSome_map] at hk)
      · by_cases hsame : k = keys
        · exact hsame ▸ hheld
        · rw [Function.update_of_ne hsame, Option.isSome_map] at hk
          exact h.held k hk
    · exact h
  | remove string =>
    obtain ⟨-, hsame⟩ | ⟨keys, -, -, hrefs, hpositive, hregistries⟩ := h.remove_cases sizes string
    · rw [hsame]
      exact h
    have hcount (k : MatchKeys) := hrefs k
    refine ⟨hpositive, fun k hk => isSome_of_refs_pos ?_, ?_⟩
    · rw [hregistries] at hk
      split_ifs at hk with hone
      · rw [h.linked_move, scanStep] at hk
        by_cases hsame : k = keys
        · rw [hsame, Function.update_self] at hk
          cases hk
        · rw [Function.update_of_ne hsame, Option.isSome_map] at hk
          have hpos := (h.refs_pos_iff k).mpr (h.held k hk)
          have hk' := hcount k
          rw [if_neg hsame] at hk'
          omega
      · have hpos := (h.refs_pos_iff k).mpr (h.held k hk)
        have hk' := hcount k
        split_ifs at hk' with hsame
        · rw [hsame] at hk' hpos ⊢
          omega
        · omega
    · rw [hregistries]
      split_ifs
      · exact (matchIndexed_step (fun _ => ()) h.indexed (.unlink keys)).1
      · exact h.indexed

/-- A rule has one more reference after an add of its meaning, one less after a remove. -/
theorem Sound.refs_step (sizes : Sizes) (h : w.Sound) (keys : MatchKeys) (op : OwnerOp ρ) :
    (w.step sizes op).refs keys + (if Removes keys w op then 1 else 0) =
      w.refs keys + (if Adds sizes keys w op then 1 else 0) := by
  cases op with
  | account users => rfl
  | link keys' counted registry monitor =>
    rw [if_neg (fun hremoves : Removes keys w (.link keys' counted registry monitor) => hremoves),
      if_neg (fun hadds : Adds sizes keys w (.link keys' counted registry monitor) => hadds), OwnerWorld.step]
    split_ifs <;> rfl
  | add user string allowEavesdrop =>
    rw [if_neg (fun hremoves : Removes keys w (.add user string allowEavesdrop) => hremoves)]
    obtain ⟨e, he⟩ | ⟨added, rule, hadded, hmeans, hrefs⟩ :=
      matchOwnerRefRule_means sizes w.users w.rules user string allowEavesdrop
    · have hrules : (w.step sizes (.add user string allowEavesdrop)).rules = w.rules := congrArg (·.1) he
      rw [if_neg, refs, refs, hrules]
      intro hadds
      have hok := hadds.2
      rw [he] at hok
      cases hok
    · have hrules : (w.step sizes (.add user string allowEavesdrop)).rules = w.rules.insert added rule :=
        congrArg (·.1) hadded
      by_cases hsame : keys = added
      · rw [if_pos ⟨hsame ▸ hmeans, by rw [hadded]; rfl⟩, refs, hrules, ruleRefs, hsame, SearchTree.find?_insert_self]
        exact hrefs
      · rw [if_neg (fun hadds => hsame (hadds.1.unique hmeans)), refs, hrules, ruleRefs,
          SearchTree.find?_insert_of_ne _ hsame]
        rfl
  | remove string =>
    rw [if_neg (fun hadds : Adds sizes keys w (.remove string) => hadds)]
    obtain ⟨hfound, hsame⟩ | ⟨found, hmeans, hfound, hrefs, -, -⟩ := h.remove_cases sizes string
    · rw [hsame, if_neg]
      intro hremoves
      have hsome := hremoves.2
      rw [hfound] at hsome
      cases hsome
    · by_cases hkeys : keys = found
      · have hcount := hrefs keys
        rw [if_pos hkeys] at hcount
        rw [if_pos ⟨hkeys ▸ hmeans, by rw [hfound]; rfl⟩]
        exact hcount
      · have hcount := hrefs keys
        rw [if_neg hkeys] at hcount
        rw [if_neg fun hremoves => hkeys (hremoves.1.unique hmeans)]
        exact hcount

omit [DecidableEq ρ] in
/-- Where a rule is linked. -/
def place (keys : MatchKeys) (w : OwnerWorld ρ) : Option (ρ × Bool) :=
  (w.registries.link keys).map fun l => (l.registry, l.monitor)

/-- A rule that is linked stays where it is until its last reference is gone. -/
theorem Sound.place_step (h : w.Sound) (op : OwnerOp ρ) (hlinked : (w.place keys).isSome = true) :
    (w.step sizes op).place keys = if (w.step sizes op).refs keys = 0 then none else w.place keys := by
  have hrefs : 0 < w.refs keys := (h.refs_pos_iff keys).mpr (h.held keys (by rwa [place, Option.isSome_map] at hlinked))
  have hmove (op : MatchOp ρ MatchKeys) : (w.move op).place keys = scanStep (fun keys => w.place keys) op keys :=
    (matchIndexed_step (fun _ => ()) h.indexed op).2 keys
  have hcount := h.refs_step sizes keys op
  cases op with
  | account users => exact (if_neg (Nat.ne_of_gt hrefs)).symm
  | add user string allowEavesdrop =>
    rw [if_neg (fun hremoves : Removes keys w (.add user string allowEavesdrop) => hremoves)] at hcount
    exact (if_neg (by omega)).symm
  | link keys' counted registry monitor =>
    rw [if_neg (fun hremoves : Removes keys w (.link keys' counted registry monitor) => hremoves),
      if_neg (fun hadds : Adds sizes keys w (.link keys' counted registry monitor) => hadds)] at hcount
    rw [if_neg (by omega), OwnerWorld.step]
    split_ifs
    · rw [hmove, scanStep]
      split_ifs with hplaced
      · rfl
      · by_cases hsame : keys = keys'
        · exact absurd (hsame ▸ hlinked) hplaced
        · rw [Function.update_of_ne hsame]
    · rfl
  | remove string =>
    obtain ⟨-, hsame⟩ | ⟨found, -, -, hremoved, -, hregistries⟩ := h.remove_cases sizes string
    · rw [hsame, if_neg (Nat.ne_of_gt hrefs)]
    have hcount := hremoved keys
    rw [place, hregistries]
    by_cases hlast : w.refs found = 1
    · rw [if_pos hlast]
      refine (hmove (.unlink found)).trans ?_
      rw [scanStep]
      by_cases hkeys : keys = found
      · rw [if_pos hkeys] at hcount
        rw [hkeys] at hcount ⊢
        rw [Function.update_self, if_pos (by omega)]
      · rw [if_neg hkeys] at hcount
        rw [Function.update_of_ne hkeys, if_neg (by omega)]
    · rw [if_neg hlast]
      split_ifs at hcount with hkeys
      · rw [hkeys] at hcount ⊢
        exact (if_neg (by omega)).symm
      · exact (if_neg (by omega)).symm

omit [DecidableEq ρ] in
/-- The rules in a tree are those linked there. -/
theorem Sound.registered_iff (h : w.Sound) (r : ρ) (monitor : Bool) :
    Registered keys r monitor w ↔ w.place keys = some (r, monitor) := by
  rw [Registered, mem_matchTreeRules_iff, place, Option.map_eq_some_iff]
  constructor
  · intro hfiled
    obtain ⟨a, ha⟩ := hfiled
    obtain ⟨-, l, hl, hr, hm⟩ := (h.indexed.filed r monitor a keys).mp ha
    exact ⟨l, hl, by rw [hr, hm]⟩
  · intro hplaced
    obtain ⟨l, hl, heq⟩ := hplaced
    obtain ⟨hr, hm⟩ := Prod.mk.inj heq
    exact ⟨_, (h.indexed.filed r monitor _ keys).mpr ⟨rfl, l, hl, hr, hm⟩⟩

/-- Every run keeps the rules of an owner sound. -/
theorem sound_run (sizes : Sizes) (users : UserRegistry) (ops : List (OwnerOp ρ)) :
    (run (OwnerWorld.step sizes) (init users) ops).Sound :=
  run_invariant (fun _ op h _ => h.step op) (sound_init users) (along_true _ ops)

/-- The comparison of key sets is a total order whose zero is equality of all keys. In every run of
one owner, a rule has as many references as strings with its meaning were added less those that
were removed, a remove finds a rule exactly if this number is positive, and a rule leaves the
registries exactly when it becomes zero. What a string means depends on its set of pairs only. -/
theorem rules_counted (sizes : Sizes) (users : UserRegistry) (ops : List (OwnerOp ρ)) (keys : MatchKeys) :
    let w := run (OwnerWorld.step sizes) (init users) ops
    ((∀ k l, matchKeysCompare k l = (matchKeysCompare l k).swap) ∧
      (∀ k l m, (matchKeysCompare k l).isLE → (matchKeysCompare l m).isLE → (matchKeysCompare k m).isLE) ∧
      ∀ k l : MatchKeys, k.Tight → l.Tight → (matchKeysCompare k l = .eq ↔ ∀ key, k.get key = l.get key)) ∧
    (∀ s s' b b' pairs pairs', RuleMeans s b keys → RuleString 0 b s pairs → RuleString 0 b' s' pairs' →
      (RuleMeans s' b' keys ↔ ∀ p, p ∈ pairs ↔ p ∈ pairs')) ∧
    w.refs keys + tally (OwnerWorld.step sizes) (Removes keys) (init users) ops =
      tally (OwnerWorld.step sizes) (Adds sizes keys) (init users) ops ∧
    (∀ s, s.length ≤ matchRuleLengthMax → RuleMeans s false keys →
      matchOwnerFindRule w.rules s = .ok (if 0 < w.refs keys then some keys else none)) ∧
    ∀ op r monitor, Registered keys r monitor w →
      (¬Registered keys r monitor (w.step sizes op) ↔ (w.step sizes op).refs keys = 0) := by
  intro w
  have hsound : w.Sound := sound_run sizes users ops
  refine ⟨⟨fun k l => OrientedCmp.eq_swap, fun k l m => TransCmp.isLE_trans, fun k l hk hl => ?_⟩,
    fun s s' b b' pairs pairs' hmeans h h' => ruleMeans_iff hmeans h h', ?_, fun s hs hmeans => ?_,
    fun op r monitor hregistered => ?_⟩
  · rw [LawfulEqCmp.compare_eq_iff_eq]
    exact ⟨fun heq key => by rw [heq], hk.ext hl⟩
  · have htally := run_tally (OwnerWorld.step sizes) (refs keys) (fun w op h => Sound.step h op)
      (fun w op h => Sound.refs_step sizes h keys op) (sound_init users) ops
    rwa [show refs keys (init users) = 0 from rfl, Nat.zero_add] at htally
  · rw [matchOwnerFindRule_of_means w.rules hs hmeans]
    have hpos := hsound.refs_pos_iff keys
    cases hfind : w.rules.find? keys with
    | none => rw [if_neg (by rw [hpos, hfind]; simp), Option.map_none]
    | some rule => rw [if_pos (by rw [hpos, hfind]; rfl), Option.map_some]
  · have hplace := (hsound.registered_iff r monitor).mp hregistered
    rw [(hsound.step op).registered_iff, hsound.place_step op (by rw [hplace]; rfl)]
    by_cases hzero : (w.step sizes op).refs keys = 0
    · rw [if_pos hzero]
      exact iff_of_true (by simp) hzero
    · rw [if_neg hzero]
      exact iff_of_false (fun hnot => hnot hplace) hzero

end OwnerWorld

end DbusBroker
