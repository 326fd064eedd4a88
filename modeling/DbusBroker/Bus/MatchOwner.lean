import DbusBroker.Bus.MatchCompare
import DbusBroker.Util.User

/-!
# Match owners

The rules that a peer owns, from `bus/match.c`. The rule tree of an owner has one object for
equal keys, with the number of times it was asked for. A rule is created and charged before
its string is parsed, and dropped again if the owner has an equal one.
-/

namespace DbusBroker

open Std

/-- `MatchRule`, without the keys it is filed under and the registry it is linked in. -/
structure MatchRule where
  nUserRefs : ℕ
  charge : UserCharge × UserCharge

/-- The rule tree of a `MatchOwner`. -/
abbrev RuleTree := SearchTree matchKeysCompare MatchRule

/-- The charges of `match_rule_free`. -/
def matchRuleDischarge (users : UserRegistry) (rule : MatchRule) : UserRegistry :=
  let (users, _) := userChargeDeinit users rule.charge.2
  (userChargeDeinit users rule.charge.1).1

/-- The charges of `match_rule_new`; the second one is not tried after the first one failed. -/
def matchRuleCharge (sizes : Sizes) (users : UserRegistry) (user : Option Uid) (string : Bytes) :
    UserRegistry × MatchRule × UserResult :=
  let (users, bytes, r) := userCharge users user .init none userSlotBytes
    (UInt32.ofNat (sizes.matchRule + string.length + 1))
  match r with
  | .quota => (users, ⟨0, bytes, .init⟩, .quota)
  | .success =>
    let (users, count, r) := userCharge users user .init none userSlotMatches 1
    (users, ⟨0, bytes, count⟩, r)

/-- `match_rule_new`. -/
def matchRuleNew (sizes : Sizes) (users : UserRegistry) (user : Option Uid) (string : Bytes) (allowEavesdrop : Bool) :
    UserRegistry × Except MatchError (MatchKeys × MatchRule) :=
  if matchRuleLengthMax < string.length then (users, .error .invalid)
  else
    match matchRuleCharge sizes users user string with
    | (users, rule, .quota) => (matchRuleDischarge users rule, .error .quota)
    | (users, rule, .success) =>
      match matchKeysParse string allowEavesdrop with
      | .error e => (matchRuleDischarge users rule, .error e)
      | .ok keys => (users, .ok (keys, rule))

/-- `match_owner_ref_rule`: the keys of the rule that has one more reference. -/
def matchOwnerRefRule (sizes : Sizes) (users : UserRegistry) (tree : RuleTree) (user : Option Uid) (string : Bytes)
    (allowEavesdrop : Bool) : UserRegistry × RuleTree × Except MatchError MatchKeys :=
  match matchRuleNew sizes users user string allowEavesdrop with
  | (users, .error e) => (users, tree, .error e)
  | (users, .ok (keys, rule)) =>
    match tree.find? keys with
    | some old =>
      -- one already exists, the new one is dropped
      (matchRuleDischarge users rule, tree.insert keys { old with nUserRefs := old.nUserRefs + 1 }, .ok keys)
    | none => (users, tree.insert keys { rule with nUserRefs := 1 }, .ok keys)

/-- `match_owner_find_rule`. -/
def matchOwnerFindRule (tree : RuleTree) (string : Bytes) : Except MatchError (Option MatchKeys) :=
  match matchKeysNew string false with
  | .error e => .error e
  | .ok keys => .ok ((tree.find? keys).map fun _ => keys)

/-- `match_rule_user_unref` but for the registry: whether it was the last reference. -/
def matchRuleUserUnref (users : UserRegistry) (tree : RuleTree) (keys : MatchKeys) :
    UserRegistry × RuleTree × Bool :=
  match tree.find? keys with
  | none => (users, tree, false)
  | some rule =>
    if rule.nUserRefs ≤ 1 then (matchRuleDischarge users rule, tree.erase keys, true)
    else (users, tree.insert keys { rule with nUserRefs := rule.nUserRefs - 1 }, false)

/-- What `match_owner_ref_rule` does: an error and nothing else, or one more reference on the parsed rule. -/
theorem matchOwnerRefRule_cases (sizes : Sizes) (users : UserRegistry) (tree : RuleTree) (user : Option Uid)
    (string : Bytes) (allowEavesdrop : Bool) :
    (∃ users' e, matchOwnerRefRule sizes users tree user string allowEavesdrop = (users', tree, .error e)) ∨
      ∃ users' keys rule, matchOwnerRefRule sizes users tree user string allowEavesdrop =
          (users', tree.insert keys rule, .ok keys) ∧
        rule.nUserRefs = (tree.find? keys).elim 0 (·.nUserRefs) + 1 ∧ matchKeysParse string allowEavesdrop = .ok keys := by
  rw [matchOwnerRefRule, matchRuleNew]
  split_ifs
  · exact .inl ⟨_, _, rfl⟩
  · obtain ⟨users₁, rule, r⟩ := matchRuleCharge sizes users user string
    cases r with
    | quota => exact .inl ⟨_, _, rfl⟩
    | success =>
      cases hparse : matchKeysParse string allowEavesdrop with
      | error e => exact .inl ⟨_, _, rfl⟩
      | ok keys =>
        dsimp only
        cases hfind : tree.find? keys with
        | some old => exact .inr ⟨_, keys, { old with nUserRefs := old.nUserRefs + 1 }, rfl, by rw [hfind]; rfl, rfl⟩
        | none => exact .inr ⟨_, keys, { rule with nUserRefs := 1 }, rfl, by rw [hfind]; rfl, rfl⟩

end DbusBroker
