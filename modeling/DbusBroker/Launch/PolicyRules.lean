import DbusBroker.Launch.Policy
import DbusBroker.Bus.PolicyImport

/-!
# The rules of a configuration

The rules that the launcher accepts, each with whom it is meant for, where it is filed and the
record that it becomes. What the launcher holds after the import are exactly the records of these
rules, and their priorities follow the context first and then the place in the configuration.
-/

namespace DbusBroker.Launch

/-- Whom a rule is meant for, or where its record is filed. -/
inductive PolicyPlace where
  | everyone
  | atConsole
  | noConsole
  | uid (uid : UInt32)
  | gid (gid : UInt32)
  deriving DecidableEq, Repr

/-- The record of a rule. -/
inductive PolicyRecord where
  | connect (verdict : PolicyVerdict)
  | own (record : PolicyDumpOwn)
  | send (record : PolicyRecordXmit)
  | recv (record : PolicyRecordXmit)
  deriving DecidableEq, Repr

/-- The verdict of a record. -/
def PolicyRecord.verdict : PolicyRecord → PolicyVerdict
  | .connect verdict => verdict
  | .own record => record.verdict
  | .send record => record.verdict
  | .recv record => record.verdict

/-- An accepted rule. A rule for an unknown user or group is meant for no one. -/
structure PolicyRule where
  context : ConfigPolicy
  target : Option PolicyPlace
  place : Option PolicyPlace
  record : PolicyRecord
  deriving DecidableEq, Repr

/-- Whom the rules of a context are meant for. -/
def contextTarget (parent : ConfigContext) : Option PolicyPlace :=
  match parent.context with
  | .user => if parent.id ≠ -1 then some (.uid parent.id) else none
  | .noConsole => some .noConsole
  | .atConsole => some .atConsole
  | .group => if parent.id ≠ -1 then some (.gid parent.id) else none
  | _ => some .everyone

/-- Whom a connect rule is meant for. -/
def connectTarget (rule : ConfigAllowDeny) : PolicyPlace :=
  if rule.user ∧ rule.uid ≠ -1 then .uid rule.uid
  else if rule.group ∧ rule.gid ≠ -1 then .gid rule.gid
  else .everyone

/-- Where the record of a connect rule is filed. -/
def connectPlace (rule : ConfigAllowDeny) : PolicyPlace :=
  if rule.user ∧ rule.uid ≠ -1 then .uid rule.uid
  else if rule.group ∧ rule.gid ≠ -1 then .gid rule.uid
  else .everyone

/-- The verdict of a rule of a context with a number. -/
def policyVerdictAt (i : UInt64) (isAllow : Bool) (context : ConfigPolicy) : PolicyVerdict :=
  ⟨isAllow, uint64Max / configPolicyN * context.number + i⟩

/-- The rule with a number that an element of the configuration is, if it is accepted. -/
def policyRule (i : UInt64) : ConfigNode → Option PolicyRule
  | .other => none
  | .allowDeny _ none _ => none
  | .allowDeny isAllow (some parent) rule =>
    let verdict := policyVerdictAt i isAllow parent.context
    let target := contextTarget parent
    if parent.context = .none then none
    else if rule.user || rule.group then
      if !rule.isConnect || (parent.context = .user ∨ parent.context = .group) then none
      else some ⟨parent.context, some (connectTarget rule), some (connectPlace rule), .connect verdict⟩
    else if rule.own.isSome || rule.ownPrefix.isSome then
      if !rule.isOwn then none
      else some ⟨parent.context, target, target, .own (policyOwnRecord verdict rule)⟩
    else if rule.sends then
      if !rule.isSend || policyTypeIgnored rule.sendType || policyEavesdropIgnored isAllow rule then none
      else some ⟨parent.context, target, target, .send (policySendRecord verdict rule)⟩
    else if rule.receives || rule.eavesdrop != .unset then
      if !rule.isRecv || policyTypeIgnored rule.recvType || policyEavesdropIgnored isAllow rule then none
      else some ⟨parent.context, target, target, .recv (policyRecvRecord verdict rule)⟩
    else none

/-- The accepted rules of a configuration, numbered from the one after a number. -/
def configRules (i : UInt64) : List ConfigNode → List PolicyRule
  | [] => []
  | node :: rest =>
    match policyRule (i + 1) node with
    | none => configRules i rest
    | some rule => rule :: configRules (i + 1) rest

/-- An accepted rule is an element of the configuration. -/
theorem exists_of_mem_configRules {rule : PolicyRule} {i : UInt64} {root : List ConfigNode}
    (h : rule ∈ configRules i root) : ∃ j, ∃ node ∈ root, policyRule j node = some rule := by
  induction root generalizing i with
  | nil => exact absurd h List.not_mem_nil
  | cons node rest ih =>
    rw [configRules] at h
    cases hnode : policyRule (i + 1) node with
    | none =>
      rw [hnode] at h
      obtain ⟨j, later, hlater, hrule⟩ := ih h
      exact ⟨j, later, List.mem_cons_of_mem node hlater, hrule⟩
    | some first =>
      rw [hnode] at h
      obtain rfl | h := List.mem_cons.mp h
      · exact ⟨i + 1, node, List.mem_cons_self, hnode⟩
      · obtain ⟨j, later, hlater, hrule⟩ := ih h
        exact ⟨j, later, List.mem_cons_of_mem node hlater, hrule⟩

/-- The rule of `policy_import_connect_self`. -/
def selfRule (uid : UInt32) : PolicyRule := ⟨.none, some (.uid uid), some (.uid uid), .connect ⟨true, 2⟩⟩

/-- Add a record to the list of its kind. -/
def PolicyEntries.add (entries : PolicyEntries) : PolicyRecord → PolicyEntries
  | .connect verdict => entries.addConnect verdict
  | .own record => entries.addOwn record
  | .send record => entries.addSend record
  | .recv record => entries.addRecv record

/-- The entries that are filed at a place. -/
def Policy.entriesAt (policy : Policy) : PolicyPlace → PolicyEntries
  | .everyone => policy.defaultEntries
  | .atConsole => policy.atConsoleEntries
  | .noConsole => policy.noConsoleEntries
  | .uid uid => (policy.uidTree.find? uid).getD .null
  | .gid gid => (policy.gidTree.find? gid).getD .null

/-- The connect record of a rule. -/
def PolicyRule.connect? (rule : PolicyRule) : Option PolicyVerdict :=
  match rule.record with
  | .connect verdict => some verdict
  | _ => none

/-- The own record of a rule. -/
def PolicyRule.own? (rule : PolicyRule) : Option PolicyDumpOwn :=
  match rule.record with
  | .own record => some record
  | _ => none

/-- The send record of a rule. -/
def PolicyRule.send? (rule : PolicyRule) : Option PolicyRecordXmit :=
  match rule.record with
  | .send record => some record
  | _ => none

/-- The receive record of a rule. -/
def PolicyRule.recv? (rule : PolicyRule) : Option PolicyRecordXmit :=
  match rule.record with
  | .recv record => some record
  | _ => none

/-- The records of some rules. -/
def PolicyEntries.ofRules (rules : List PolicyRule) : PolicyEntries :=
  ⟨rules.filterMap (·.connect?), rules.filterMap (·.own?), rules.filterMap (·.send?), rules.filterMap (·.recv?)⟩

/-- The rules whose records are filed at a place. -/
def rulesAt (rules : List PolicyRule) (place : PolicyPlace) : List PolicyRule :=
  rules.filter fun rule => decide (rule.place = some place)

/-- File a record, and count the rule. -/
def Policy.link (policy : Policy) (rule : PolicyRule) : Policy :=
  match rule.place with
  | none => policy.count
  | some .everyone => { policy.count with defaultEntries := policy.defaultEntries.add rule.record }
  | some .atConsole => { policy.count with atConsoleEntries := policy.atConsoleEntries.add rule.record }
  | some .noConsole => { policy.count with noConsoleEntries := policy.noConsoleEntries.add rule.record }
  | some (.uid uid) => policyAtUid policy.count uid (·.add rule.record)
  | some (.gid gid) => policyAtGid policy.count gid (·.add rule.record)

/-- The records of one more rule. -/
theorem PolicyEntries.ofRules_append_singleton (rules : List PolicyRule) (rule : PolicyRule) :
    PolicyEntries.ofRules (rules ++ [rule]) = (PolicyEntries.ofRules rules).add rule.record := by
  obtain ⟨context, target, place, record⟩ := rule
  cases record <;>
    simp [ofRules, add, addConnect, addOwn, addSend, addRecv, PolicyRule.connect?, PolicyRule.own?, PolicyRule.send?,
      PolicyRule.recv?, List.filterMap_append]

/-- Filing a record changes the entries of its place only. -/
theorem Policy.entriesAt_link (policy : Policy) (rule : PolicyRule) (place : PolicyPlace) :
    (policy.link rule).entriesAt place =
      if rule.place = some place then (policy.entriesAt place).add rule.record else policy.entriesAt place := by
  unfold Policy.link
  cases hplace : rule.place with
  | none => cases place <;> rfl
  | some filed =>
    cases filed with
    | everyone => cases place <;> simp [Policy.entriesAt, Policy.count]
    | atConsole => cases place <;> simp [Policy.entriesAt, Policy.count]
    | noConsole => cases place <;> simp [Policy.entriesAt, Policy.count]
    | uid u =>
      cases place with
      | uid u' =>
        by_cases h : u' = u
        · simp [Policy.entriesAt, Policy.count, policyAtUid, policyAtUidgid, h]
        · simp [Policy.entriesAt, Policy.count, policyAtUid, policyAtUidgid, SearchTree.find?_insert_of_ne, h, Ne.symm h]
      | _ => simp [Policy.entriesAt, Policy.count, policyAtUid]
    | gid g =>
      cases place with
      | gid g' =>
        by_cases h : g' = g
        · simp [Policy.entriesAt, Policy.count, policyAtGid, policyAtUidgid, h]
        · simp [Policy.entriesAt, Policy.count, policyAtGid, policyAtUidgid, SearchTree.find?_insert_of_ne, h, Ne.symm h]
      | _ => simp [Policy.entriesAt, Policy.count, policyAtGid]

/-- Filing a record counts the rule. -/
@[simp] theorem Policy.iPriority_link (policy : Policy) (rule : PolicyRule) :
    (policy.link rule).iPriority = policy.iPriority + 1 := by
  unfold Policy.link
  cases rule.place with
  | none => rfl
  | some place => cases place <;> rfl

/-- A record of a context is filed with those that the context is meant for. -/
theorem policyLinkRecord_eq (policy : Policy) (parent : ConfigContext) (record : PolicyRecord) :
    policyLinkRecord policy.count parent (·.add record) =
      policy.link ⟨parent.context, contextTarget parent, contextTarget parent, record⟩ := by
  unfold policyLinkRecord contextTarget Policy.link
  cases parent.context <;> try rfl
  all_goals by_cases h : parent.id = -1 <;> simp [h]

/-- One element of the configuration: its rule is filed, if it is accepted. -/
theorem policyImportNode_eq (policy : Policy) (node : ConfigNode) :
    policyImportNode policy node =
      match policyRule (policy.iPriority + 1) node with
      | none => policy
      | some rule => policy.link rule := by
  cases node with
  | other => rfl
  | allowDeny isAllow parent rule =>
    cases parent with
    | none => rfl
    | some parent =>
      simp only [policyImportNode, policyRule]
      by_cases hnone : parent.context = .none
      · simp only [if_pos hnone]
      by_cases hconnect : rule.user || rule.group
      · simp only [if_neg hnone, if_pos hconnect, policyImportConnect]
        by_cases hok : !rule.isConnect
        · simp [hok]
        by_cases hcontext : parent.context = .user ∨ parent.context = .group
        · simp [hcontext]
        · simp only [Bool.or_eq_true, hok, hcontext, decide_false, Bool.false_eq_true,
            or_self, if_false, Policy.link, connectPlace]
          by_cases huser : rule.user = true ∧ rule.uid ≠ -1
          · simp only [if_pos huser]; rfl
          by_cases hgroup : rule.group = true ∧ rule.gid ≠ -1
          · simp only [if_neg huser, if_pos hgroup]; rfl
          · simp only [if_neg huser, if_neg hgroup]; rfl
      by_cases hown : rule.own.isSome || rule.ownPrefix.isSome
      · simp only [if_neg hnone, if_neg hconnect, if_pos hown, policyImportOwn]
        by_cases hok : !rule.isOwn
        · simp only [if_pos hok]
        · simp only [if_neg hok]
          exact policyLinkRecord_eq policy parent (.own _)
      by_cases hsend : rule.sends = true
      · simp only [if_neg hnone, if_neg hconnect, if_neg hown, if_pos hsend, policyImportSend]
        cases !rule.isSend <;> cases policyTypeIgnored rule.sendType <;> cases policyEavesdropIgnored isAllow rule <;>
          first | rfl | exact policyLinkRecord_eq policy parent (.send _)
      by_cases hrecv : rule.receives || rule.eavesdrop != .unset
      · simp only [if_neg hnone, if_neg hconnect, if_neg hown, if_neg hsend, if_pos hrecv, policyImportRecv]
        cases !rule.isRecv <;> cases policyTypeIgnored rule.recvType <;> cases policyEavesdropIgnored isAllow rule <;>
          first | rfl | exact policyLinkRecord_eq policy parent (.recv _)
      · simp only [if_neg hnone, if_neg hconnect, if_neg hown, if_neg hsend, if_neg hrecv]

/-- The records of the rules of a place are added to those there already. -/
theorem entriesAt_foldl_policyImportNode (root : List ConfigNode) (policy : Policy) (before : List PolicyRule)
    (place : PolicyPlace) (h : policy.entriesAt place = .ofRules (rulesAt before place)) :
    (root.foldl policyImportNode policy).entriesAt place =
      .ofRules (rulesAt (before ++ configRules policy.iPriority root) place) := by
  induction root generalizing policy before with
  | nil => simpa [configRules] using h
  | cons node rest ih =>
    rw [List.foldl_cons, policyImportNode_eq, configRules]
    cases policyRule (policy.iPriority + 1) node with
    | none => exact ih policy before h
    | some rule =>
      have hlink : (policy.link rule).entriesAt place = .ofRules (rulesAt (before ++ [rule]) place) := by
        rw [Policy.entriesAt_link, h, rulesAt, rulesAt, List.filter_append]
        by_cases hplace : rule.place = some place
        · simp [hplace, PolicyEntries.ofRules_append_singleton]
        · simp [hplace]
      simpa using ih (policy.link rule) (before ++ [rule]) hlink

/-- The record of a connect rule is not filed for a side of the console. -/
theorem place_ne_console_of_policyRule {i : UInt64} {node : ConfigNode} {rule : PolicyRule}
    (h : policyRule i node = some rule) (hconnect : rule.connect?.isSome) :
    rule.place ≠ some .atConsole ∧ rule.place ≠ some .noConsole := by
  have hplace (attributes : ConfigAllowDeny) :
      connectPlace attributes ≠ .atConsole ∧ connectPlace attributes ≠ .noConsole := by
    unfold connectPlace
    split_ifs <;> simp
  cases node with
  | other => cases h
  | allowDeny isAllow parent attributes =>
    cases parent with
    | none => cases h
    | some parent =>
      simp only [policyRule] at h
      split_ifs at h
      all_goals obtain rfl := Option.some.inj h
      · simpa using hplace attributes
      all_goals simp [PolicyRule.connect?] at hconnect

/-- The rules of a configuration, with the one for the launcher itself. -/
def importedRules (uid : UInt32) (root : List ConfigNode) : List PolicyRule := selfRule uid :: configRules 2 root

/-- The launcher holds exactly the records of the accepted rules, each where it is filed. -/
theorem entriesAt_policyImport (uid : UInt32) (root : List ConfigNode) (place : PolicyPlace) :
    (policyImport uid .init root).entriesAt place = .ofRules (rulesAt (importedRules uid root) place) := by
  have hself : (policyImportConnectSelf uid .init).entriesAt place = .ofRules (rulesAt [selfRule uid] place) := by
    have hlink : policyImportConnectSelf uid .init = Policy.init.link (selfRule uid) := rfl
    have hempty : Policy.init.entriesAt place = .ofRules [] := by cases place <;> rfl
    rw [hlink, Policy.entriesAt_link, hempty]
    by_cases h : (selfRule uid).place = some place
    · simp [rulesAt, h, ← PolicyEntries.ofRules_append_singleton]
    · simp [rulesAt, h]
  exact entriesAt_foldl_policyImportNode root _ [selfRule uid] place hself

/-- The priority of a rule. -/
def PolicyRule.rank (rule : PolicyRule) : ℕ := rule.record.verdict.rank

/-- The priority of an accepted rule is made of its context and its number. -/
theorem priority_of_policyRule {i : UInt64} {node : ConfigNode} {rule : PolicyRule} (h : policyRule i node = some rule) :
    rule.record.verdict.priority = uint64Max / configPolicyN * rule.context.number + i ∧ rule.context ≠ .none := by
  cases node with
  | other => cases h
  | allowDeny isAllow parent attributes =>
    cases parent with
    | none => cases h
    | some parent =>
      have hown (verdict : PolicyVerdict) : (policyOwnRecord verdict attributes).verdict = verdict := by
        unfold policyOwnRecord
        cases attributes.own with
        | none => rfl
        | some own => by_cases hwild : own = lit "*" <;> simp [hwild]
      simp only [policyRule] at h
      split_ifs at h with hnone
      all_goals
        obtain rfl := Option.some.inj h
        exact ⟨by simp [PolicyRecord.verdict, hown, policySendRecord, policyRecvRecord, policyVerdictAt], hnone⟩

/-- The share of a context of the priorities. -/
theorem toNat_share : (uint64Max / configPolicyN).toNat = 2635249153387078802 := by decide

/-- There are six contexts. -/
theorem ConfigPolicy.number_le (context : ConfigPolicy) : context.number.toNat ≤ 6 := by cases context <;> decide

/-- The priority of an accepted rule does not overflow while there are not too many rules. -/
theorem rank_of_policyRule {i : UInt64} {node : ConfigNode} {rule : PolicyRule} (h : policyRule i node = some rule)
    (hi : i.toNat ≤ 2635249153387078803) : rule.rank = 2635249153387078802 * rule.context.number.toNat + i.toNat := by
  have hnumber := rule.context.number_le
  rw [PolicyRule.rank, PolicyVerdict.rank, (priority_of_policyRule h).1, UInt64.toNat_add, UInt64.toNat_mul, toNat_share]
  have hsmall : 2635249153387078802 * rule.context.number.toNat ≤ 2635249153387078802 * 6 := Nat.mul_le_mul_left _ hnumber
  rw [Nat.mod_eq_of_lt (a := 2635249153387078802 * _) (by omega), Nat.mod_eq_of_lt (by omega)]

/-- The priorities of the rules of a configuration. -/
theorem rank_configRules (root : List ConfigNode) (i : UInt64)
    (h : i.toNat + (configRules i root).length ≤ 2635249153387078803) (n : ℕ) (rule : PolicyRule)
    (hrule : (configRules i root)[n]? = some rule) :
    rule.rank = 2635249153387078802 * rule.context.number.toNat + (i.toNat + n + 1) := by
  induction root generalizing i n with
  | nil => simp [configRules] at hrule
  | cons node rest ih =>
    rw [configRules] at h hrule
    cases hnode : policyRule (i + 1) node with
    | none =>
      rw [hnode] at h hrule
      exact ih i h n hrule
    | some first =>
      rw [hnode] at h hrule
      simp only [List.length_cons] at h
      have hnext : (i + 1).toNat = i.toNat + 1 := by
        rw [UInt64.toNat_add, UInt64.toNat_one, Nat.mod_eq_of_lt (by omega)]
      cases n with
      | zero =>
        obtain rfl : first = rule := by simpa using hrule
        rw [rank_of_policyRule hnode (by omega), hnext]
      | succ n =>
        rw [ih (i + 1) (by omega) n (by simpa using hrule), hnext, Nat.add_right_comm i.toNat 1 n, Nat.add_assoc i.toNat]

/-- A rule comes before another one in a configuration: it is stronger only if its context is. -/
def PolicyRule.Before (rule later : PolicyRule) : Prop :=
  if later.context.number.toNat < rule.context.number.toNat then later.rank < rule.rank else rule.rank < later.rank

/-- While there are not too many rules, the later one of two rules is the stronger one unless its context is lower. -/
theorem pairwise_before_configRules (root : List ConfigNode)
    (h : (configRules 2 root).length < 2635249153387078802) : (configRules 2 root).Pairwise PolicyRule.Before := by
  have hrank := rank_configRules root 2 (by show 2 + _ ≤ _; omega)
  rw [List.pairwise_iff_getElem]
  intro n m hn hm hlt
  have hfirst := hrank n _ (List.getElem?_eq_getElem hn)
  have hsecond := hrank m _ (List.getElem?_eq_getElem hm)
  have htwo : (2 : UInt64).toNat = 2 := rfl
  rw [htwo] at hfirst hsecond
  unfold PolicyRule.Before
  generalize (configRules 2 root)[n] = rule at *
  generalize (configRules 2 root)[m] = later at *
  split_ifs with hcontext
  · have hmul := Nat.mul_le_mul_left 2635249153387078802 (Nat.succ_le_of_lt hcontext)
    rw [Nat.mul_succ] at hmul
    omega
  · have hmul := Nat.mul_le_mul_left 2635249153387078802 (not_lt.mp hcontext)
    omega

/-- Rules of one priority are the same rule. -/
theorem eq_of_rank_eq {rules : List PolicyRule} (h : rules.Pairwise PolicyRule.Before) {rule other : PolicyRule}
    (hrule : rule ∈ rules) (hother : other ∈ rules) (hrank : rule.rank = other.rank) : rule = other := by
  have hdistinct : (rules.map PolicyRule.rank).Nodup := by
    rw [List.nodup_iff_pairwise_ne, List.pairwise_map]
    refine h.imp fun {a b} hab => ?_
    unfold PolicyRule.Before at hab
    split_ifs at hab
    · exact hab.ne'
    · exact hab.ne
  exact List.inj_on_of_nodup_map hdistinct hrule hother hrank

end DbusBroker.Launch
