import DbusBroker.Launch.PolicyRecords

/-!
# Who may connect

The connect rules from the configuration to the verdict of the broker. The launcher files the
record of a rule for a group under the uid of the rule instead of its gid, so that the verdict is
that of the rules as they are filed, and the one that is meant only where this does not matter.
-/

namespace DbusBroker.Launch

open Strongest

/-- The rule of the highest precedence: a later rule takes the place of an earlier one unless its context is lower. -/
def strongestRule (rules : List PolicyRule) : Option PolicyRule :=
  rules.foldl (fun best rule =>
    match best with
    | none => some rule
    | some best => if rule.context.number.toNat < best.context.number.toNat then some best else some rule) none

/-- The rule of the highest precedence is the one of the greatest priority. -/
theorem strongestRule_spec {rules : List PolicyRule} (h : rules.Pairwise PolicyRule.Before) :
    (strongestRule rules = none ∧ rules = []) ∨
      ∃ best, strongestRule rules = some best ∧ Greatest PolicyRule.rank rules best := by
  have hrun (rules : List PolicyRule) (first : PolicyRule) (h : (first :: rules).Pairwise PolicyRule.Before) :
      ∃ best, rules.foldl (fun best rule =>
          match best with
          | none => some rule
          | some best => if rule.context.number.toNat < best.context.number.toNat then some best else some rule)
          (some first) = some best ∧ Greatest PolicyRule.rank (first :: rules) best := by
    induction rules generalizing first with
    | nil => exact ⟨first, rfl, List.mem_cons_self, fun other hother => by simp_all⟩
    | cons rule rest ih =>
      rw [List.foldl_cons]
      have hbefore : first.Before rule := List.rel_of_pairwise_cons h List.mem_cons_self
      unfold PolicyRule.Before at hbefore
      by_cases hlower : rule.context.number.toNat < first.context.number.toNat
      · rw [if_pos hlower] at hbefore
        obtain ⟨best, hfold, hmem, hle⟩ := ih first (h.sublist (by simp))
        refine ⟨best, by simpa only [if_pos hlower] using hfold, ?_, fun other hother => ?_⟩
        · rcases List.mem_cons.mp hmem with rfl | hmem
          · exact List.mem_cons_self
          · exact List.mem_cons_of_mem _ (List.mem_cons_of_mem _ hmem)
        · rcases List.mem_cons.mp hother with rfl | hother
          · exact hle other List.mem_cons_self
          rcases List.mem_cons.mp hother with rfl | hother
          · exact hbefore.le.trans (hle first List.mem_cons_self)
          · exact hle other (List.mem_cons_of_mem first hother)
      · rw [if_neg hlower] at hbefore
        obtain ⟨best, hfold, hmem, hle⟩ := ih rule (List.Pairwise.of_cons h)
        refine ⟨best, by simpa only [if_neg hlower] using hfold, List.mem_cons_of_mem first hmem, fun other hother => ?_⟩
        rcases List.mem_cons.mp hother with rfl | hother
        · exact hbefore.le.trans (hle rule List.mem_cons_self)
        · exact hle other hother
  cases rules with
  | nil => exact .inl ⟨rfl, rfl⟩
  | cons first rest =>
    obtain ⟨best, hfold, hgreatest⟩ := hrun rest first h
    exact .inr ⟨best, hfold, hgreatest⟩

/-- The rule of the highest precedence, by its priority. -/
theorem strongestRule_eq_some_iff {rules : List PolicyRule} (h : rules.Pairwise PolicyRule.Before) (rule : PolicyRule) :
    strongestRule rules = some rule ↔ Greatest PolicyRule.rank rules rule := by
  rcases strongestRule_spec h with ⟨hnone, hnil⟩ | ⟨best, hbest, hgreatest⟩
  · rw [hnone, hnil]
    exact iff_of_false (by simp) fun hgreatest => List.not_mem_nil hgreatest.mem
  · rw [hbest, Option.some.injEq]
    refine ⟨fun heq => heq ▸ hgreatest, fun hrule => ?_⟩
    exact eq_of_rank_eq h hgreatest.mem hrule.mem (le_antisymm (hrule.le best hgreatest.mem) (hgreatest.le rule hrule.mem))

/-- There is no such rule exactly where there are no rules. -/
theorem strongestRule_eq_none_iff {rules : List PolicyRule} (h : rules.Pairwise PolicyRule.Before) :
    strongestRule rules = none ↔ rules = [] := by
  rcases strongestRule_spec h with ⟨hnone, hnil⟩ | ⟨best, hbest, hgreatest⟩
  · exact iff_of_true hnone hnil
  · rw [hbest]
    exact iff_of_false (by simp) fun hnil => by rw [hnil] at hgreatest; exact List.not_mem_nil hgreatest.mem

/-- The record of a rule is filed for a peer. -/
def PolicyRule.FiledFor (systemUidMax : UInt32) (atConsoleUids : List UInt32) (uid : UInt32) (gids : List UInt32)
    (rule : PolicyRule) : Prop :=
  ∃ place ∈ rule.place, place.Concerns systemUidMax atConsoleUids uid gids

instance (systemUidMax : UInt32) (atConsoleUids : List UInt32) (uid : UInt32) (gids : List UInt32) (rule : PolicyRule) :
    Decidable (rule.FiledFor systemUidMax atConsoleUids uid gids) :=
  match h : rule.place with
  | none => isFalse fun ⟨_, hmem, _⟩ => by simp [h] at hmem
  | some place => decidable_of_iff (place.Concerns systemUidMax atConsoleUids uid gids) (by
      simp [PolicyRule.FiledFor, h])

/-- The accepted connect rules of a configuration. -/
def connectRules (root : List ConfigNode) : List PolicyRule := (configRules 2 root).filter (·.connect?.isSome)

/-- The connect rules that are meant for a peer. -/
def applicableConnectRules (systemUidMax : UInt32) (atConsoleUids : List UInt32) (uid : UInt32) (gids : List UInt32)
    (root : List ConfigNode) : List PolicyRule :=
  (connectRules root).filter fun rule => decide (rule.Concerns systemUidMax atConsoleUids uid gids)

/-- The connect rules whose records are filed for a peer. -/
def filedConnectRules (systemUidMax : UInt32) (atConsoleUids : List UInt32) (uid : UInt32) (gids : List UInt32)
    (root : List ConfigNode) : List PolicyRule :=
  (connectRules root).filter fun rule => decide (rule.FiledFor systemUidMax atConsoleUids uid gids)

/-- The verdict of some rules on a user: that of the rule of the highest precedence, or whether it is the launcher's. -/
def connectVerdict (self uid : UInt32) (rules : List PolicyRule) : Bool :=
  match strongestRule rules with
  | some rule => rule.record.verdict.verdict
  | none => decide (uid = self)

section

variable {self : UInt32} {root : List ConfigNode} {systemUidMax : UInt32} {atConsoleUids : List UInt32}

/-- The connect records that are filed at a place. -/
def connectAt (self : UInt32) (root : List ConfigNode) (place : PolicyPlace) : List PolicyVerdict :=
  (rulesAt (importedRules self root) place).filterMap (·.connect?)

/-- They are those that the launcher holds there. -/
theorem connectList_entriesAt (place : PolicyPlace) :
    ((policyImport self .init root).entriesAt place).connectList = connectAt self root place := by
  rw [entriesAt_policyImport]
  rfl

/-- The record that is exported for a node: one of the node or of the default list, or the denial of all, and no
weaker than any of these. -/
theorem policyExportConnect_spec (default : List PolicyVerdict) (entries : PolicyEntries)
    (hpositive : ∀ v ∈ default ++ entries.connectList, 1 ≤ v.rank) :
    let exported := policyExportConnect (some (policyListFindTop default).toList)
      (some (policyOptimizeNode (policyListFindTop default) entries).connectList)
    (exported ∈ default ++ entries.connectList ∨ exported = ⟨false, 1⟩) ∧ 1 ≤ exported.rank ∧
      ∀ v ∈ default ++ entries.connectList, v.rank ≤ exported.rank := by
  unfold policyOptimizeNode
  rcases policyListFindTop_spec default with ⟨hnone, rfl⟩ | ⟨top, htop, hsome, hle⟩
  · rcases policyListFindTop_spec entries.connectList with ⟨hnone', hnil⟩ | ⟨best, hbest, hsome', hle'⟩
    · simp only [hnone, hnil]
      exact ⟨.inr rfl, by decide, fun v hv => absurd hv List.not_mem_nil⟩
    · simp only [hnone, hsome', List.nil_append] at hpositive ⊢
      exact ⟨.inl hbest, hpositive best hbest, hle'⟩
  · rcases policyListFindTop_spec entries.connectList with ⟨hnone', hnil⟩ | ⟨best, hbest, hsome', hle'⟩
    · simp only [hsome, hnil, List.append_nil] at hpositive ⊢
      exact ⟨.inl htop, hpositive top htop, hle⟩
    · simp only [hsome, hsome']
      by_cases hweak : best.priority ≤ top.priority
      · simp only [if_pos hweak]
        refine ⟨.inl (List.mem_append_left _ htop), hpositive top (List.mem_append_left _ htop), fun v hv => ?_⟩
        rcases List.mem_append.mp hv with hv | hv
        · exact hle v hv
        · exact (hle' v hv).trans (UInt64.le_iff_toNat_le.mp hweak)
      · simp only [if_neg hweak]
        have hlt : top.rank < best.rank := not_le.mp fun h => hweak (UInt64.le_iff_toNat_le.mpr h)
        refine ⟨.inl (List.mem_append_right _ hbest), hpositive best (List.mem_append_right _ hbest), fun v hv => ?_⟩
        rcases List.mem_append.mp hv with hv | hv
        · exact (hle v hv).trans hlt.le
        · exact hle' v hv

/-- The records of a node are dropped only where a default one is no weaker. -/
theorem exists_le_of_dropped {default : List PolicyVerdict} {entries : PolicyEntries}
    (h : (policyOptimizeNode (policyListFindTop default) entries).connectList = []) {v : PolicyVerdict}
    (hv : v ∈ entries.connectList) : ∃ d ∈ default, v.rank ≤ d.rank := by
  unfold policyOptimizeNode at h
  rcases policyListFindTop_spec entries.connectList with ⟨-, hnil⟩ | ⟨best, -, hsome, hle⟩
  · rw [hnil] at hv
    exact absurd hv List.not_mem_nil
  · rcases policyListFindTop_spec default with ⟨hnone, -⟩ | ⟨top, htop, hsome', -⟩
    · simp [hsome, hnone] at h
    · by_cases hweak : best.priority ≤ top.priority
      · exact ⟨top, htop, (hle v hv).trans (UInt64.le_iff_toNat_le.mp hweak)⟩
      · simp [hsome, hsome', hweak] at h

/-- A node without records is exported like none. -/
theorem policyExportConnect_node (default : List PolicyVerdict) (entries : PolicyEntries) :
    policyExportConnect (some default) ((if entries.isEmpty then none else some entries).map (·.connectList)) =
      policyExportConnect (some default) (some entries.connectList) := by
  by_cases hempty : entries.isEmpty = true
  · rw [if_pos hempty, PolicyEntries.eq_null_of_isEmpty hempty]
    rfl
  · rw [if_neg hempty]
    rfl

/-- The verdicts that a peer may get: the denial of all, and those of the records that are filed for it. -/
def filedVerdicts (self systemUidMax : UInt32) (atConsoleUids : List UInt32) (uid : UInt32) (gids : List UInt32)
    (root : List ConfigNode) : List PolicyVerdict :=
  ⟨false, 1⟩ :: ((importedRules self root).filter fun rule =>
    decide (rule.FiledFor systemUidMax atConsoleUids uid gids)).filterMap (·.connect?)

/-- They are found at the places that concern the peer. -/
theorem mem_filedVerdicts {uid : UInt32} {gids : List UInt32} (v : PolicyVerdict) :
    v ∈ filedVerdicts self systemUidMax atConsoleUids uid gids root ↔
      v = ⟨false, 1⟩ ∨ ∃ place : PolicyPlace, place.Concerns systemUidMax atConsoleUids uid gids ∧
        v ∈ connectAt self root place := by
  simp only [filedVerdicts, connectAt, rulesAt, List.mem_cons, List.mem_filterMap, List.mem_filter, decide_eq_true_iff,
    PolicyRule.FiledFor, Option.mem_def]
  refine or_congr_right ⟨?_, ?_⟩
  · rintro ⟨rule, ⟨hrule, place, hplace, hconcerns⟩, hv⟩
    exact ⟨place, hconcerns, rule, ⟨hrule, hplace⟩, hv⟩
  · rintro ⟨place, hconcerns, rule, ⟨hrule, hplace⟩, hv⟩
    exact ⟨rule, ⟨hrule, place, hplace, hconcerns⟩, hv⟩

/-- No connect record is filed for a side of the console. -/
theorem connectAt_console : connectAt self root .atConsole = [] ∧ connectAt self root .noConsole = [] := by
  have hnone (rule : PolicyRule) (hrule : rule ∈ importedRules self root) (hconnect : rule.connect?.isSome) :
      rule.place ≠ some .atConsole ∧ rule.place ≠ some .noConsole := by
    rcases List.mem_cons.mp hrule with rfl | hrule
    · simp [selfRule]
    · exact configRules_forall (P := fun rule => rule.connect?.isSome →
        rule.place ≠ some .atConsole ∧ rule.place ≠ some .noConsole) (fun _ _ _ => place_ne_console_of_policyRule)
        2 root rule hrule hconnect
  refine ⟨?_, ?_⟩
  · refine List.filterMap_eq_nil_iff.mpr fun rule hrule => ?_
    obtain ⟨hrule, hplace⟩ := List.mem_filter.mp hrule
    by_contra hne
    exact (hnone rule hrule (Option.isSome_iff_ne_none.mpr hne)).1 (of_decide_eq_true hplace)
  · refine List.filterMap_eq_nil_iff.mpr fun rule hrule => ?_
    obtain ⟨hrule, hplace⟩ := List.mem_filter.mp hrule
    by_contra hne
    exact (hnone rule hrule (Option.isSome_iff_ne_none.mpr hne)).2 (of_decide_eq_true hplace)

/-- The verdict of a rule that is filed. -/
theorem exists_rule_of_mem_connectAt {place : PolicyPlace} {v : PolicyVerdict} (h : v ∈ connectAt self root place) :
    ∃ rule ∈ importedRules self root, rule.place = some place ∧ rule.connect? = some v := by
  obtain ⟨rule, hrule, hv⟩ := List.mem_filterMap.mp h
  obtain ⟨hrule, hplace⟩ := List.mem_filter.mp hrule
  exact ⟨rule, hrule, of_decide_eq_true hplace, hv⟩

/-- The verdict of a connect rule is its record. -/
theorem verdict_of_connect {rule : PolicyRule} {v : PolicyVerdict} (h : rule.connect? = some v) :
    rule.record.verdict = v := by
  cases hrecord : rule.record <;> simp_all [PolicyRule.connect?, PolicyRecord.verdict]

/-- The rules of a configuration are stronger than that of the launcher. -/
theorem three_le_rank (hcount : (configRules 2 root).length < 2635249153387078802) {rule : PolicyRule}
    (hrule : rule ∈ configRules 2 root) : 3 ≤ rule.rank := by
  obtain ⟨n, hn⟩ := List.getElem?_of_mem hrule
  have htwo : (2 : UInt64).toNat = 2 := rfl
  have hrank := rank_configRules root 2 (by rw [htwo]; omega) n rule hn
  rw [htwo] at hrank
  omega

/-- Every record that is filed is stronger than no verdict at all. -/
theorem one_le_rank_of_mem_connectAt (hcount : (configRules 2 root).length < 2635249153387078802) {place : PolicyPlace}
    {v : PolicyVerdict} (h : v ∈ connectAt self root place) : 1 ≤ v.rank := by
  obtain ⟨rule, hrule, -, hv⟩ := exists_rule_of_mem_connectAt h
  rw [← verdict_of_connect hv]
  rcases List.mem_cons.mp hrule with rfl | hrule
  · exact (by decide : 1 ≤ 2)
  · exact Nat.le_of_succ_le (Nat.le_of_succ_le (three_le_rank hcount hrule))

/-- The record that is exported for a node of the loaded policy. -/
theorem policyExportConnect_loaded (hcount : (configRules 2 root).length < 2635249153387078802) (place : PolicyPlace) :
    let exported := policyExportConnect (some (launcherLoadPolicy self root).defaultEntries.connectList)
      (some ((policyImport self .init root).optimizedAt place).connectList)
    (exported ∈ connectAt self root .everyone ++ connectAt self root place ∨ exported = ⟨false, 1⟩) ∧
      1 ≤ exported.rank ∧
      ∀ v ∈ connectAt self root .everyone ++ connectAt self root place, v.rank ≤ exported.rank := by
  have hspec := policyExportConnect_spec (connectAt self root .everyone) ((policyImport self .init root).entriesAt place)
    (by
      rw [connectList_entriesAt]
      intro v hv
      rcases List.mem_append.mp hv with hv | hv
      · exact one_le_rank_of_mem_connectAt hcount hv
      · exact one_le_rank_of_mem_connectAt hcount hv)
  rw [connectList_entriesAt] at hspec
  have hdefault : (policyImport self .init root).defaultEntries.connectList = connectAt self root .everyone :=
    connectList_entriesAt .everyone
  simp only [Policy.optimizedAt, launcherLoadPolicy, policyOptimize, policyOptimizeTrim, policyOptimizeConnect, hdefault]
  exact hspec

/-- The parts for the ranges of users let no one connect. -/
theorem connect_of_mem_rangeBatches (hmax : systemUidMax ≠ -1) (hnodup : atConsoleUids.Nodup) {uid : UInt32}
    {part : PolicyDumpBatch}
    (h : part ∈ (policyExport systemUidMax (launcherLoadPolicy self root) atConsoleUids).rangeBatches uid) :
    part.connect = ⟨false, 1⟩ := by
  rw [rangeBatches_policyExport _ hmax hnodup] at h
  obtain ⟨entries, hentries, hnil⟩ : ∃ entries, part ∈ consoleBatch entries ∧ entries.connectList = [] := by
    refine ⟨_, h, ?_⟩
    split_ifs
    · exact (connectList_entriesAt .atConsole).trans connectAt_console.1
    · exact (connectList_entriesAt .noConsole).trans connectAt_console.2
  by_cases hempty : entries.isEmpty = true
  · rw [consoleBatch, if_pos hempty] at hentries
    exact absurd hentries List.not_mem_nil
  · rw [consoleBatch, if_neg hempty] at hentries
    rw [List.mem_singleton.mp hentries]
    simp only [policyExportBatch, Option.map_none, Option.map_some, hnil]
    rfl

/-- The part for the user of a peer. -/
theorem userBatches_loaded (hself : self ≠ -1) (uid : UInt32) :
    ∃ part, (policyExport systemUidMax (launcherLoadPolicy self root) atConsoleUids).userBatches uid = [part] ∧
      part.connect = policyExportConnect (some (launcherLoadPolicy self root).defaultEntries.connectList)
        (some ((policyImport self .init root).optimizedAt (.uid uid)).connectList) := by
  refine ⟨_, userBatches_policyExport _ systemUidMax atConsoleUids (find?_launcherLoadPolicy_all hself) uid, ?_⟩
  have hfind := (find?_policyOptimize (policyImport self .init root)).1 uid
  rw [← policyExportConnect_node, ← hfind]
  rfl

variable (self root systemUidMax atConsoleUids) in
/-- The part for a group: there is none where nothing is left of the group. -/
theorem gidBatches_loaded (gid : UInt32) :
    ((policyExport systemUidMax (launcherLoadPolicy self root) atConsoleUids).gidBatches gid = [] ∧
      ((policyImport self .init root).optimizedAt (.gid gid)).connectList = []) ∨
    ∃ part, (policyExport systemUidMax (launcherLoadPolicy self root) atConsoleUids).gidBatches gid = [part] ∧
      part.connect = policyExportConnect (some (launcherLoadPolicy self root).defaultEntries.connectList)
        (some ((policyImport self .init root).optimizedAt (.gid gid)).connectList) := by
  have hfind := (find?_policyOptimize (policyImport self .init root)).2 gid
  rw [gidBatches_policyExport, launcherLoadPolicy, hfind]
  by_cases hempty : ((policyImport self .init root).optimizedAt (.gid gid)).isEmpty = true
  · rw [if_pos hempty, PolicyEntries.eq_null_of_isEmpty hempty]
    exact .inl ⟨rfl, rfl⟩
  · rw [if_neg hempty]
    exact .inr ⟨_, rfl, rfl⟩

/-- The parts that concern a peer have verdicts that it may get. -/
theorem connect_mem_filedVerdicts (hself : self ≠ -1) (hmax : systemUidMax ≠ -1) (hnodup : atConsoleUids.Nodup)
    (hcount : (configRules 2 root).length < 2635249153387078802) {uid : UInt32} {gids : List UInt32}
    {part : PolicyDumpBatch}
    (h : part ∈ (policyExport systemUidMax (launcherLoadPolicy self root) atConsoleUids).batches uid gids) :
    part.connect ∈ filedVerdicts self systemUidMax atConsoleUids uid gids root := by
  have hplace {place : PolicyPlace} (hconcerns : place.Concerns systemUidMax atConsoleUids uid gids)
      (hconnect : part.connect = policyExportConnect (some (launcherLoadPolicy self root).defaultEntries.connectList)
        (some ((policyImport self .init root).optimizedAt place).connectList)) :
      part.connect ∈ filedVerdicts self systemUidMax atConsoleUids uid gids root := by
    rw [mem_filedVerdicts, hconnect]
    rcases (policyExportConnect_loaded hcount place).1 with hin | heq
    · rcases List.mem_append.mp hin with hin | hin
      · exact .inr ⟨.everyone, trivial, hin⟩
      · exact .inr ⟨place, hconcerns, hin⟩
    · exact .inl heq
  obtain ⟨user, huser, hconnect⟩ := @userBatches_loaded self root systemUidMax atConsoleUids hself uid
  rcases List.mem_append.mp h with h | h
  · rcases List.mem_append.mp h with h | h
    · change part ∈ PolicyDump.userBatches _ uid at h
      rw [huser] at h
      obtain rfl := List.mem_singleton.mp h
      exact @hplace (.uid uid) rfl hconnect
    · rw [mem_filedVerdicts]
      exact .inl (connect_of_mem_rangeBatches hmax hnodup h)
  · obtain ⟨gid, hgid, h⟩ := List.mem_flatMap.mp h
    rcases gidBatches_loaded self root systemUidMax atConsoleUids gid with ⟨hnil, -⟩ | ⟨part', hpart, hconnect'⟩
    · rw [hnil] at h
      exact absurd h List.not_mem_nil
    · rw [hpart] at h
      obtain rfl := List.mem_singleton.mp h
      exact @hplace (.gid gid) hgid hconnect'

/-- No verdict that a peer may get is stronger than those of all parts that concern it. -/
theorem exists_connect_ge (hself : self ≠ -1) (hcount : (configRules 2 root).length < 2635249153387078802) {uid : UInt32}
    {gids : List UInt32} {v : PolicyVerdict} (h : v ∈ filedVerdicts self systemUidMax atConsoleUids uid gids root) :
    ∃ part ∈ (policyExport systemUidMax (launcherLoadPolicy self root) atConsoleUids).batches uid gids,
      v.rank ≤ part.connect.rank := by
  obtain ⟨user, huser, hconnect⟩ := @userBatches_loaded self root systemUidMax atConsoleUids hself uid
  have huserMem : user ∈ (policyExport systemUidMax (launcherLoadPolicy self root) atConsoleUids).batches uid gids := by
    refine List.mem_append_left _ (List.mem_append_left _ ?_)
    change user ∈ PolicyDump.userBatches _ uid
    rw [huser]
    exact List.mem_singleton_self user
  obtain ⟨-, hone, hle⟩ := @policyExportConnect_loaded self root hcount (.uid uid)
  rw [← hconnect] at hone hle
  rcases (mem_filedVerdicts v).mp h with rfl | ⟨place, hconcerns, hv⟩
  · exact ⟨user, huserMem, hone⟩
  · cases place with
    | everyone => exact ⟨user, huserMem, hle v (List.mem_append_left _ hv)⟩
    | uid u =>
      obtain rfl : u = uid := hconcerns
      exact ⟨user, huserMem, hle v (List.mem_append_right _ hv)⟩
    | atConsole =>
      rw [connectAt_console.1] at hv
      exact absurd hv List.not_mem_nil
    | noConsole =>
      rw [connectAt_console.2] at hv
      exact absurd hv List.not_mem_nil
    | gid gid =>
      rcases gidBatches_loaded self root systemUidMax atConsoleUids gid with ⟨-, hnil⟩ | ⟨part, hpart, hconnect'⟩
      · -- what was filed for the group is no stronger than the records for everyone
        have hdefault : (policyImport self .init root).defaultEntries.connectList = connectAt self root .everyone :=
          connectList_entriesAt .everyone
        rw [← connectList_entriesAt] at hv
        obtain ⟨d, hd, hvd⟩ := exists_le_of_dropped hnil hv
        rw [hdefault] at hd
        exact ⟨user, huserMem, hvd.trans (hle d (List.mem_append_left _ hd))⟩
      · refine ⟨part, List.mem_append_right _ (List.mem_flatMap.mpr ⟨gid, hconcerns, ?_⟩), ?_⟩
        · rw [hpart]
          exact List.mem_singleton_self part
        · rw [hconnect']
          exact (policyExportConnect_loaded hcount (.gid gid)).2.2 v (List.mem_append_right _ hv)

/-- The verdict of the broker is the strongest one that the peer may get. -/
theorem greatest_connectVerdict (hself : self ≠ -1) (hmax : systemUidMax ≠ -1) (hnodup : atConsoleUids.Nodup)
    (hcount : (configRules 2 root).length < 2635249153387078802) {registry : PolicyRegistry}
    (himport : policyRegistryImport .new (policyExport systemUidMax (launcherLoadPolicy self root) atConsoleUids) =
      some registry) (uid : UInt32) (gids : List UInt32) :
    Greatest PolicyVerdict.rank (filedVerdicts self systemUidMax atConsoleUids uid gids root)
      (pick PolicyVerdict.rank .init ((policySnapshotNew registry uid gids).map (·.connectVerdict))) := by
  obtain ⟨groups, hholds, hperm, hgroups⟩ := (holds_policyRegistryImport himport).snapshot uid gids
  -- the parts that went into one batch have the same verdict
  have hsame (group : List PolicyDumpBatch) (hgroup : group ∈ groups) (part : PolicyDumpBatch) (hpart : part ∈ group) :
      (group.getLast?.map (·.connect)).getD .init = part.connect := by
    have hsingle {only : PolicyDumpBatch} (h : group = [only]) :
        (group.getLast?.map (·.connect)).getD .init = part.connect := by
      rw [h] at hpart ⊢
      rw [List.mem_singleton.mp hpart]
      rfl
    rcases hgroups group hgroup with huser | ⟨gid, -, hgid⟩ | hrange
    · obtain ⟨user, huser', -⟩ := @userBatches_loaded self root systemUidMax atConsoleUids hself uid
      exact hsingle (huser.trans huser')
    · rcases gidBatches_loaded self root systemUidMax atConsoleUids gid with ⟨hnil, -⟩ | ⟨only, honly, -⟩
      · rw [hgid, hnil] at hpart
        exact absurd hpart List.not_mem_nil
      · exact hsingle (hgid.trans honly)
    · rw [connect_of_mem_rangeBatches hmax hnodup (hrange part hpart),
        List.getLast?_eq_getLast_of_ne_nil (List.ne_nil_of_mem hpart)]
      exact connect_of_mem_rangeBatches hmax hnodup (hrange _ (List.getLast_mem _))
  have hfrom : ∀ x ∈ (policySnapshotNew registry uid gids).map (·.connectVerdict),
      PolicyVerdict.rank .init < PolicyVerdict.rank x →
      x ∈ filedVerdicts self systemUidMax atConsoleUids uid gids root := by
    intro x hx hstrong
    obtain ⟨batch, hbatch, rfl⟩ := List.mem_map.mp hx
    obtain ⟨group, hgroup, hholdsBatch⟩ := exists_group_of_mem hholds hbatch
    rw [hholdsBatch.connect] at hstrong ⊢
    cases hlast : group.getLast? with
    | none =>
      rw [hlast] at hstrong
      exact absurd hstrong (lt_irrefl _)
    | some part =>
      have hpart := List.mem_of_getLast? hlast
      rw [← hlast, hsame group hgroup part hpart]
      exact connect_mem_filedVerdicts hself hmax hnodup hcount
        (hperm.mem_iff.mp (List.mem_flatten.mpr ⟨group, hgroup, hpart⟩))
  have hto : ∀ y ∈ filedVerdicts self systemUidMax atConsoleUids uid gids root,
      PolicyVerdict.rank .init < PolicyVerdict.rank y →
      ∃ x ∈ (policySnapshotNew registry uid gids).map (·.connectVerdict), PolicyVerdict.rank y ≤ PolicyVerdict.rank x := by
    intro y hy _
    obtain ⟨part, hpart, hle⟩ := exists_connect_ge hself hcount hy
    obtain ⟨group, hgroup, hpart⟩ := List.mem_flatten.mp (hperm.mem_iff.mpr hpart)
    obtain ⟨batch, hbatch, hholdsBatch⟩ := exists_batch_of_group hholds hgroup
    refine ⟨batch.connectVerdict, List.mem_map_of_mem hbatch, ?_⟩
    rw [hholdsBatch.connect, hsame group hgroup part hpart]
    exact hle
  rcases pick_dominates hfrom hto with ⟨-, hweak⟩ | ⟨hgreatest, -⟩
  · exact absurd (hweak ⟨false, 1⟩ List.mem_cons_self) (by decide)
  · exact hgreatest

/-- The connect rules among some are in the order of the configuration. -/
theorem pairwise_before_filter (hcount : (configRules 2 root).length < 2635249153387078802) (p : PolicyRule → Bool) :
    ((connectRules root).filter p).Pairwise PolicyRule.Before :=
  ((pairwise_before_configRules root hcount).filter _).filter _

/-- The verdict of the broker is that of the rules as they are filed. -/
theorem policySnapshotCheckConnect_filed (hself : self ≠ -1) (hmax : systemUidMax ≠ -1) (hnodup : atConsoleUids.Nodup)
    (hcount : (configRules 2 root).length < 2635249153387078802) {registry : PolicyRegistry}
    (himport : policyRegistryImport .new (policyExport systemUidMax (launcherLoadPolicy self root) atConsoleUids) =
      some registry) (uid : UInt32) (gids : List UInt32) :
    policySnapshotCheckConnect (policySnapshotNew registry uid gids) = .success ↔
      connectVerdict self uid (filedConnectRules systemUidMax atConsoleUids uid gids root) = true := by
  have hgreatest := greatest_connectVerdict hself hmax hnodup hcount himport uid gids
  have hcheck : policySnapshotCheckConnect (policySnapshotNew registry uid gids) =
      policyResult (pick PolicyVerdict.rank .init ((policySnapshotNew registry uid gids).map (·.connectVerdict))) := by
    unfold policySnapshotCheckConnect pick
    rw [List.foldl_map]
    simp only [compete_rank]
  rw [hcheck, policyResult_eq_success_iff]
  generalize pick PolicyVerdict.rank .init _ = winner at hgreatest
  obtain ⟨hmem, hle⟩ := hgreatest
  -- a rule that is filed is the one for the launcher or a connect rule of the configuration
  have hrule : winner = ⟨false, 1⟩ ∨ (winner = ⟨true, 2⟩ ∧ uid = self) ∨
      ∃ rule ∈ filedConnectRules systemUidMax atConsoleUids uid gids root, rule.record.verdict = winner := by
    rcases List.mem_cons.mp hmem with heq | hin
    · exact .inl heq
    · obtain ⟨rule, hrule, hconnect⟩ := List.mem_filterMap.mp hin
      obtain ⟨hrule, hfiled⟩ := List.mem_filter.mp hrule
      rcases List.mem_cons.mp hrule with rfl | hrule
      · obtain ⟨place, hplace, hconcerns⟩ := of_decide_eq_true hfiled
        obtain rfl : place = .uid self := (Option.some.inj hplace).symm
        exact .inr (.inl ⟨(Option.some.inj hconnect).symm, Eq.symm hconcerns⟩)
      · have hin : rule ∈ connectRules root := List.mem_filter.mpr ⟨hrule, by rw [hconnect]; rfl⟩
        exact .inr (.inr ⟨rule, List.mem_filter.mpr ⟨hin, hfiled⟩, verdict_of_connect hconnect⟩)
  have hself : uid = self → PolicyVerdict.rank ⟨true, 2⟩ ≤ winner.rank := by
    rintro rfl
    refine hle _ (List.mem_cons_of_mem _ (List.mem_filterMap.mpr ⟨selfRule uid, ?_, rfl⟩))
    exact List.mem_filter.mpr ⟨List.mem_cons_self, decide_eq_true ⟨.uid uid, rfl, rfl⟩⟩
  have hfiled (rule : PolicyRule) (hrule : rule ∈ filedConnectRules systemUidMax atConsoleUids uid gids root) :
      3 ≤ rule.rank ∧ rule.rank ≤ winner.rank ∧ rule ∈ configRules 2 root := by
    obtain ⟨hconnect, hfor⟩ := List.mem_filter.mp hrule
    obtain ⟨hconfig, hkind⟩ := List.mem_filter.mp hconnect
    obtain ⟨v, hv⟩ := Option.isSome_iff_exists.mp hkind
    refine ⟨three_le_rank hcount hconfig, hle _ (List.mem_cons_of_mem _ (List.mem_filterMap.mpr ⟨rule, ?_, ?_⟩)), hconfig⟩
    · exact List.mem_filter.mpr ⟨List.mem_cons_of_mem _ hconfig, hfor⟩
    · rw [hv, ← verdict_of_connect hv]
  have hpairwise : (filedConnectRules systemUidMax atConsoleUids uid gids root).Pairwise PolicyRule.Before :=
    pairwise_before_filter hcount _
  have hsmall : PolicyVerdict.rank ⟨false, 1⟩ = 1 ∧ PolicyVerdict.rank ⟨true, 2⟩ = 2 := ⟨rfl, rfl⟩
  unfold connectVerdict
  cases hstrongest : strongestRule (filedConnectRules systemUidMax atConsoleUids uid gids root) with
  | none =>
    rw [strongestRule_eq_none_iff hpairwise] at hstrongest
    rw [hstrongest] at hrule
    rcases hrule with rfl | ⟨rfl, hyes⟩ | ⟨rule, hrule, -⟩
    · refine iff_of_false (by simp) fun hyes => ?_
      have := hself (of_decide_eq_true hyes)
      omega
    · exact iff_of_true rfl (decide_eq_true hyes)
    · exact absurd hrule List.not_mem_nil
  | some best =>
    obtain ⟨hbest, hbestLe⟩ := (strongestRule_eq_some_iff hpairwise best).mp hstrongest
    obtain ⟨hthree, hwinner, hconfig⟩ := hfiled best hbest
    rcases hrule with rfl | ⟨rfl, -⟩ | ⟨rule, hrule, heq⟩
    · omega
    · omega
    · have hrank : rule.rank = best.rank :=
        le_antisymm (hbestLe rule hrule) (hwinner.trans (by rw [← heq]; exact le_refl _))
      rw [← heq, eq_of_rank_eq (pairwise_before_configRules root hcount) (hfiled rule hrule).2.2 hconfig hrank]

/-- What is filed wrongly does no harm to a peer: if the rule of the highest precedence among those that are meant
for the peer or filed for it is only the one or the other, then the others say the same. -/
structure ConnectHarmless (launcherUid systemUidMax : UInt32) (atConsoleUids : List UInt32) (uid : UInt32) (gids : List UInt32)
    (root : List ConfigNode) : Prop where
  filed : ∀ rule, strongestRule ((connectRules root).filter fun rule =>
      decide (rule.Concerns systemUidMax atConsoleUids uid gids ∨ rule.FiledFor systemUidMax atConsoleUids uid gids)) =
        some rule → ¬rule.Concerns systemUidMax atConsoleUids uid gids →
    rule.record.verdict.verdict =
      connectVerdict launcherUid uid (applicableConnectRules systemUidMax atConsoleUids uid gids root)
  missed : ∀ rule, strongestRule ((connectRules root).filter fun rule =>
      decide (rule.Concerns systemUidMax atConsoleUids uid gids ∨ rule.FiledFor systemUidMax atConsoleUids uid gids)) =
        some rule → ¬rule.FiledFor systemUidMax atConsoleUids uid gids →
    rule.record.verdict.verdict = connectVerdict launcherUid uid (filedConnectRules systemUidMax atConsoleUids uid gids root)

/-- The strongest rule of a list is that of a part of it that it belongs to. -/
theorem strongestRule_filter {rules : List PolicyRule} (h : rules.Pairwise PolicyRule.Before) {p q : PolicyRule → Bool}
    (hpq : ∀ rule, q rule = true → p rule = true) {best : PolicyRule}
    (hbest : strongestRule (rules.filter p) = some best) (hq : q best = true) :
    strongestRule (rules.filter q) = some best := by
  obtain ⟨hmem, hle⟩ := (strongestRule_eq_some_iff (h.filter p) best).mp hbest
  refine (strongestRule_eq_some_iff (h.filter q) best).mpr ⟨?_, fun rule hrule => ?_⟩
  · exact List.mem_filter.mpr ⟨List.mem_of_mem_filter hmem, hq⟩
  · obtain ⟨hrule, hq⟩ := List.mem_filter.mp hrule
    exact hle rule (List.mem_filter.mpr ⟨hrule, hpq rule hq⟩)

/-- Whoever connects is judged by the rule of the highest precedence that is meant for it, if and only if no rule
that is filed wrongly interferes. -/
theorem policySnapshotCheckConnect_exact_iff (hself : self ≠ -1) (hmax : systemUidMax ≠ -1) (hnodup : atConsoleUids.Nodup)
    (hcount : (configRules 2 root).length < (uint64Max / configPolicyN).toNat) :
    ∃ registry, policyRegistryImport .new (policyExport systemUidMax (launcherLoadPolicy self root) atConsoleUids) =
        some registry ∧
      ∀ (uid : UInt32) (gids : List UInt32),
        (policySnapshotCheckConnect (policySnapshotNew registry uid gids) = .success ↔
            connectVerdict self uid (applicableConnectRules systemUidMax atConsoleUids uid gids root) = true) ↔
          ConnectHarmless self systemUidMax atConsoleUids uid gids root := by
  rw [toNat_share] at hcount
  obtain ⟨registry, hregistry⟩ := exists_policyRegistryImport_policyExport systemUidMax self root atConsoleUids
  refine ⟨registry, hregistry, fun uid gids => ?_⟩
  rw [policySnapshotCheckConnect_filed hself hmax hnodup hcount hregistry uid gids, Bool.eq_iff_iff.symm]
  have hpairwise : (connectRules root).Pairwise PolicyRule.Before := (pairwise_before_configRules root hcount).filter _
  cases hstrongest : strongestRule ((connectRules root).filter fun rule =>
      decide (rule.Concerns systemUidMax atConsoleUids uid gids ∨ rule.FiledFor systemUidMax atConsoleUids uid gids)) with
  | none =>
    have hnil := List.filter_eq_nil_iff.mp ((strongestRule_eq_none_iff (hpairwise.filter _)).mp hstrongest)
    have happlicable : applicableConnectRules systemUidMax atConsoleUids uid gids root = [] :=
      List.filter_eq_nil_iff.mpr fun rule hrule hconcerns =>
        hnil rule hrule (decide_eq_true (.inl (of_decide_eq_true hconcerns)))
    have hfiled : filedConnectRules systemUidMax atConsoleUids uid gids root = [] :=
      List.filter_eq_nil_iff.mpr fun rule hrule hfor => hnil rule hrule (decide_eq_true (.inr (of_decide_eq_true hfor)))
    rw [happlicable, hfiled]
    refine iff_of_true rfl ⟨fun rule hrule => ?_, fun rule hrule => ?_⟩
    · rw [hstrongest] at hrule
      cases hrule
    · rw [hstrongest] at hrule
      cases hrule
  | some best =>
    have hconcerns (h : best.Concerns systemUidMax atConsoleUids uid gids) :
        connectVerdict self uid (applicableConnectRules systemUidMax atConsoleUids uid gids root) =
          best.record.verdict.verdict := by
      have hbest := strongestRule_filter hpairwise (q := fun rule =>
        decide (rule.Concerns systemUidMax atConsoleUids uid gids)) (fun rule hrule =>
          decide_eq_true (.inl (of_decide_eq_true hrule))) hstrongest (decide_eq_true h)
      rw [connectVerdict, applicableConnectRules, hbest]
    have hfor (h : best.FiledFor systemUidMax atConsoleUids uid gids) :
        connectVerdict self uid (filedConnectRules systemUidMax atConsoleUids uid gids root) =
          best.record.verdict.verdict := by
      have hbest := strongestRule_filter hpairwise (q := fun rule =>
        decide (rule.FiledFor systemUidMax atConsoleUids uid gids)) (fun rule hrule =>
          decide_eq_true (.inr (of_decide_eq_true hrule))) hstrongest (decide_eq_true h)
      rw [connectVerdict, filedConnectRules, hbest]
    by_cases hmeant : best.Concerns systemUidMax atConsoleUids uid gids
    · rw [hconcerns hmeant]
      refine ⟨fun h => ⟨fun rule hrule hnot => ?_, fun rule hrule _ => ?_⟩, fun h => ?_⟩
      · obtain rfl := Option.some.inj (hstrongest.symm.trans hrule)
        exact absurd hmeant hnot
      · obtain rfl := Option.some.inj (hstrongest.symm.trans hrule)
        exact h.symm
      · by_cases hfiled : best.FiledFor systemUidMax atConsoleUids uid gids
        · exact hfor hfiled
        · exact (h.missed best hstrongest hfiled).symm
    · have hfiled : best.FiledFor systemUidMax atConsoleUids uid gids := by
        have hmem := ((strongestRule_eq_some_iff (hpairwise.filter _) best).mp hstrongest).mem
        exact (of_decide_eq_true (List.mem_filter.mp hmem).2 : _ ∨ _).resolve_left hmeant
      rw [hfor hfiled]
      refine ⟨fun h => ⟨fun rule hrule _ => ?_, fun rule hrule hnot => ?_⟩, fun h => h.filed best hstrongest hmeant⟩
      · obtain rfl := Option.some.inj (hstrongest.symm.trans hrule)
        exact h
      · obtain rfl := Option.some.inj (hstrongest.symm.trans hrule)
        exact absurd hfiled hnot

end

/-- A configuration that lets the members of a group connect. -/
def exampleGroupRoot : List ConfigNode :=
  [.allowDeny true (some ⟨.default, 0⟩) { group := true, gid := 10 }]

/-- The rule of this configuration. -/
def exampleGroupRule : PolicyRule := ⟨.default, some (.gid 10), some (.gid 0), .connect ⟨true, uint64Max / 7 + 3⟩⟩

/-- A member of the group that is a member of the group 0 as well may connect, as it is meant. -/
theorem policySnapshotCheckConnect_example :
    ∃ registry, policyRegistryImport .new (policyExport 999 (launcherLoadPolicy 0 exampleGroupRoot) []) = some registry ∧
      policySnapshotCheckConnect (policySnapshotNew registry 1000 [10, 0]) = .success := by
  obtain ⟨registry, hregistry, hexact⟩ :=
    @policySnapshotCheckConnect_exact_iff 0 exampleGroupRoot 999 [] (by decide) (by decide) List.nodup_nil (by decide)
  have hstrongest : strongestRule ((connectRules exampleGroupRoot).filter fun rule =>
      decide (rule.Concerns 999 [] 1000 [10, 0] ∨ rule.FiledFor 999 [] 1000 [10, 0])) = some exampleGroupRule := by decide
  have hharmless : ConnectHarmless 0 999 [] 1000 [10, 0] exampleGroupRoot := by
    refine ⟨fun rule hrule hnot => ?_, fun rule hrule hnot => ?_⟩
    · obtain rfl := Option.some.inj (hstrongest.symm.trans hrule)
      exact absurd (by decide) hnot
    · obtain rfl := Option.some.inj (hstrongest.symm.trans hrule)
      exact absurd (by decide) hnot
  exact ⟨registry, hregistry, ((hexact 1000 [10, 0]).mpr hharmless).mpr (by decide)⟩

/-- A member of the group is denied, though the rule allows it. -/
theorem policySnapshotCheckConnect_not_exact :
    ∃ registry, policyRegistryImport .new (policyExport 999 (launcherLoadPolicy 0 exampleGroupRoot) []) = some registry ∧
      policySnapshotCheckConnect (policySnapshotNew registry 1000 [10]) ≠ .success ∧
      connectVerdict 0 1000 (applicableConnectRules 999 [] 1000 [10] exampleGroupRoot) = true := by
  obtain ⟨registry, hregistry⟩ := exists_policyRegistryImport_policyExport 999 0 exampleGroupRoot []
  refine ⟨registry, hregistry, fun hsuccess => ?_, by decide⟩
  have hfiled := (policySnapshotCheckConnect_filed (by decide) (by decide) List.nodup_nil (by decide) hregistry 1000 [10]
    ).mp hsuccess
  exact absurd hfiled (by decide)

end DbusBroker.Launch
