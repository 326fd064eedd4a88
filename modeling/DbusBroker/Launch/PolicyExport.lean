import DbusBroker.Launch.PolicyRules

/-!
# What a peer gets of an exported policy

The parts of the policy message that concern a peer: one with the records for everyone and those
for its user, one with those for its side of the console, and one for each of its groups. The
ranges of users that the launcher writes contain every user exactly once.
-/

namespace DbusBroker.Launch

/-- Keeping the stronger of two records over a list ends with the strongest of all. -/
theorem exists_foldl_stronger (pick : Option PolicyVerdict → PolicyVerdict → Option PolicyVerdict)
    (hpick : ∀ top record, pick (some top) record = if top.priority < record.priority then some record else some top)
    (list : List PolicyVerdict) (top : PolicyVerdict) :
    ∃ best ∈ top :: list, list.foldl pick (some top) = some best ∧ ∀ record ∈ top :: list, record.rank ≤ best.rank := by
  induction list generalizing top with
  | nil => exact ⟨top, List.mem_cons_self, rfl, fun record hrecord => by simp_all⟩
  | cons record rest ih =>
    rw [List.foldl_cons, hpick]
    by_cases hlt : top.priority < record.priority
    · obtain ⟨best, hbest, hfold, hle⟩ := ih record
      rw [if_pos hlt]
      refine ⟨best, List.mem_cons_of_mem top hbest, hfold, fun other hother => ?_⟩
      rcases List.mem_cons.mp hother with rfl | hother
      · exact (UInt64.lt_iff_toNat_lt.mp hlt).le.trans (hle record List.mem_cons_self)
      · exact hle other hother
    · obtain ⟨best, hbest, hfold, hle⟩ := ih top
      rw [if_neg hlt]
      refine ⟨best, ?_, hfold, fun other hother => ?_⟩
      · rcases List.mem_cons.mp hbest with rfl | hbest
        · exact List.mem_cons_self
        · exact List.mem_cons_of_mem _ (List.mem_cons_of_mem _ hbest)
      · rcases List.mem_cons.mp hother with rfl | hother
        · exact hle other List.mem_cons_self
        rcases List.mem_cons.mp hother with rfl | hother
        · exact (not_lt.mp fun h => hlt (UInt64.lt_iff_toNat_lt.mpr h)).trans (hle top List.mem_cons_self)
        · exact hle other (List.mem_cons_of_mem top hother)

/-- The top of a list is one of its strongest records, and there is none only in an empty list. -/
theorem policyListFindTop_spec (list : List PolicyVerdict) :
    (policyListFindTop list = none ∧ list = []) ∨
      ∃ top ∈ list, policyListFindTop list = some top ∧ ∀ record ∈ list, record.rank ≤ top.rank := by
  cases list with
  | nil => exact .inl ⟨rfl, rfl⟩
  | cons record rest => exact .inr (exists_foldl_stronger _ (fun _ _ => rfl) rest record)

/-- The entries at a place once the policy is optimized. -/
def Policy.optimizedAt (policy : Policy) (place : PolicyPlace) : PolicyEntries :=
  policyOptimizeNode (policyListFindTop policy.defaultEntries.connectList) (policy.entriesAt place)

/-- Optimizing changes the connect records only. -/
@[simp] theorem policyOptimizeNode_lists (top : Option PolicyVerdict) (entries : PolicyEntries) :
    (policyOptimizeNode top entries).ownList = entries.ownList ∧
      (policyOptimizeNode top entries).sendList = entries.sendList ∧
      (policyOptimizeNode top entries).recvList = entries.recvList :=
  ⟨rfl, rfl, rfl⟩

/-- At most one connect record is left of a node. -/
theorem length_policyOptimizeNode (top : Option PolicyVerdict) (entries : PolicyEntries) :
    (policyOptimizeNode top entries).connectList.length ≤ 1 := by
  have hlength (record : Option PolicyVerdict) : record.toList.length ≤ 1 := by cases record <;> simp
  exact hlength _

/-- Nothing is left where there was nothing. -/
theorem policyOptimizeNode_null (top : Option PolicyVerdict) : policyOptimizeNode top .null = .null := by
  cases top <;> rfl

/-- Entries without records are those of a new node. -/
theorem PolicyEntries.eq_null_of_isEmpty {entries : PolicyEntries} (h : entries.isEmpty = true) : entries = .null := by
  obtain ⟨connectList, ownList, sendList, recvList⟩ := entries
  simp only [isEmpty, Bool.and_eq_true, List.isEmpty_iff] at h
  obtain ⟨⟨⟨rfl, rfl⟩, rfl⟩, rfl⟩ := h
  rfl

/-- An optimized node is kept exactly when it has records. -/
theorem find?_optimized (tree : PolicyNodeTree) (top : Option PolicyVerdict) (id : UInt32) :
    ((tree.mapValues (policyOptimizeNode top)).filterValues (!·.isEmpty)).find? id =
      let entries := policyOptimizeNode top ((tree.find? id).getD .null)
      if entries.isEmpty then none else some entries := by
  rw [SearchTree.find?_filterValues, SearchTree.find?_mapValues]
  cases tree.find? id with
  | none =>
    simp only [Option.map_none, Option.filter_none, Option.getD_none, policyOptimizeNode_null]
    rfl
  | some entries =>
    simp only [Option.map_some, Option.getD_some, Option.filter_some]
    cases (policyOptimizeNode top entries).isEmpty <;> rfl

/-- The nodes of an optimized policy. -/
theorem find?_policyOptimize (policy : Policy) :
    (∀ uid, (policyOptimize policy).uidTree.find? uid =
      if (policy.optimizedAt (.uid uid)).isEmpty then none else some (policy.optimizedAt (.uid uid))) ∧
    ∀ gid, (policyOptimize policy).gidTree.find? gid =
      if (policy.optimizedAt (.gid gid)).isEmpty then none else some (policy.optimizedAt (.gid gid)) :=
  ⟨fun uid => find?_optimized policy.uidTree _ uid, fun gid => find?_optimized policy.gidTree _ gid⟩

/-- What is written for entries, if there are any. -/
def consoleBatch (entries : PolicyEntries) : List PolicyDumpBatch :=
  if entries.isEmpty then [] else [policyExportBatch none none (some entries)]

/-- The parts among some that are for a range with a user in it. -/
def rangeParts (ranges : List (Bool × UInt32 × UInt32 × PolicyDumpBatch)) (uid : UInt32) : List PolicyDumpBatch :=
  (ranges.filter fun e => !e.1 && (e.2.1 ≤ uid && uid ≤ e.2.2.1)).map (·.2.2.2)

/-- The parts of two lists. -/
@[simp] theorem rangeParts_append (ranges others : List (Bool × UInt32 × UInt32 × PolicyDumpBatch)) (uid : UInt32) :
    rangeParts (ranges ++ others) uid = rangeParts ranges uid ++ rangeParts others uid := by
  simp [rangeParts]

/-- A range that is written has its users in it. -/
theorem rangeParts_policyExportConsole (entries : PolicyEntries) (uidStart nUid uid : UInt32)
    (h : uidStart.toNat + nUid.toNat ≤ 2 ^ 32) :
    rangeParts (policyExportConsole entries uidStart nUid) uid =
      if uidStart.toNat ≤ uid.toNat ∧ uid.toNat < uidStart.toNat + nUid.toNat then consoleBatch entries else [] := by
  unfold policyExportConsole
  by_cases hzero : nUid = 0
  · have hn : nUid.toNat = 0 := by rw [hzero]; rfl
    rw [if_pos hzero, if_neg (by omega)]
    rfl
  · have hpos : 0 < nUid.toNat := by
      rw [Nat.pos_iff_ne_zero]
      exact fun hn => hzero (UInt32.toNat_inj.mp hn)
    have hlast : (uidStart + nUid - 1).toNat = uidStart.toNat + nUid.toNat - 1 := by
      have hone : (1 : UInt32).toNat = 1 := rfl
      rw [UInt32.toNat_sub, UInt32.toNat_add, hone]
      have hlt := uidStart.toNat_lt
      omega
    rw [if_neg hzero, consoleBatch]
    by_cases hempty : entries.isEmpty
    · simp [hempty, rangeParts]
    · rw [if_neg hempty, if_neg hempty]
      simp only [rangeParts, List.filter_cons, List.filter_nil, Bool.not_false, Bool.true_and, UInt32.le_iff_toNat_le,
        hlast, Bool.and_eq_true, decide_eq_true_iff]
      by_cases hin : uidStart.toNat ≤ uid.toNat ∧ uid.toNat < uidStart.toNat + nUid.toNat
      · rw [if_pos hin, if_pos ⟨hin.1, by omega⟩]
        rfl
      · rw [if_neg hin, if_neg (fun hin' => hin ⟨hin'.1, by omega⟩)]
        rfl

/-- The ranges of the system users have every one of them exactly once. -/
theorem rangeParts_policyExportSystem (policy : Policy) {systemUidMax : UInt32} (hmax : systemUidMax.toNat + 1 < 2 ^ 32)
    {uids : List UInt32} (hsorted : uids.Pairwise (·.toNat < ·.toNat)) (hle : ∀ u ∈ uids, u.toNat ≤ systemUidMax.toNat)
    {nextUid : UInt32} (hnext : nextUid.toNat ≤ systemUidMax.toNat + 1) (hge : ∀ u ∈ uids, nextUid.toNat ≤ u.toNat)
    (uid : UInt32) :
    rangeParts (policyExportSystem systemUidMax policy nextUid uids) uid =
      if nextUid.toNat ≤ uid.toNat ∧ uid.toNat ≤ systemUidMax.toNat then
        consoleBatch (if uid ∈ uids then policy.atConsoleEntries else policy.noConsoleEntries) else [] := by
  have hone : (1 : UInt32).toNat = 1 := rfl
  induction uids generalizing nextUid with
  | nil =>
    have hcount : (systemUidMax + 1 - nextUid).toNat = systemUidMax.toNat + 1 - nextUid.toNat := by
      have hlt := nextUid.toNat_lt
      rw [UInt32.toNat_sub, UInt32.toNat_add, hone]
      omega
    rw [policyExportSystem, rangeParts_policyExportConsole _ _ _ _ (by omega), hcount]
    simp only [List.not_mem_nil, if_false]
    exact if_congr (by omega) rfl rfl
  | cons u rest ih =>
    have hu := hle u List.mem_cons_self
    have hnextu := hge u List.mem_cons_self
    obtain ⟨hlater, hsorted⟩ := List.pairwise_cons.mp hsorted
    have hcount : (u - nextUid).toNat = u.toNat - nextUid.toNat := by
      have hlt := nextUid.toNat_lt
      have hlt' := u.toNat_lt
      rw [UInt32.toNat_sub]
      omega
    have hsucc : (u + 1).toNat = u.toNat + 1 := by
      rw [UInt32.toNat_add, hone]
      omega
    have hfresh : u ∉ rest := fun hin => lt_irrefl _ (hlater u hin)
    rw [policyExportSystem, rangeParts_append, rangeParts_append, rangeParts_policyExportConsole _ _ _ _ (by omega),
      rangeParts_policyExportConsole _ _ _ _ (by omega), ih hsorted (fun w hw => hle w (List.mem_cons_of_mem u hw))
        (by omega) (fun w hw => by rw [hsucc]; exact hlater w hw), hcount, hsucc, hone]
    rcases lt_trichotomy uid.toNat u.toNat with hlt | heq | hgt
    · have hnot : uid ∉ u :: rest := by
        intro hin
        rcases List.mem_cons.mp hin with rfl | hin
        · exact lt_irrefl _ hlt
        · exact absurd (hlater uid hin) (by omega)
      rw [if_neg hnot, if_neg (by omega : ¬(u.toNat ≤ uid.toNat ∧ _)), if_neg (by omega : ¬(u.toNat + 1 ≤ uid.toNat ∧ _)),
        List.append_nil, List.append_nil]
      exact if_congr (by omega) rfl rfl
    · obtain rfl := UInt32.toNat_inj.mp heq
      rw [if_pos List.mem_cons_self, if_neg (by omega), if_pos (by omega), if_neg (by omega), if_pos (by omega),
        List.nil_append, List.append_nil]
    · have hmem : uid ∈ u :: rest ↔ uid ∈ rest := by
        rw [List.mem_cons]
        exact or_iff_right fun h => absurd hgt (by rw [h]; exact lt_irrefl _)
      rw [if_neg (by omega), if_neg (by omega), List.nil_append, List.nil_append]
      simp only [hmem]
      exact if_congr (by omega) rfl rfl

/-- The users at the console that are left are the system users among them, in order. -/
theorem policySystemConsoleUids_perm (systemUidMax : UInt32) (atConsoleUids : List UInt32) :
    (policySystemConsoleUids systemUidMax atConsoleUids).Pairwise (·.toNat ≤ ·.toNat) ∧
      (policySystemConsoleUids systemUidMax atConsoleUids).Perm
        (atConsoleUids.filter fun u => decide (u.toNat ≤ systemUidMax.toNat)) := by
  have hsorted : (atConsoleUids.mergeSort fun a b => decide (a ≤ b)).Pairwise (·.toNat ≤ ·.toNat) := by
    refine (List.pairwise_mergeSort (fun a b c hab hbc => ?_) (fun a b => ?_) atConsoleUids).imp fun {a b} hab => ?_
    · simp only [decide_eq_true_iff, UInt32.le_iff_toNat_le] at *
      omega
    · simp only [Bool.or_eq_true, decide_eq_true_iff, UInt32.le_iff_toNat_le]
      omega
    · simpa [UInt32.le_iff_toNat_le] using hab
  have hperm := List.mergeSort_perm atConsoleUids fun a b => decide (a ≤ b)
  have hdrop (l : List UInt32) (hl : l.Pairwise (·.toNat ≤ ·.toNat)) :
      (l.rdropWhile fun uid => decide (systemUidMax < uid)) = l.filter fun u => decide (u.toNat ≤ systemUidMax.toNat) := by
    induction l using List.reverseRecOn with
    | nil => rfl
    | append_singleton l u ih =>
      obtain ⟨hl, -, hlast⟩ := List.pairwise_append.mp hl
      rw [List.rdropWhile_concat, List.filter_append]
      by_cases hgt : systemUidMax < u
      · rw [if_pos (decide_eq_true hgt), ih hl]
        have hnot : ¬u.toNat ≤ systemUidMax.toNat := not_le.mpr (UInt32.lt_iff_toNat_lt.mp hgt)
        simp [hnot]
      · have hule : u.toNat ≤ systemUidMax.toNat := not_lt.mp fun hlt => hgt (UInt32.lt_iff_toNat_lt.mpr hlt)
        rw [if_neg (by simpa using hgt), List.filter_eq_self.mpr fun w hw => ?_]
        · simp [hule]
        · exact decide_eq_true ((hlast w hw u (List.mem_singleton.mpr rfl)).trans hule)
  rw [policySystemConsoleUids, hdrop _ hsorted]
  exact ⟨hsorted.filter _, hperm.filter _⟩

/-- If no user is at the console twice, those that are left are in strictly increasing order. -/
theorem policySystemConsoleUids_spec (systemUidMax : UInt32) {atConsoleUids : List UInt32}
    (h : (atConsoleUids.filter fun u => decide (u.toNat ≤ systemUidMax.toNat)).Nodup) :
    (policySystemConsoleUids systemUidMax atConsoleUids).Pairwise (·.toNat < ·.toNat) ∧
      ∀ u, u ∈ policySystemConsoleUids systemUidMax atConsoleUids ↔ u ∈ atConsoleUids ∧ u.toNat ≤ systemUidMax.toNat := by
  obtain ⟨hsorted, hperm⟩ := policySystemConsoleUids_perm systemUidMax atConsoleUids
  refine ⟨(hsorted.and (List.nodup_iff_pairwise_ne.mp (hperm.nodup_iff.mpr h))).imp fun {a b} hab => ?_, fun u => ?_⟩
  · exact lt_of_le_of_ne hab.1 fun heq => hab.2 (UInt32.toNat_inj.mp heq)
  · rw [hperm.mem_iff, List.mem_filter, decide_eq_true_iff]

/-- A user is at the console: it is said to be, or is no system user. -/
def AtConsole (systemUidMax : UInt32) (atConsoleUids : List UInt32) (uid : UInt32) : Prop :=
  systemUidMax < uid ∨ uid ∈ atConsoleUids

instance (systemUidMax : UInt32) (atConsoleUids : List UInt32) (uid : UInt32) :
    Decidable (AtConsole systemUidMax atConsoleUids uid) := inferInstanceAs (Decidable (_ ∨ _))

section

variable (policy : Policy) {systemUidMax : UInt32} {atConsoleUids : List UInt32}

/-- The parts of the ranges of users for a user: that of its side of the console. -/
theorem rangeBatches_policyExport (hmax : systemUidMax ≠ -1) (hnodup : atConsoleUids.Nodup) (uid : UInt32) :
    (policyExport systemUidMax policy atConsoleUids).rangeBatches uid =
      consoleBatch (if AtConsole systemUidMax atConsoleUids uid then policy.atConsoleEntries else
        policy.noConsoleEntries) := by
  have hlt : systemUidMax.toNat + 1 < 2 ^ 32 := by
    have hne : systemUidMax.toNat ≠ (-1 : UInt32).toNat := fun heq => hmax (UInt32.toNat_inj.mp heq)
    have hlt := systemUidMax.toNat_lt
    have hmaxval : (-1 : UInt32).toNat = 2 ^ 32 - 1 := by decide
    omega
  obtain ⟨hsorted, hmem⟩ := policySystemConsoleUids_spec systemUidMax (hnodup.filter _)
  have hone : (1 : UInt32).toNat = 1 := rfl
  have hzero : (0 : UInt32).toNat = 0 := rfl
  have hsucc : (systemUidMax + 1).toNat = systemUidMax.toNat + 1 := by
    rw [UInt32.toNat_add, hone]
    omega
  have hrest : (-1 - systemUidMax).toNat = 2 ^ 32 - 1 - systemUidMax.toNat := by
    have hmaxval : (-1 : UInt32).toNat = 2 ^ 32 - 1 := by decide
    rw [UInt32.toNat_sub, hmaxval]
    omega
  have hgids : rangeParts (policy.gidTree.entries.map fun node =>
      (true, node.1, node.1, policyExportBatch (some policy.defaultEntries) none (some node.2))) uid = [] := by
    simp [rangeParts, List.filter_map, Function.comp_def]
  show rangeParts (_ ++ _ ++ _) uid = _
  rw [rangeParts_append, rangeParts_append, hgids, List.nil_append,
    rangeParts_policyExportSystem policy hlt hsorted (fun u hu => ((hmem u).mp hu).2) (by omega) (fun u _ => by omega),
    rangeParts_policyExportConsole _ _ _ _ (by omega), hsucc, hrest, hzero]
  have hconsole : AtConsole systemUidMax atConsoleUids uid ↔ systemUidMax.toNat < uid.toNat ∨ uid ∈ atConsoleUids :=
    or_congr_left UInt32.lt_iff_toNat_lt
  have huid := uid.toNat_lt
  by_cases hsystem : uid.toNat ≤ systemUidMax.toNat
  · have hnot : ¬(systemUidMax.toNat + 1 ≤ uid.toNat ∧
        uid.toNat < systemUidMax.toNat + 1 + (2 ^ 32 - 1 - systemUidMax.toNat)) := fun h => by omega
    rw [if_pos ⟨Nat.zero_le _, hsystem⟩, if_neg hnot, List.append_nil]
    refine congrArg consoleBatch (if_congr ?_ rfl rfl)
    rw [hmem, and_iff_left hsystem, hconsole, or_iff_right (by omega)]
  · have hin : systemUidMax.toNat + 1 ≤ uid.toNat ∧
        uid.toNat < systemUidMax.toNat + 1 + (2 ^ 32 - 1 - systemUidMax.toNat) := by omega
    rw [if_neg fun h => hsystem h.2, if_pos hin, if_pos (hconsole.mpr (.inl (by omega))), List.nil_append]

variable (systemUidMax atConsoleUids) in
/-- The part for the user of a peer: the records for everyone, then those of the user. -/
theorem userBatches_policyExport (hroot : policy.uidTree.find? (-1) = none) (uid : UInt32) :
    (policyExport systemUidMax policy atConsoleUids).userBatches uid =
      [policyExportBatch (some policy.defaultEntries) (some policy.defaultEntries) (policy.uidTree.find? uid)] := by
  have hnodes (uid : UInt32) :
      (policyExport systemUidMax policy atConsoleUids).uidBatches uid =
        (if uid = -1 then [policyExportBatch (some policy.defaultEntries) (some policy.defaultEntries) none] else []) ++
          ((policy.uidTree.find? uid).map fun entries =>
            policyExportBatch (some policy.defaultEntries) (some policy.defaultEntries) (some entries)).toList := by
    simp only [PolicyDump.uidBatches, policyExport, List.filter_cons, List.filter_map, Function.comp_def,
      SearchTree.filter_key_entries]
    by_cases huid : uid = -1
    · simp [huid, hroot]
    · cases policy.uidTree.find? uid <;> simp [huid, Ne.symm huid]
  rw [PolicyDump.userBatches, hnodes, hnodes, if_pos rfl, hroot]
  by_cases huid : uid = -1
  · simp [huid, hroot]
  · cases policy.uidTree.find? uid <;> simp [huid]

variable (systemUidMax atConsoleUids) in
/-- The part for a group. -/
theorem gidBatches_policyExport (gid : UInt32) :
    (policyExport systemUidMax policy atConsoleUids).gidBatches gid =
      ((policy.gidTree.find? gid).map fun entries =>
        policyExportBatch (some policy.defaultEntries) none (some entries)).toList := by
  have hconsole (entries : PolicyEntries) (uidStart nUid : UInt32) :
      ∀ e ∈ policyExportConsole entries uidStart nUid, e.1 = false := by
    intro e he
    unfold policyExportConsole at he
    split_ifs at he
    · exact absurd he List.not_mem_nil
    · exact absurd he List.not_mem_nil
    · rw [List.mem_singleton.mp he]
  have hsystem (uids : List UInt32) (nextUid : UInt32) :
      ∀ e ∈ policyExportSystem systemUidMax policy nextUid uids, e.1 = false := by
    induction uids generalizing nextUid with
    | nil => exact hconsole _ _ _
    | cons u rest ih =>
      intro e he
      rw [policyExportSystem, List.mem_append, List.mem_append] at he
      rcases he with (he | he) | he
      · exact hconsole _ _ _ e he
      · exact hconsole _ _ _ e he
      · exact ih _ e he
  have hnone {ranges : List (Bool × UInt32 × UInt32 × PolicyDumpBatch)} (h : ∀ e ∈ ranges, e.1 = false) :
      (ranges.filter fun e => e.1 && decide (e.2.1 = gid)) = [] :=
    List.filter_eq_nil_iff.mpr fun e he => by simp [h e he]
  simp only [PolicyDump.gidBatches, policyExport, List.filter_append, hnone (hsystem _ _), hnone (hconsole _ _ _),
    List.append_nil, List.filter_map, Function.comp_def, Bool.true_and, SearchTree.filter_key_entries]
  cases policy.gidTree.find? gid <;> simp

end

end DbusBroker.Launch
