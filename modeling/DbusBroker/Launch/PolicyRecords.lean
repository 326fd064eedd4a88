import DbusBroker.Launch.PolicyExport
import DbusBroker.Bus.PolicyOwn

/-!
# Which records reach a peer

From the configuration through the launcher and the policy message to the snapshot of a peer in
the broker: the own, send and receive records of the snapshot are exactly those of the accepted
rules that are meant for the peer.
-/

namespace DbusBroker.Launch

open Strongest

/-- A place concerns a peer with a user and groups. -/
def PolicyPlace.Concerns (systemUidMax : UInt32) (atConsoleUids : List UInt32) (uid : UInt32) (gids : List UInt32) :
    PolicyPlace → Prop
  | .everyone => True
  | .atConsole => AtConsole systemUidMax atConsoleUids uid
  | .noConsole => ¬AtConsole systemUidMax atConsoleUids uid
  | .uid u => u = uid
  | .gid g => g ∈ gids

instance (systemUidMax : UInt32) (atConsoleUids : List UInt32) (uid : UInt32) (gids : List UInt32) (place : PolicyPlace) :
    Decidable (place.Concerns systemUidMax atConsoleUids uid gids) := by
  cases place <;> unfold PolicyPlace.Concerns <;> infer_instance

/-- The places that concern a peer, one by one. -/
def peerPlaces (systemUidMax : UInt32) (atConsoleUids : List UInt32) (uid : UInt32) (gids : List UInt32) :
    List PolicyPlace :=
  [.everyone, .uid uid, if AtConsole systemUidMax atConsoleUids uid then .atConsole else .noConsole] ++ gids.map .gid

section

variable {systemUidMax : UInt32} {atConsoleUids : List UInt32} {uid : UInt32} {gids : List UInt32}

/-- They are the ones that concern it. -/
theorem mem_peerPlaces (place : PolicyPlace) :
    place ∈ peerPlaces systemUidMax atConsoleUids uid gids ↔ place.Concerns systemUidMax atConsoleUids uid gids := by
  unfold peerPlaces PolicyPlace.Concerns
  by_cases h : AtConsole systemUidMax atConsoleUids uid <;> cases place <;> simp [h]

/-- None of them comes twice. -/
theorem nodup_peerPlaces (h : gids.Nodup) : (peerPlaces systemUidMax atConsoleUids uid gids).Nodup := by
  have hgids : (gids.map PolicyPlace.gid).Nodup := h.map fun _ _ hab => PolicyPlace.gid.inj hab
  unfold peerPlaces
  by_cases hconsole : AtConsole systemUidMax atConsoleUids uid <;> simp [hconsole, hgids]

end

/-- An accepted rule is meant for a peer. -/
def PolicyRule.Concerns (systemUidMax : UInt32) (atConsoleUids : List UInt32) (uid : UInt32) (gids : List UInt32)
    (rule : PolicyRule) : Prop :=
  ∃ place ∈ rule.target, place.Concerns systemUidMax atConsoleUids uid gids

instance (systemUidMax : UInt32) (atConsoleUids : List UInt32) (uid : UInt32) (gids : List UInt32) (rule : PolicyRule) :
    Decidable (rule.Concerns systemUidMax atConsoleUids uid gids) :=
  match h : rule.target with
  | none => isFalse fun ⟨_, hmem, _⟩ => by simp [h] at hmem
  | some place => decidable_of_iff (place.Concerns systemUidMax atConsoleUids uid gids) (by
      simp [PolicyRule.Concerns, h])

/-- The accepted rules of a configuration that are meant for a peer. -/
def peerRules (systemUidMax : UInt32) (atConsoleUids : List UInt32) (uid : UInt32) (gids : List UInt32)
    (root : List ConfigNode) : List PolicyRule :=
  (configRules 2 root).filter fun rule => decide (rule.Concerns systemUidMax atConsoleUids uid gids)

/-- The number of an accepted rule does not matter for whom it is meant, nor which kind it is. -/
theorem configRules_forall {P : PolicyRule → Prop} (h : ∀ i node rule, policyRule i node = some rule → P rule)
    (i : UInt64) (root : List ConfigNode) : ∀ rule ∈ configRules i root, P rule := by
  intro rule hrule
  obtain ⟨j, node, -, hnode⟩ := exists_of_mem_configRules hrule
  exact h j node rule hnode

/-- A rule that is no connect rule is filed with those that it is meant for, and its record can be imported. -/
theorem policyRule_spec {i : UInt64} {node : ConfigNode} {rule : PolicyRule} (h : policyRule i node = some rule) :
    (rule.connect? = none → rule.target = rule.place) ∧
      ∀ record, rule.send? = some record ∨ rule.recv? = some record → record.broadcast < utilTristateN := by
  have htristate (t : UtilTristate) : t.number < utilTristateN := by cases t <;> decide
  cases node with
  | other => cases h
  | allowDeny isAllow parent attributes =>
    cases parent with
    | none => cases h
    | some parent =>
      simp only [policyRule] at h
      split_ifs at h
      all_goals obtain rfl := Option.some.inj h
      · exact ⟨fun hnone => by simp [PolicyRule.connect?] at hnone, by simp [PolicyRule.send?, PolicyRule.recv?]⟩
      · exact ⟨fun _ => rfl, by simp [PolicyRule.send?, PolicyRule.recv?]⟩
      · exact ⟨fun _ => rfl, by simp [PolicyRule.send?, PolicyRule.recv?, policySendRecord, htristate]⟩
      · exact ⟨fun _ => rfl, by simp [PolicyRule.send?, PolicyRule.recv?, policyRecvRecord, utilTristateN]⟩

section

variable {β : Type} {sel : PolicyDumpBatch → List β} {src : PolicyEntries → List β} {kind : PolicyRule → Option β}

/-- A list of a batch of the message is written from a list of entries. -/
structure Exports (sel : PolicyDumpBatch → List β) (src : PolicyEntries → List β) (kind : PolicyRule → Option β) :
    Prop where
  written : ∀ connect first entries,
    sel (policyExportBatch connect first entries) = (first.map src).getD [] ++ (entries.map src).getD []
  optimized : ∀ (entries : PolicyEntries) connectList, src { entries with connectList := connectList } = src entries
  null : src .null = []
  rules : ∀ rules, src (.ofRules rules) = rules.filterMap kind

/-- The own records are written. -/
theorem exports_own : Exports (·.own) (·.ownList) (·.own?) where
  written _ _ _ := rfl
  optimized _ _ := rfl
  null := rfl
  rules _ := rfl

/-- The send records are written. -/
theorem exports_send :
    Exports (·.send) (fun entries => entries.sendList.map policyExportXmitRecord)
      fun rule => rule.send?.map policyExportXmitRecord where
  written _ first entries := by cases first <;> cases entries <;> simp [policyExportBatch, policyExportXmit]
  optimized _ _ := rfl
  null := rfl
  rules rules := by rw [PolicyEntries.ofRules, List.map_filterMap]

/-- The receive records are written. -/
theorem exports_recv :
    Exports (·.recv) (fun entries => entries.recvList.map policyExportXmitRecord)
      fun rule => rule.recv?.map policyExportXmitRecord where
  written _ first entries := by cases first <;> cases entries <;> simp [policyExportBatch, policyExportXmit]
  optimized _ _ := rfl
  null := rfl
  rules rules := by rw [PolicyEntries.ofRules, List.map_filterMap]

/-- The part for one side of the console has the records of its entries. -/
theorem Exports.console (h : Exports sel src kind) (entries : PolicyEntries) :
    (consoleBatch entries).flatMap sel = src entries := by
  unfold consoleBatch
  by_cases hempty : entries.isEmpty = true
  · rw [if_pos hempty, PolicyEntries.eq_null_of_isEmpty hempty, h.null]
    rfl
  · simp [hempty, h.written]

/-- A node that is written has the records of its place. -/
theorem Exports.node (h : Exports sel src kind) (policy : Policy) (place : PolicyPlace) :
    ((if (policy.optimizedAt place).isEmpty then none else some (policy.optimizedAt place)).map src).getD [] =
      src (policy.entriesAt place) := by
  have hsame : src (policy.optimizedAt place) = src (policy.entriesAt place) := h.optimized _ _
  by_cases hempty : (policy.optimizedAt place).isEmpty = true
  · rw [if_pos hempty, ← hsame, PolicyEntries.eq_null_of_isEmpty hempty, h.null]
    rfl
  · rw [if_neg hempty, ← hsame]
    rfl

variable {self : UInt32} {root : List ConfigNode} {systemUidMax : UInt32} {atConsoleUids : List UInt32}

/-- No rule is filed under the user -1, which stands for all users. -/
theorem place_ne_uid_all (hself : self ≠ -1) :
    ∀ rule ∈ importedRules self root, rule.place ≠ some (.uid (-1)) := by
  intro rule hrule
  rcases List.mem_cons.mp hrule with rfl | hrule
  · simpa [selfRule] using hself
  · refine configRules_forall (P := fun rule => rule.place ≠ some (.uid (-1))) (fun i node rule h => ?_) 2 root rule hrule
    have htarget (parent : ConfigContext) : contextTarget parent ≠ some (.uid (-1)) := by
      unfold contextTarget
      cases parent.context <;> simp
    have hconnect (attributes : ConfigAllowDeny) : connectPlace attributes ≠ .uid (-1) := by
      unfold connectPlace
      split_ifs with huser
      · simpa using huser.2
      · simp
      · simp
    cases node with
    | other => cases h
    | allowDeny isAllow parent attributes =>
      cases parent with
      | none => cases h
      | some parent =>
        simp only [policyRule] at h
        split_ifs at h
        all_goals obtain rfl := Option.some.inj h
        · simpa using hconnect attributes
        · exact htarget parent
        · exact htarget parent
        · exact htarget parent

/-- No node of the loaded policy is for the user -1. -/
theorem find?_launcherLoadPolicy_all (hself : self ≠ -1) : (launcherLoadPolicy self root).uidTree.find? (-1) = none := by
  rw [launcherLoadPolicy, (find?_policyOptimize _).1]
  have hnil : rulesAt (importedRules self root) (.uid (-1)) = [] :=
    List.filter_eq_nil_iff.mpr fun rule hrule => by simpa using place_ne_uid_all hself rule hrule
  have hnull : (policyImport self .init root).optimizedAt (.uid (-1)) = .null := by
    rw [Policy.optimizedAt, entriesAt_policyImport, hnil]
    exact policyOptimizeNode_null _
  rw [hnull]
  rfl

/-- The records in the parts of the message for a peer are those that are filed at its places. -/
theorem Exports.batches (h : Exports sel src kind) (hself : self ≠ -1) (hmax : systemUidMax ≠ -1)
    (hnodup : atConsoleUids.Nodup) (uid : UInt32) (gids : List UInt32) :
    ((policyExport systemUidMax (launcherLoadPolicy self root) atConsoleUids).batches uid gids).flatMap sel =
      ((peerPlaces systemUidMax atConsoleUids uid gids).flatMap (rulesAt (importedRules self root))).filterMap kind := by
  have hplace (place : PolicyPlace) : src ((policyImport self .init root).entriesAt place) =
      (rulesAt (importedRules self root) place).filterMap kind := by
    rw [entriesAt_policyImport, h.rules]
  have hdefault : src (launcherLoadPolicy self root).defaultEntries =
      (rulesAt (importedRules self root) .everyone).filterMap kind := (h.optimized _ _).trans (hplace .everyone)
  have huser : ((policyExport systemUidMax (launcherLoadPolicy self root) atConsoleUids).userBatches uid).flatMap sel =
      (rulesAt (importedRules self root) .everyone ++ rulesAt (importedRules self root) (.uid uid)).filterMap kind := by
    rw [userBatches_policyExport _ systemUidMax atConsoleUids (find?_launcherLoadPolicy_all hself)]
    rw [List.flatMap_singleton, h.written, Option.map_some, Option.getD_some, hdefault, List.filterMap_append,
      launcherLoadPolicy, (find?_policyOptimize _).1, h.node, hplace]
  have hconsole : ((policyExport systemUidMax (launcherLoadPolicy self root) atConsoleUids).rangeBatches uid).flatMap sel =
      (rulesAt (importedRules self root) (if AtConsole systemUidMax atConsoleUids uid then .atConsole else .noConsole)
        ).filterMap kind := by
    rw [rangeBatches_policyExport _ hmax hnodup, h.console, ← hplace]
    by_cases hat : AtConsole systemUidMax atConsoleUids uid
    · rw [if_pos hat, if_pos hat]
      rfl
    · rw [if_neg hat, if_neg hat]
      rfl
  have hgids : (gids.flatMap (policyExport systemUidMax (launcherLoadPolicy self root) atConsoleUids).gidBatches).flatMap sel =
      ((gids.map PolicyPlace.gid).flatMap (rulesAt (importedRules self root))).filterMap kind := by
    rw [List.flatMap_assoc, List.filterMap_flatMap, List.flatMap_map]
    refine congrArg (List.flatMap · gids) (funext fun gid => ?_)
    rw [gidBatches_policyExport, launcherLoadPolicy, (find?_policyOptimize _).2, ← hplace, ← h.node]
    split_ifs <;> simp [h.written]
  have hbatches : (policyExport systemUidMax (launcherLoadPolicy self root) atConsoleUids).batches uid gids =
      (policyExport systemUidMax (launcherLoadPolicy self root) atConsoleUids).userBatches uid ++
        (policyExport systemUidMax (launcherLoadPolicy self root) atConsoleUids).rangeBatches uid ++
        gids.flatMap (policyExport systemUidMax (launcherLoadPolicy self root) atConsoleUids).gidBatches := rfl
  rw [hbatches, List.flatMap_append, List.flatMap_append, huser, hconsole, hgids, peerPlaces, List.flatMap_append,
    List.filterMap_append]
  simp

/-- The records in the parts of the message for a peer are those of the rules that are meant for it. -/
theorem Exports.batches_perm (h : Exports sel src kind) (hkind : ∀ rule, (kind rule).isSome → rule.connect? = none)
    (hself : self ≠ -1) (hmax : systemUidMax ≠ -1) (hnodup : atConsoleUids.Nodup) (uid : UInt32) {gids : List UInt32}
    (hgids : gids.Nodup) :
    (((policyExport systemUidMax (launcherLoadPolicy self root) atConsoleUids).batches uid gids).flatMap sel).Perm
      ((peerRules systemUidMax atConsoleUids uid gids root).filterMap kind) := by
  rw [h.batches hself hmax hnodup]
  have hplaces : ((peerPlaces systemUidMax atConsoleUids uid gids).map some).Nodup :=
    (nodup_peerPlaces hgids).map fun _ _ hab => Option.some.inj hab
  have hperm := (flatMap_filter_perm PolicyRule.place (importedRules self root) hplaces).filterMap kind
  rw [List.flatMap_map] at hperm
  refine hperm.trans (List.Perm.of_eq ?_)
  have hselfKind : kind (selfRule self) = none := by
    by_contra hne
    have hconnect := hkind (selfRule self) (Option.isSome_iff_ne_none.mpr hne)
    simp [selfRule, PolicyRule.connect?] at hconnect
  have hdrop (p q : PolicyRule → Bool) (hpq : ∀ rule ∈ configRules 2 root, (kind rule).isSome → p rule = q rule) :
      ((importedRules self root).filter p).filterMap kind = ((configRules 2 root).filter q).filterMap kind := by
    rw [List.filterMap_filter, List.filterMap_filter, importedRules]
    have hfirst : (if p (selfRule self) = true then kind (selfRule self) else none) = none := by
      rw [hselfKind, ite_self]
    rw [List.filterMap_cons, hfirst]
    refine List.filterMap_congr fun rule hrule => ?_
    cases hk : kind rule with
    | none => simp
    | some record => rw [hpq rule hrule (by rw [hk]; rfl)]
  refine hdrop _ _ fun rule hrule hsome => ?_
  have htarget : rule.target = rule.place :=
    configRules_forall (P := fun rule => rule.connect? = none → rule.target = rule.place)
      (fun i node rule h => (policyRule_spec h).1) 2 root rule hrule (hkind rule hsome)
  have hconcerns : rule.place ∈ (peerPlaces systemUidMax atConsoleUids uid gids).map some ↔
      rule.Concerns systemUidMax atConsoleUids uid gids := by
    rw [PolicyRule.Concerns, htarget]
    simp only [List.mem_map, mem_peerPlaces, Option.mem_def]
    exact exists_congr fun place => by rw [and_comm, eq_comm]
  simp only [hconcerns]

/-- Entries whose records can be imported. -/
def PolicyEntries.Valid (entries : PolicyEntries) : Prop :=
  ∀ record ∈ entries.sendList ++ entries.recvList, record.broadcast < utilTristateN

/-- What is written of such entries can be imported. -/
theorem valid_policyExportBatch {connect first entries : Option PolicyEntries} (hfirst : ∀ e ∈ first, e.Valid)
    (hentries : ∀ e ∈ entries, e.Valid) : (policyExportBatch connect first entries).Valid := by
  have hrecords {list : PolicyEntries → List PolicyRecordXmit} {e : Option PolicyEntries} {record : PolicyRecordXmit}
      (h : record ∈ (e.map list).getD []) : ∃ entries ∈ e, record ∈ list entries := by
    cases e with
    | none => simp at h
    | some entries => exact ⟨entries, rfl, h⟩
  intro r hr
  have hmem : ∃ record, r = policyExportXmitRecord record ∧
      ((∃ e ∈ first, record ∈ e.sendList ++ e.recvList) ∨ ∃ e ∈ entries, record ∈ e.sendList ++ e.recvList) := by
    simp only [policyExportBatch, policyExportXmit, List.mem_append, List.mem_map] at hr
    rcases hr with ⟨record, hrecord | hrecord, rfl⟩ | ⟨record, hrecord | hrecord, rfl⟩
    · obtain ⟨e, he, hin⟩ := hrecords hrecord
      exact ⟨record, rfl, .inl ⟨e, he, List.mem_append_left _ hin⟩⟩
    · obtain ⟨e, he, hin⟩ := hrecords hrecord
      exact ⟨record, rfl, .inr ⟨e, he, List.mem_append_left _ hin⟩⟩
    · obtain ⟨e, he, hin⟩ := hrecords hrecord
      exact ⟨record, rfl, .inl ⟨e, he, List.mem_append_right _ hin⟩⟩
    · obtain ⟨e, he, hin⟩ := hrecords hrecord
      exact ⟨record, rfl, .inr ⟨e, he, List.mem_append_right _ hin⟩⟩
  obtain ⟨record, rfl, ⟨e, he, hin⟩ | ⟨e, he, hin⟩⟩ := hmem
  · exact hfirst e he record hin
  · exact hentries e he record hin

/-- What the launcher holds can be imported. -/
theorem valid_entriesAt (self : UInt32) (root : List ConfigNode) (place : PolicyPlace) :
    ((policyImport self .init root).entriesAt place).Valid := by
  rw [entriesAt_policyImport]
  intro record hrecord
  simp only [PolicyEntries.ofRules, List.mem_append, List.mem_filterMap] at hrecord
  obtain ⟨rule, hrule, hkind⟩ : ∃ rule ∈ rulesAt (importedRules self root) place,
      rule.send? = some record ∨ rule.recv? = some record := by
    rcases hrecord with ⟨rule, hrule, hkind⟩ | ⟨rule, hrule, hkind⟩
    · exact ⟨rule, hrule, .inl hkind⟩
    · exact ⟨rule, hrule, .inr hkind⟩
  rcases List.mem_cons.mp (List.mem_of_mem_filter hrule) with rfl | hrule
  · simp [selfRule, PolicyRule.send?, PolicyRule.recv?] at hkind
  · exact configRules_forall (P := fun rule =>
      ∀ record, rule.send? = some record ∨ rule.recv? = some record → record.broadcast < utilTristateN)
      (fun i node rule h => (policyRule_spec h).2) 2 root rule hrule record hkind

/-- The broker imports what the launcher writes. -/
theorem exists_policyRegistryImport_policyExport (systemUidMax self : UInt32) (root : List ConfigNode)
    (atConsoleUids : List UInt32) :
    ∃ registry, policyRegistryImport .new (policyExport systemUidMax (launcherLoadPolicy self root) atConsoleUids) =
      some registry := by
  have hplace (place : PolicyPlace) : ((policyImport self .init root).optimizedAt place).Valid :=
    valid_entriesAt self root place
  have hdefault : (launcherLoadPolicy self root).defaultEntries.Valid := valid_entriesAt self root .everyone
  have huids : ∀ node ∈ (launcherLoadPolicy self root).uidTree.entries, node.2.Valid := by
    intro node hnode
    have hfind := (SearchTree.find?_eq_some_iff _ _ _).mpr hnode
    rw [launcherLoadPolicy, (find?_policyOptimize _).1] at hfind
    split_ifs at hfind
    exact Option.some.inj hfind ▸ hplace _
  have hgids : ∀ node ∈ (launcherLoadPolicy self root).gidTree.entries, node.2.Valid := by
    intro node hnode
    have hfind := (SearchTree.find?_eq_some_iff _ _ _).mpr hnode
    rw [launcherLoadPolicy, (find?_policyOptimize _).2] at hfind
    split_ifs at hfind
    exact Option.some.inj hfind ▸ hplace _
  have hconsole {entries : PolicyEntries} (h : entries.Valid) (uidStart nUid : UInt32) :
      ∀ e ∈ policyExportConsole entries uidStart nUid, e.2.2.2.Valid ∧ (e.1 = true → e.2.1 = e.2.2.1) := by
    intro e he
    unfold policyExportConsole at he
    split_ifs at he
    · exact absurd he List.not_mem_nil
    · exact absurd he List.not_mem_nil
    · rw [List.mem_singleton.mp he]
      refine ⟨valid_policyExportBatch (fun e he => absurd he (by simp)) (fun e he => ?_), fun h => absurd h (by simp)⟩
      exact Option.some.inj he ▸ h
  have hat : (launcherLoadPolicy self root).atConsoleEntries.Valid := valid_entriesAt self root .atConsole
  have hno : (launcherLoadPolicy self root).noConsoleEntries.Valid := valid_entriesAt self root .noConsole
  have hsystem (uids : List UInt32) (nextUid : UInt32) :
      ∀ e ∈ policyExportSystem systemUidMax (launcherLoadPolicy self root) nextUid uids,
        e.2.2.2.Valid ∧ (e.1 = true → e.2.1 = e.2.2.1) := by
    induction uids generalizing nextUid with
    | nil => exact hconsole hno _ _
    | cons u rest ih =>
      intro e he
      rw [policyExportSystem, List.mem_append, List.mem_append] at he
      rcases he with (he | he) | he
      · exact hconsole hno _ _ e he
      · exact hconsole hat _ _ e he
      · exact ih _ e he
  refine exists_policyRegistryImport (fun e he => ?_) (fun e he => ?_)
  · rcases List.mem_cons.mp he with rfl | he
    · exact valid_policyExportBatch (fun e he => Option.some.inj he ▸ hdefault) (fun e he => absurd he (by simp))
    · obtain ⟨node, hnode, rfl⟩ := List.mem_map.mp he
      exact valid_policyExportBatch (fun e he => Option.some.inj he ▸ hdefault)
        (fun e he => Option.some.inj he ▸ huids node hnode)
  · rcases List.mem_append.mp he with he | he
    · rcases List.mem_append.mp he with he | he
      · obtain ⟨node, hnode, rfl⟩ := List.mem_map.mp he
        exact ⟨valid_policyExportBatch (fun e he => absurd he (by simp))
          (fun e he => Option.some.inj he ▸ hgids node hnode), fun _ => rfl⟩
      · exact hsystem _ _ e he
    · exact hconsole hat _ _ e he

end

/-- A batch has exactly some records, of the own records of one name and kind the strongest one. -/
structure Carries (batch : PolicyBatch) (own : List PolicyDumpOwn) (send recv : List PolicyDumpXmit) : Prop where
  unowned : ∀ isPrefix name, ownVerdicts own isPrefix name = [] → batch.ownVerdict isPrefix name = .init
  own : ∀ isPrefix name, ownVerdicts own isPrefix name ≠ [] →
    Greatest PolicyVerdict.rank (ownVerdicts own isPrefix name) (batch.ownVerdict isPrefix name)
  send : ∀ name, batch.rules true name = xmitRules send name
  recv : ∀ name, batch.rules false name = xmitRules recv name

/-- A batch has the records of the parts of the message that went into it. -/
theorem carries_of_holds {batch : PolicyBatch} {vs : List PolicyDumpBatch} (h : batch.Holds vs) :
    Carries batch (vs.flatMap (·.own)) (vs.flatMap (·.send)) (vs.flatMap (·.recv)) := by
  refine ⟨fun isPrefix name hnil => by rw [h.own, hnil]; rfl, fun isPrefix name hne => ?_, h.send, h.recv⟩
  rw [h.own]
  cases hverdicts : ownVerdicts (vs.flatMap (·.own)) isPrefix name with
  | nil => exact absurd hverdicts hne
  | cons first rest =>
    have hfirst : PolicyVerdict.init.supersede first = first := if_pos (UInt64.le_iff_toNat_le.mpr (Nat.zero_le _))
    obtain ⟨hmem, hold, hle⟩ := foldl_supersede first rest
    rw [List.foldl_cons, hfirst]
    refine ⟨List.mem_cons.mpr hmem, fun w hw => ?_⟩
    rcases List.mem_cons.mp hw with rfl | hw
    · exact hold
    · exact hle w hw

section Filters

/-- What a send or receive rule asks of a message, in the attributes of its element. -/
structure XmitAttributes where
  name : Option Bytes
  path : Option Bytes
  interface : Option Bytes
  member : Option Bytes
  type : UInt32
  broadcast : UtilTristate
  minFds : UInt64
  maxFds : UInt64

/-- The attributes that are about sending. -/
def ConfigAllowDeny.sendAttributes (rule : ConfigAllowDeny) : XmitAttributes :=
  ⟨rule.sendDestination, rule.sendPath, rule.sendInterface, rule.sendMember, rule.sendType, rule.sendBroadcast, rule.minFds,
    rule.maxFds⟩

/-- The attributes that are about receiving. -/
def ConfigAllowDeny.recvAttributes (rule : ConfigAllowDeny) : XmitAttributes :=
  ⟨rule.recvSender, rule.recvPath, rule.recvInterface, rule.recvMember, rule.recvType, .unset, rule.minFds, rule.maxFds⟩

/-- The string that an attribute asks for, unless it is empty or stands for every string. -/
def xmitFilter (value : Option Bytes) : Option Bytes := value.filter fun s => s ≠ [] ∧ s ≠ lit "*"

/-- A message is what the attributes ask for. -/
structure XmitAttributes.Meets (attributes : XmitAttributes) (m : PolicyMessage) : Prop where
  type : attributes.type ≠ 0 → m.type = attributes.type
  path : ∀ p, xmitFilter attributes.path = some p → m.path = some p
  interface : ∀ i, xmitFilter attributes.interface = some i → m.interface = some i
  member : ∀ name, xmitFilter attributes.member = some name → m.member = some name
  broadcast : attributes.broadcast = .yes → m.broadcast = true
  unicast : attributes.broadcast = .no → m.broadcast = false
  minFds : attributes.minFds.toNat ≤ m.nFds
  maxFds : m.nFds ≤ attributes.maxFds.toNat

/-- The record of some attributes with a verdict. -/
def XmitAttributes.record (attributes : XmitAttributes) (verdict : PolicyVerdict) : PolicyRecordXmit :=
  ⟨verdict, policyTrim attributes.name, policyTrim attributes.path, policyTrim attributes.interface,
    policyTrim attributes.member, attributes.type, attributes.broadcast.number, attributes.minFds, attributes.maxFds⟩

/-- What is left of a string when it was written without a wildcard, and read without an empty string. -/
theorem policyFilter_policyTrim (value : Option Bytes) :
    policyFilter ((policyTrim value).getD []) = xmitFilter value := by
  cases value with
  | none => rfl
  | some s =>
    by_cases hwild : s = lit "*"
    · subst hwild
      rfl
    · have htrim : policyTrim (some s) = some s := if_neg fun h => hwild (Option.some.inj h)
      rw [htrim, Option.getD_some, policyFilter, xmitFilter]
      cases s with
      | nil => rfl
      | cons byte rest => simp [hwild, Option.filter]

/-- The broker takes the record of some attributes for a rule with its verdict, that applies to what the attributes
ask for. -/
theorem XmitAttributes.applies_record (attributes : XmitAttributes) (verdict : PolicyVerdict) (m : PolicyMessage) :
    (policyXmitNew (policyExportXmitRecord (attributes.record verdict))).Applies m ↔ attributes.Meets m := by
  have hbroadcast : attributes.broadcast.number = 1 ↔ attributes.broadcast = .yes := by
    cases attributes.broadcast <;> decide
  have hunicast : attributes.broadcast.number = 2 ↔ attributes.broadcast = .no := by
    cases attributes.broadcast <;> decide
  have hpath := policyFilter_policyTrim attributes.path
  have hinterface := policyFilter_policyTrim attributes.interface
  have hmember := policyFilter_policyTrim attributes.member
  constructor
  · intro h
    exact ⟨h.type, fun p hp => h.path p (hpath.trans hp), fun i hi => h.interface i (hinterface.trans hi),
      fun name hname => h.member name (hmember.trans hname), fun hyes => h.broadcast (hbroadcast.mpr hyes),
      fun hno => h.unicast (hunicast.mpr hno), h.minFds, h.maxFds⟩
  · intro h
    exact ⟨h.type, fun p hp => h.path p (hpath.symm.trans hp), fun i hi => h.interface i (hinterface.symm.trans hi),
      fun name hname => h.member name (hmember.symm.trans hname), fun hyes => h.broadcast (hbroadcast.mp hyes),
      fun hno => h.unicast (hunicast.mp hno), h.minFds, h.maxFds⟩

/-- A record that the broker imports is what the attributes of a rule say: with its verdict, filed under the name that
it asks for, and applied to the messages that it asks for. -/
structure Imports (record : PolicyRecordXmit) (verdict : PolicyVerdict) (attributes : XmitAttributes) : Prop where
  name : policyFilter (policyExportXmitRecord record).name = xmitFilter attributes.name
  verdict : (policyXmitNew (policyExportXmitRecord record)).verdict = verdict
  applies : ∀ m, (policyXmitNew (policyExportXmitRecord record)).Applies m ↔ attributes.Meets m

/-- The record of some attributes is imported so. -/
theorem XmitAttributes.imports (attributes : XmitAttributes) (verdict : PolicyVerdict) :
    Imports (attributes.record verdict) verdict attributes :=
  ⟨policyFilter_policyTrim attributes.name, rfl, attributes.applies_record verdict⟩

/-- The send or receive record of an accepted rule is imported as the element of the configuration has it, with the
priority of the rule. -/
theorem imports_of_policyRule {i : UInt64} {node : ConfigNode} {rule : PolicyRule} (h : policyRule i node = some rule) :
    ∃ isAllow parent attributes, node = .allowDeny isAllow (some parent) attributes ∧
      (∀ record, rule.send? = some record →
        Imports record ⟨isAllow, rule.record.verdict.priority⟩ attributes.sendAttributes) ∧
      ∀ record, rule.recv? = some record →
        Imports record ⟨isAllow, rule.record.verdict.priority⟩ attributes.recvAttributes := by
  cases node with
  | other => cases h
  | allowDeny isAllow parent attributes =>
    cases parent with
    | none => cases h
    | some parent =>
      refine ⟨isAllow, parent, attributes, rfl, ?_⟩
      simp only [policyRule] at h
      split_ifs at h
      all_goals obtain rfl := Option.some.inj h
      · constructor <;> (intro record hrecord; cases hrecord)
      · constructor <;> (intro record hrecord; cases hrecord)
      · constructor <;> intro record hrecord
        · obtain rfl := Option.some.inj hrecord
          exact attributes.sendAttributes.imports _
        · cases hrecord
      · constructor <;> intro record hrecord
        · cases hrecord
        · obtain rfl := Option.some.inj hrecord
          exact attributes.recvAttributes.imports _

end Filters

/-- The own, send and receive records of the snapshot of a peer are exactly those of the accepted rules that are
meant for the peer, with the verdicts and filters that the configuration gives them. Their priorities follow the
context and then the place in the configuration, and do not overflow while there are not too many rules. -/
theorem policyRecords_reach_peers {self systemUidMax : UInt32} {atConsoleUids : List UInt32} (hself : self ≠ -1)
    (hmax : systemUidMax ≠ -1) (hnodup : atConsoleUids.Nodup) (root : List ConfigNode) :
    (∃ registry,
      policyRegistryImport .new (policyExport systemUidMax (launcherLoadPolicy self root) atConsoleUids) = some registry ∧
      ∀ (uid : UInt32) (gids : List UInt32), gids.Nodup → ∃ parts : List (List PolicyDumpBatch),
        List.Forall₂ (fun batch vs => Carries batch (vs.flatMap (·.own)) (vs.flatMap (·.send)) (vs.flatMap (·.recv)))
          (policySnapshotNew registry uid gids) parts ∧
        (parts.flatten.flatMap (·.own)).Perm
          ((peerRules systemUidMax atConsoleUids uid gids root).filterMap (·.own?)) ∧
        (parts.flatten.flatMap (·.send)).Perm
          ((peerRules systemUidMax atConsoleUids uid gids root).filterMap fun rule =>
            rule.send?.map policyExportXmitRecord) ∧
        (parts.flatten.flatMap (·.recv)).Perm
          ((peerRules systemUidMax atConsoleUids uid gids root).filterMap fun rule =>
            rule.recv?.map policyExportXmitRecord)) ∧
    (∀ rule ∈ configRules 2 root, ∃ isAllow parent attributes, ConfigNode.allowDeny isAllow (some parent) attributes ∈ root ∧
      (∀ record, rule.send? = some record →
        Imports record ⟨isAllow, rule.record.verdict.priority⟩ attributes.sendAttributes) ∧
      ∀ record, rule.recv? = some record →
        Imports record ⟨isAllow, rule.record.verdict.priority⟩ attributes.recvAttributes) ∧
    ((configRules 2 root).length < (uint64Max / configPolicyN).toNat →
      (∀ n rule, (configRules 2 root)[n]? = some rule →
        rule.rank = (uint64Max / configPolicyN).toNat * rule.context.number.toNat + (n + 3)) ∧
      (configRules 2 root).Pairwise PolicyRule.Before) := by
  refine ⟨?_, fun rule hrule => ?_, fun hcount => ?_⟩
  · obtain ⟨registry, hregistry⟩ := exists_policyRegistryImport_policyExport systemUidMax self root atConsoleUids
    refine ⟨registry, hregistry, fun uid gids hgids => ?_⟩
    obtain ⟨groups, hholds, hperm, -⟩ := (holds_policyRegistryImport hregistry).snapshot uid gids
    have hnone (rule : PolicyRule) (h : rule.connect? ≠ none) :
        rule.own? = none ∧ rule.send? = none ∧ rule.recv? = none := by
      cases hrecord : rule.record <;> simp_all [PolicyRule.connect?, PolicyRule.own?, PolicyRule.send?, PolicyRule.recv?]
    refine ⟨groups, hholds.imp fun _ _ => carries_of_holds, ?_, ?_, ?_⟩
    · refine (hperm.flatMap_right _).trans (exports_own.batches_perm (fun rule hsome => ?_) hself hmax hnodup uid hgids)
      by_contra hne
      simp [(hnone rule hne).1] at hsome
    · refine (hperm.flatMap_right _).trans (exports_send.batches_perm (fun rule hsome => ?_) hself hmax hnodup uid hgids)
      by_contra hne
      simp [(hnone rule hne).2.1] at hsome
    · refine (hperm.flatMap_right _).trans (exports_recv.batches_perm (fun rule hsome => ?_) hself hmax hnodup uid hgids)
      by_contra hne
      simp [(hnone rule hne).2.2] at hsome
  · obtain ⟨j, node, hnode, hpolicy⟩ := exists_of_mem_configRules hrule
    obtain ⟨isAllow, parent, attributes, rfl, himports⟩ := imports_of_policyRule hpolicy
    exact ⟨isAllow, parent, attributes, hnode, himports⟩
  · rw [toNat_share] at hcount ⊢
    refine ⟨fun n rule hrule => ?_, pairwise_before_configRules root hcount⟩
    have htwo : (2 : UInt64).toNat = 2 := rfl
    rw [rank_configRules root 2 (by rw [htwo]; omega) n rule hrule, htwo]
    omega

/-- A configuration that lets a user own a name, and denies system users away from the console to own any. -/
def exampleOwnRoot : List ConfigNode :=
  [.allowDeny true (some ⟨.user, 500⟩) { own := some (lit "com.example") },
    .allowDeny false (some ⟨.noConsole, 0⟩) { own := some (lit "*") }]

/-- The user gets both rules when it is not at the console. -/
theorem policyRecords_reach_example :
    ∃ registry, policyRegistryImport .new (policyExport 999 (launcherLoadPolicy 0 exampleOwnRoot) [501]) = some registry ∧
      ∃ parts : List (List PolicyDumpBatch),
        List.Forall₂ (fun batch vs => Carries batch (vs.flatMap (·.own)) (vs.flatMap (·.send)) (vs.flatMap (·.recv)))
          (policySnapshotNew registry 500 []) parts ∧
        (parts.flatten.flatMap (·.own)).Perm
          [⟨⟨true, uint64Max / 7 * 3 + 3⟩, false, lit "com.example"⟩, ⟨⟨false, uint64Max / 7 * 5 + 4⟩, true, []⟩] := by
  obtain ⟨⟨registry, hregistry, hreach⟩, -⟩ :=
    @policyRecords_reach_peers 0 999 [501] (by decide) (by decide) (by decide) exampleOwnRoot
  obtain ⟨parts, hcarries, hown, -⟩ := hreach 500 [] List.nodup_nil
  exact ⟨registry, hregistry, parts, hcarries, hown⟩

end DbusBroker.Launch
