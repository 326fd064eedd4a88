import DbusBroker.Bus.PolicyVerdicts
import Mathlib.Data.List.Forall2
import Mathlib.Data.List.Nodup

/-!
# What an imported registry holds

The records of a policy message against the registry that is imported from it. A batch holds the
records of every part of the message that went into it: its rules are the transmission records
under their names, and of the own records of one name and kind the strongest one. The batches
of a snapshot hold exactly the records of the parts that concern the peer.
-/

namespace DbusBroker

open Std

/-- An invariant of a loop that may fail, in terms of the elements so far. -/
theorem foldlM_invariant {α β : Type} {f : β → α → Option β} {P : List α → β → Prop}
    (hstep : ∀ pre x b b', P pre b → f b x = some b' → P (pre ++ [x]) b') (pre : List α) {l : List α} {b b' : β}
    (h : P pre b) (hl : l.foldlM f b = some b') : P (pre ++ l) b' := by
  induction l generalizing pre b with
  | nil =>
    obtain rfl : b = b' := by simpa using hl
    simpa using h
  | cons x rest ih =>
    rw [List.foldlM_cons] at hl
    obtain ⟨c, hc, hrest⟩ := Option.bind_eq_some_iff.mp hl
    rw [List.append_cons]
    exact ih (pre ++ [x]) (hstep pre x b c h hc) hrest

/-- The verdict on a name and kind of own record. -/
def PolicyBatch.ownVerdict (batch : PolicyBatch) (isPrefix : Bool) (name : Bytes) : PolicyVerdict :=
  if isPrefix then (policyBatchAtName batch name).ownPrefixVerdict else (policyBatchAtName batch name).ownVerdict

/-- The verdicts of the own records of a name and kind. -/
def ownVerdicts (records : List PolicyDumpOwn) (isPrefix : Bool) (name : Bytes) : List PolicyVerdict :=
  (records.filter fun r => r.isPrefix = isPrefix ∧ r.name = name).map (·.verdict)

/-- The rules of the transmission records of a name. -/
def xmitRules (records : List PolicyDumpXmit) (name : Bytes) : List PolicyXmit :=
  (records.filter fun r => r.name = name).map policyXmitNew

/-- A batch holds the records of some parts of a policy message. -/
structure PolicyBatch.Holds (batch : PolicyBatch) (vs : List PolicyDumpBatch) : Prop where
  connect : batch.connectVerdict = (vs.getLast?.map (·.connect)).getD .init
  own : ∀ isPrefix name, batch.ownVerdict isPrefix name =
    (ownVerdicts (vs.flatMap (·.own)) isPrefix name).foldl PolicyVerdict.supersede .init
  send : ∀ name, batch.rules true name = xmitRules (vs.flatMap (·.send)) name
  recv : ∀ name, batch.rules false name = xmitRules (vs.flatMap (·.recv)) name

/-- The empty batch holds no records. -/
theorem holds_null : PolicyBatch.null.Holds [] :=
  ⟨rfl, fun isPrefix _ => by cases isPrefix <;> rfl, fun _ => rfl, fun _ => rfl⟩

variable {batch batch' : PolicyBatch}

/-- The rules under a name, in terms of the name. -/
theorem rules_eq (batch : PolicyBatch) (isSend : Bool) (name : Bytes) :
    batch.rules isSend name = if isSend then (policyBatchAtName batch name).sendUnindexed
      else (policyBatchAtName batch name).recvUnindexed := by
  unfold PolicyBatch.rules policyBatchAtName
  cases batch.nameTree.find? name <;> simp [PolicyBatchName.null]

/-- The names of a batch after one was written back. -/
theorem policyBatchAtName_setName (batch : PolicyBatch) (name other : Bytes) (n : PolicyBatchName) :
    policyBatchAtName (batch.setName name n) other = if other = name then n else policyBatchAtName batch other := by
  unfold policyBatchAtName PolicyBatch.setName
  by_cases h : other = name
  · simp [h]
  · simp [batch.nameTree.find?_insert_of_ne h, h]

/-- What an own record changes in a batch. -/
theorem policyImportOwnRecord_spec (batch : PolicyBatch) (record : PolicyDumpOwn) :
    (policyImportOwnRecord batch record).connectVerdict = batch.connectVerdict ∧
    (∀ isPrefix name, (policyImportOwnRecord batch record).ownVerdict isPrefix name =
      if record.isPrefix = isPrefix ∧ record.name = name then (batch.ownVerdict isPrefix name).supersede record.verdict
      else batch.ownVerdict isPrefix name) ∧
    ∀ isSend name, (policyImportOwnRecord batch record).rules isSend name = batch.rules isSend name := by
  cases hkind : record.isPrefix with
  | false =>
    have hnow : policyImportOwnRecord batch record = policyBatchAddOwn batch record.name record.verdict := by
      simp [policyImportOwnRecord, hkind]
    rw [hnow]
    refine ⟨rfl, fun isPrefix name => ?_, fun isSend name => ?_⟩
    · by_cases hname : name = record.name
      · cases isPrefix <;> simp [PolicyBatch.ownVerdict, policyBatchAddOwn, policyBatchAtName_setName, hname]
      · simp [PolicyBatch.ownVerdict, policyBatchAddOwn, policyBatchAtName_setName, hname, Ne.symm hname]
    · by_cases hname : name = record.name <;>
        simp [rules_eq, policyBatchAddOwn, policyBatchAtName_setName, hname]
  | true =>
    have hnow : policyImportOwnRecord batch record = policyBatchAddOwnPrefix batch record.name record.verdict := by
      simp [policyImportOwnRecord, hkind]
    rw [hnow]
    refine ⟨rfl, fun isPrefix name => ?_, fun isSend name => ?_⟩
    · by_cases hname : name = record.name
      · cases isPrefix <;> simp [PolicyBatch.ownVerdict, policyBatchAddOwnPrefix, policyBatchAtName_setName, hname]
      · simp [PolicyBatch.ownVerdict, policyBatchAddOwnPrefix, policyBatchAtName_setName, hname, Ne.symm hname]
    · by_cases hname : name = record.name <;>
        simp [rules_eq, policyBatchAddOwnPrefix, policyBatchAtName_setName, hname]

/-- What a transmission record changes in a batch. -/
theorem policyImportXmitRecord_spec (isSend : Bool) (record : PolicyDumpXmit)
    (h : (if isSend then policyImportSendRecord batch record else policyImportRecvRecord batch record) = some batch') :
    batch'.connectVerdict = batch.connectVerdict ∧
    (∀ isPrefix name, batch'.ownVerdict isPrefix name = batch.ownVerdict isPrefix name) ∧
    (∀ name, batch'.rules (!isSend) name = batch.rules (!isSend) name) ∧
    ∀ name, batch'.rules isSend name =
      batch.rules isSend name ++ if record.name = name then [policyXmitNew record] else [] := by
  cases isSend with
  | false =>
    simp only [Bool.false_eq_true, if_false, policyImportRecvRecord] at h
    split_ifs at h
    obtain rfl := Option.some.inj h
    refine ⟨rfl, fun isPrefix name => ?_, fun name => ?_, fun name => ?_⟩
    · by_cases hname : name = record.name <;>
        simp [PolicyBatch.ownVerdict, policyBatchAddRecv, policyBatchAtName_setName, hname]
    · by_cases hname : name = record.name <;> simp [rules_eq, policyBatchAddRecv, policyBatchAtName_setName, hname]
    · by_cases hname : name = record.name
      · simp [rules_eq, policyBatchAddRecv, policyBatchAtName_setName, hname]
      · simp [rules_eq, policyBatchAddRecv, policyBatchAtName_setName, hname, Ne.symm hname]
  | true =>
    simp only [if_true, policyImportSendRecord] at h
    split_ifs at h
    obtain rfl := Option.some.inj h
    refine ⟨rfl, fun isPrefix name => ?_, fun name => ?_, fun name => ?_⟩
    · by_cases hname : name = record.name <;>
        simp [PolicyBatch.ownVerdict, policyBatchAddSend, policyBatchAtName_setName, hname]
    · by_cases hname : name = record.name <;> simp [rules_eq, policyBatchAddSend, policyBatchAtName_setName, hname]
    · by_cases hname : name = record.name
      · simp [rules_eq, policyBatchAddSend, policyBatchAtName_setName, hname]
      · simp [rules_eq, policyBatchAddSend, policyBatchAtName_setName, hname, Ne.symm hname]

/-- The own records of a part of a message, one after the other. -/
theorem foldl_policyImportOwnRecord (batch : PolicyBatch) (records : List PolicyDumpOwn) :
    let after := records.foldl policyImportOwnRecord batch
    after.connectVerdict = batch.connectVerdict ∧
    (∀ isPrefix name, after.ownVerdict isPrefix name =
      (ownVerdicts records isPrefix name).foldl PolicyVerdict.supersede (batch.ownVerdict isPrefix name)) ∧
    ∀ isSend name, after.rules isSend name = batch.rules isSend name := by
  induction records generalizing batch with
  | nil => exact ⟨rfl, fun _ _ => rfl, fun _ _ => rfl⟩
  | cons record rest ih =>
    obtain ⟨hconnect, hown, hrules⟩ := policyImportOwnRecord_spec batch record
    obtain ⟨hconnect', hown', hrules'⟩ := ih (policyImportOwnRecord batch record)
    refine ⟨hconnect'.trans hconnect, fun isPrefix name => ?_, fun isSend name => (hrules' isSend name).trans (hrules isSend name)⟩
    rw [List.foldl_cons, hown', hown]
    by_cases h : record.isPrefix = isPrefix ∧ record.name = name
    · simp [ownVerdicts, h]
    · simp [ownVerdicts, h]

/-- The transmission records of a part of a message, one after the other. -/
theorem foldlM_policyImportXmitRecord (isSend : Bool) {records : List PolicyDumpXmit}
    (h : records.foldlM (if isSend then policyImportSendRecord else policyImportRecvRecord) batch = some batch') :
    batch'.connectVerdict = batch.connectVerdict ∧
    (∀ isPrefix name, batch'.ownVerdict isPrefix name = batch.ownVerdict isPrefix name) ∧
    (∀ name, batch'.rules (!isSend) name = batch.rules (!isSend) name) ∧
    ∀ name, batch'.rules isSend name = batch.rules isSend name ++ xmitRules records name := by
  have hinv := foldlM_invariant
    (P := fun pre (b : PolicyBatch) => b.connectVerdict = batch.connectVerdict ∧
      (∀ isPrefix name, b.ownVerdict isPrefix name = batch.ownVerdict isPrefix name) ∧
      (∀ name, b.rules (!isSend) name = batch.rules (!isSend) name) ∧
      ∀ name, b.rules isSend name = batch.rules isSend name ++ xmitRules pre name)
    (fun pre record b b' hb hrecord => ?_) [] ⟨rfl, fun _ _ => rfl, fun _ => rfl, fun name => by simp [xmitRules]⟩ h
  · simpa using hinv
  · obtain ⟨hconnect, hown, hother, hrules⟩ := hb
    obtain ⟨hconnect', hown', hother', hrules'⟩ := @policyImportXmitRecord_spec b b' isSend record (by
      cases isSend <;> exact hrecord)
    refine ⟨hconnect'.trans hconnect, fun p name => (hown' p name).trans (hown p name),
      fun name => (hother' name).trans (hother name), fun name => ?_⟩
    rw [hrules', hrules, List.append_assoc]
    by_cases hname : record.name = name <;> simp [xmitRules, hname]

/-- A part of a message adds its records to a batch. -/
theorem PolicyBatch.Holds.importBatch {vs : List PolicyDumpBatch} (h : batch.Holds vs) {v : PolicyDumpBatch}
    (hv : policyRegistryImportBatch batch v = some batch') : batch'.Holds (vs ++ [v]) := by
  obtain ⟨b, hsend, hrecv⟩ := Option.bind_eq_some_iff.mp hv
  obtain ⟨hc₁, ho₁, hr₁⟩ := foldl_policyImportOwnRecord { batch with connectVerdict := v.connect } v.own
  obtain ⟨hc₂, ho₂, hn₂, hs₂⟩ := foldlM_policyImportXmitRecord true hsend
  obtain ⟨hc₃, ho₃, hn₃, hs₃⟩ := foldlM_policyImportXmitRecord false hrecv
  simp only [Bool.not_true, Bool.not_false] at hn₂ hn₃
  refine ⟨?_, fun isPrefix name => ?_, fun name => ?_, fun name => ?_⟩
  · rw [hc₃, hc₂, hc₁]
    simp
  · rw [ho₃, ho₂, ho₁]
    have hsame : PolicyBatch.ownVerdict { batch with connectVerdict := v.connect } isPrefix name =
        batch.ownVerdict isPrefix name := rfl
    rw [hsame, h.own, ← List.foldl_append]
    simp [ownVerdicts]
  · have hsame : PolicyBatch.rules { batch with connectVerdict := v.connect } true name = batch.rules true name := rfl
    rw [hn₃, hs₂, hr₁, hsame, h.send]
    simp [xmitRules]
  · have hsame : PolicyBatch.rules { batch with connectVerdict := v.connect } false name = batch.rules false name := rfl
    rw [hs₃, hn₂, hr₁, hsame, h.recv]
    simp [xmitRules]

/-- The parts of a message that are filed under an index. -/
def dumpAt (parts : List ((UInt32 × UInt32) × PolicyDumpBatch)) (index : UInt32 × UInt32) : List PolicyDumpBatch :=
  (parts.filter (·.1 = index)).map Prod.snd

/-- A tree of batches holds parts of a message under their indices. -/
structure TreeHolds (tree : SearchTree policyRegistryNodeCompare PolicyBatch)
    (parts : List ((UInt32 × UInt32) × PolicyDumpBatch)) : Prop where
  holds : ∀ index batch, tree.find? index = some batch → batch.Holds (dumpAt parts index) ∧ dumpAt parts index ≠ []
  found : ∀ part ∈ parts, (tree.find? part.1).isSome = true

/-- The empty tree holds nothing. -/
theorem treeHolds_empty : TreeHolds .empty [] := ⟨fun _ _ h => by simp at h, fun _ h => absurd h List.not_mem_nil⟩

/-- Nothing is filed under an index that the tree does not have. -/
theorem TreeHolds.dumpAt_eq_nil {tree : SearchTree policyRegistryNodeCompare PolicyBatch}
    {parts : List ((UInt32 × UInt32) × PolicyDumpBatch)} (h : TreeHolds tree parts) {index : UInt32 × UInt32}
    (hnone : tree.find? index = none) : dumpAt parts index = [] := by
  rw [dumpAt, List.map_eq_nil_iff, List.filter_eq_nil_iff]
  intro part hpart hindex
  have hsome := h.found part hpart
  rw [of_decide_eq_true hindex, hnone] at hsome
  cases hsome

/-- A part of a message is added under its index. -/
theorem TreeHolds.importAt {tree tree' : SearchTree policyRegistryNodeCompare PolicyBatch}
    {parts : List ((UInt32 × UInt32) × PolicyDumpBatch)} (h : TreeHolds tree parts) {index : UInt32 × UInt32}
    {v : PolicyDumpBatch} (hv : policyImportAt tree index v = some tree') : TreeHolds tree' (parts ++ [(index, v)]) := by
  obtain ⟨b, hb, htree⟩ := Option.bind_eq_some_iff.mp hv
  obtain rfl := Option.some.inj htree
  have hold : ((tree.find? index).getD .null).Holds (dumpAt parts index) := by
    cases hfind : tree.find? index with
    | none =>
      rw [h.dumpAt_eq_nil hfind]
      exact holds_null
    | some batch => exact (h.holds index batch hfind).1
  have hself : dumpAt (parts ++ [(index, v)]) index = dumpAt parts index ++ [v] := by simp [dumpAt]
  have hother (other : UInt32 × UInt32) (hne : other ≠ index) :
      dumpAt (parts ++ [(index, v)]) other = dumpAt parts other := by
    simp [dumpAt, Ne.symm hne]
  refine ⟨fun other batch hfind => ?_, fun part hpart => ?_⟩
  · rw [tree.find?_insert] at hfind
    split_ifs at hfind with hindex
    · obtain rfl := Option.some.inj hfind
      rw [hindex, hself]
      exact ⟨hold.importBatch hb, by simp⟩
    · rw [hother other hindex]
      exact h.holds other batch hfind
  · rw [tree.find?_insert]
    split_ifs with hindex
    · rfl
    · rcases List.mem_append.mp hpart with hpart | hpart
      · exact h.found part hpart
      · exact absurd (by rw [List.mem_singleton.mp hpart]) hindex

/-- The parts of a policy message for a user. -/
def PolicyDump.uidBatches (v : PolicyDump) (uid : UInt32) : List PolicyDumpBatch :=
  (v.uids.filter (·.1 = uid)).map Prod.snd

/-- The parts of a policy message for the ranges that a user is in. -/
def PolicyDump.rangeBatches (v : PolicyDump) (uid : UInt32) : List PolicyDumpBatch :=
  (v.ranges.filter fun e => !e.1 && (e.2.1 ≤ uid && uid ≤ e.2.2.1)).map (·.2.2.2)

/-- The parts of a policy message for a group. -/
def PolicyDump.gidBatches (v : PolicyDump) (gid : UInt32) : List PolicyDumpBatch :=
  (v.ranges.filter fun e => e.1 && decide (e.2.1 = gid)).map (·.2.2.2)

/-- The parts of a policy message that concern a peer. Those for all users count where there are none for its user. -/
def PolicyDump.batches (v : PolicyDump) (uid : UInt32) (gids : List UInt32) : List PolicyDumpBatch :=
  (if v.uidBatches uid = [] then v.uidBatches (-1) else v.uidBatches uid) ++ v.rangeBatches uid ++
    gids.flatMap v.gidBatches

/-- A registry holds the records of a policy message. -/
structure PolicyRegistry.Holds (registry : PolicyRegistry) (v : PolicyDump) : Prop where
  default : registry.defaultBatch.Holds (v.uidBatches (-1))
  uid : TreeHolds registry.uidTree ((v.uids.filter (·.1 ≠ -1)).map fun e => ((e.1, e.1), e.2))
  range : TreeHolds registry.uidRangeTree ((v.ranges.filter (!·.1)).map fun e => ((e.2.1, e.2.2.1), e.2.2.2))
  gid : TreeHolds registry.gidTree ((v.ranges.filter (·.1)).map fun e => ((e.2.1, e.2.1), e.2.2.2))

/-- A part for a user is added to the registry. -/
theorem PolicyRegistry.Holds.importUid {registry registry' : PolicyRegistry} {v : PolicyDump} (h : registry.Holds v)
    {entry : UInt32 × PolicyDumpBatch} (hentry : policyImportUid registry entry = some registry') :
    registry'.Holds { v with uids := v.uids ++ [entry] } := by
  unfold policyImportUid at hentry
  by_cases hall : entry.1 = -1
  · rw [if_pos hall] at hentry
    obtain ⟨b, hb, hregistry⟩ := Option.bind_eq_some_iff.mp hentry
    obtain rfl := Option.some.inj hregistry
    refine ⟨?_, ?_, h.range, h.gid⟩
    · have hadded := h.default.importBatch hb
      simpa [PolicyDump.uidBatches, hall] using hadded
    · simpa [hall] using h.uid
  · rw [if_neg hall] at hentry
    obtain ⟨tree, htree, hregistry⟩ := Option.bind_eq_some_iff.mp hentry
    obtain rfl := Option.some.inj hregistry
    refine ⟨?_, ?_, h.range, h.gid⟩
    · simpa [PolicyDump.uidBatches, hall] using h.default
    · have hadded := h.uid.importAt htree
      simpa [hall] using hadded

/-- A part for a group or a range is added to the registry. -/
theorem PolicyRegistry.Holds.importRange {registry registry' : PolicyRegistry} {v : PolicyDump} (h : registry.Holds v)
    {entry : Bool × UInt32 × UInt32 × PolicyDumpBatch} (hentry : policyImportRange registry entry = some registry') :
    registry'.Holds { v with ranges := v.ranges ++ [entry] } := by
  obtain ⟨group, first, last, part⟩ := entry
  cases group with
  | false =>
    obtain ⟨tree, htree, hregistry⟩ := Option.bind_eq_some_iff.mp hentry
    obtain rfl := Option.some.inj hregistry
    exact ⟨h.default, h.uid, by simpa using h.range.importAt htree, by simpa using h.gid⟩
  | true =>
    simp only [policyImportRange, if_true] at hentry
    split_ifs at hentry
    obtain ⟨tree, htree, hregistry⟩ := Option.bind_eq_some_iff.mp hentry
    obtain rfl := Option.some.inj hregistry
    exact ⟨h.default, h.uid, by simpa using h.range, by simpa using h.gid.importAt htree⟩

/-- An imported registry holds the records of the message. -/
theorem holds_policyRegistryImport {registry : PolicyRegistry} {v : PolicyDump}
    (h : policyRegistryImport .new v = some registry) : registry.Holds v := by
  obtain ⟨middle, huids, hranges⟩ := Option.bind_eq_some_iff.mp h
  have hnew : PolicyRegistry.new.Holds ⟨[], []⟩ := ⟨holds_null, treeHolds_empty, treeHolds_empty, treeHolds_empty⟩
  have hmiddle : middle.Holds ⟨v.uids, []⟩ := by
    have hinv := foldlM_invariant (P := fun pre (r : PolicyRegistry) => r.Holds ⟨pre, []⟩)
      (fun pre entry r r' hr hentry => hr.importUid hentry) [] hnew huids
    simpa using hinv
  have hinv := foldlM_invariant (P := fun pre (r : PolicyRegistry) => r.Holds ⟨v.uids, pre⟩)
    (fun pre entry r r' hr hentry => hr.importRange hentry) [] hmiddle hranges
  simpa using hinv

/-- A part of a message can be imported: the filters of its rules are among the known ones. -/
def PolicyDumpBatch.Valid (v : PolicyDumpBatch) : Prop := ∀ r ∈ v.send ++ v.recv, r.broadcast < utilTristateN

/-- A loop that may fail does not, where no step of it does. -/
theorem exists_foldlM_eq_some {α β : Type} {f : β → α → Option β} {l : List α}
    (h : ∀ x ∈ l, ∀ b, ∃ b', f b x = some b') (b : β) : ∃ b', l.foldlM f b = some b' := by
  induction l generalizing b with
  | nil => exact ⟨b, rfl⟩
  | cons x rest ih =>
    obtain ⟨c, hc⟩ := h x List.mem_cons_self b
    obtain ⟨b', hb'⟩ := ih (fun y hy => h y (List.mem_cons_of_mem x hy)) c
    exact ⟨b', by rw [List.foldlM_cons, hc]; exact hb'⟩

/-- A valid part of a message is imported. -/
theorem PolicyDumpBatch.Valid.import {v : PolicyDumpBatch} (h : v.Valid) (batch : PolicyBatch) :
    ∃ batch', policyRegistryImportBatch batch v = some batch' := by
  have hsmall {r : PolicyDumpXmit} (hr : r ∈ v.send ++ v.recv) : ¬utilTristateN ≤ r.broadcast :=
    UInt32.not_le.mpr (h r hr)
  obtain ⟨b, hb⟩ := exists_foldlM_eq_some (f := policyImportSendRecord)
    (fun r hr b => ⟨_, if_neg (hsmall (List.mem_append_left v.recv hr))⟩)
    (v.own.foldl policyImportOwnRecord { batch with connectVerdict := v.connect })
  obtain ⟨b', hb'⟩ := exists_foldlM_eq_some (f := policyImportRecvRecord)
    (fun r hr b => ⟨_, if_neg (hsmall (List.mem_append_right v.send hr))⟩) b
  exact ⟨b', Option.bind_eq_some_iff.mpr ⟨b, hb, hb'⟩⟩

/-- A message of valid parts, of which those for groups are for single ones, is imported. -/
theorem exists_policyRegistryImport {v : PolicyDump} (huids : ∀ e ∈ v.uids, e.2.Valid)
    (hranges : ∀ e ∈ v.ranges, e.2.2.2.Valid ∧ (e.1 = true → e.2.1 = e.2.2.1)) :
    ∃ registry, policyRegistryImport .new v = some registry := by
  have hat (tree : SearchTree policyRegistryNodeCompare PolicyBatch) (index : UInt32 × UInt32) {part : PolicyDumpBatch}
      (hpart : part.Valid) : ∃ tree', policyImportAt tree index part = some tree' := by
    obtain ⟨batch, hbatch⟩ := hpart.import ((tree.find? index).getD .null)
    exact ⟨_, Option.bind_eq_some_iff.mpr ⟨batch, hbatch, rfl⟩⟩
  have huid : ∀ e ∈ v.uids, ∀ registry, ∃ registry', policyImportUid registry e = some registry' := by
    intro e he registry
    unfold policyImportUid
    by_cases hall : e.1 = -1
    · obtain ⟨batch, hbatch⟩ := (huids e he).import registry.defaultBatch
      exact ⟨_, by rw [if_pos hall]; exact Option.bind_eq_some_iff.mpr ⟨batch, hbatch, rfl⟩⟩
    · obtain ⟨tree, htree⟩ := hat registry.uidTree (e.1, e.1) (huids e he)
      exact ⟨_, by rw [if_neg hall]; exact Option.bind_eq_some_iff.mpr ⟨tree, htree, rfl⟩⟩
  have hrange : ∀ e ∈ v.ranges, ∀ registry, ∃ registry', policyImportRange registry e = some registry' := by
    intro e he registry
    obtain ⟨group, first, last, part⟩ := e
    obtain ⟨hpart, hsingle⟩ := hranges _ he
    cases group with
    | false =>
      obtain ⟨tree, htree⟩ := hat registry.uidRangeTree (first, last) hpart
      exact ⟨_, Option.bind_eq_some_iff.mpr ⟨tree, htree, rfl⟩⟩
    | true =>
      obtain ⟨tree, htree⟩ := hat registry.gidTree (first, first) hpart
      obtain rfl : first = last := hsingle rfl
      refine ⟨{ registry with gidTree := tree }, ?_⟩
      simp only [policyImportRange, if_true, ne_eq, not_true_eq_false, if_false]
      exact Option.bind_eq_some_iff.mpr ⟨tree, htree, rfl⟩
  obtain ⟨middle, hmiddle⟩ := exists_foldlM_eq_some huid .new
  obtain ⟨registry, hregistry⟩ := exists_foldlM_eq_some hrange middle
  exact ⟨registry, Option.bind_eq_some_iff.mpr ⟨middle, hmiddle, hregistry⟩⟩

/-- The elements of each of some keys, one key after the other, are the elements of any of them. -/
theorem flatMap_filter_perm {α κ : Type} [DecidableEq κ] (key : α → κ) (xs : List α) {keys : List κ} (h : keys.Nodup) :
    (keys.flatMap fun k => xs.filter fun x => decide (key x = k)).Perm (xs.filter fun x => decide (key x ∈ keys)) := by
  induction keys with
  | nil => simp
  | cons k rest ih =>
    obtain ⟨hfresh, hrest⟩ := List.nodup_cons.mp h
    rw [List.flatMap_cons]
    refine (List.Perm.append_left _ (ih hrest)).trans ?_
    have hsplit := List.filter_append_perm (fun x => decide (key x = k)) (xs.filter fun x => decide (key x ∈ k :: rest))
    rw [List.filter_filter, List.filter_filter] at hsplit
    convert hsplit using 2
    · refine List.filter_congr fun x _ => ?_
      by_cases hx : key x = k <;> simp [hx]
    · refine List.filter_congr fun x _ => ?_
      by_cases hx : key x = k <;> simp [hx, hfresh]

/-- The parts under each of some indices are the parts under any of them. -/
theorem flatMap_dumpAt_perm (parts : List ((UInt32 × UInt32) × PolicyDumpBatch)) {indices : List (UInt32 × UInt32)}
    (h : indices.Nodup) :
    (indices.flatMap (dumpAt parts)).Perm ((parts.filter fun part => decide (part.1 ∈ indices)).map Prod.snd) := by
  have hperm := (flatMap_filter_perm Prod.fst parts h).map Prod.snd
  rw [List.map_flatMap] at hperm
  convert hperm
  rw [dumpAt]

/-- The parts of a user are filed under its index. -/
theorem dumpAt_uids (v : PolicyDump) {uid : UInt32} (h : uid ≠ -1) :
    dumpAt ((v.uids.filter (·.1 ≠ -1)).map fun e => ((e.1, e.1), e.2)) (uid, uid) = v.uidBatches uid := by
  simp only [dumpAt, PolicyDump.uidBatches, List.filter_map, List.filter_filter, List.map_map]
  refine congrArg₂ List.map rfl (List.filter_congr fun e _ => ?_)
  by_cases he : e.1 = uid
  · simp [he, h]
  · simp [he]

/-- The parts of a group are filed under its index. -/
theorem dumpAt_gids (v : PolicyDump) (gid : UInt32) :
    dumpAt ((v.ranges.filter (·.1)).map fun e => ((e.2.1, e.2.1), e.2.2.2)) (gid, gid) = v.gidBatches gid := by
  simp only [dumpAt, PolicyDump.gidBatches, List.filter_map, List.filter_filter, List.map_map]
  refine congrArg₂ List.map rfl (List.filter_congr fun e _ => ?_)
  cases e.1 <;> simp

variable {registry : PolicyRegistry} {v : PolicyDump}

/-- The first batch of a snapshot is that of the user, or the one of all users. -/
theorem PolicyRegistry.Holds.user (h : registry.Holds v) (uid : UInt32) :
    ((registry.uidTree.find? (uid, uid)).getD registry.defaultBatch).Holds
      (if v.uidBatches uid = [] then v.uidBatches (-1) else v.uidBatches uid) := by
  by_cases huid : uid = -1
  · have hnone : registry.uidTree.find? (uid, uid) = none := by
      cases hfind : registry.uidTree.find? (uid, uid) with
      | none => rfl
      | some batch =>
        refine absurd ?_ (h.uid.holds _ batch hfind).2
        simp [dumpAt, huid, List.filter_map, List.filter_filter]
    rw [hnone, huid, ite_self]
    exact h.default
  · cases hfind : registry.uidTree.find? (uid, uid) with
    | none =>
      have hnil := h.uid.dumpAt_eq_nil hfind
      rw [dumpAt_uids v huid] at hnil
      rw [if_pos hnil]
      exact h.default
    | some batch =>
      obtain ⟨hholds, hne⟩ := h.uid.holds _ batch hfind
      rw [dumpAt_uids v huid] at hholds hne
      rw [if_neg hne]
      exact hholds

/-- The batches of the groups of a peer. -/
theorem PolicyRegistry.Holds.groups (h : registry.Holds v) (gids : List UInt32) :
    List.Forall₂ PolicyBatch.Holds (gids.filterMap fun gid => registry.gidTree.find? (gid, gid))
      (gids.filterMap fun gid => (registry.gidTree.find? (gid, gid)).map fun _ => v.gidBatches gid) ∧
    (gids.filterMap fun gid => (registry.gidTree.find? (gid, gid)).map fun _ => v.gidBatches gid).flatten =
      gids.flatMap v.gidBatches := by
  induction gids with
  | nil => exact ⟨.nil, rfl⟩
  | cons gid rest ih =>
    obtain ⟨hrest, hflat⟩ := ih
    rw [List.flatMap_cons]
    cases hfind : registry.gidTree.find? (gid, gid) with
    | none =>
      have hnil := h.gid.dumpAt_eq_nil hfind
      rw [dumpAt_gids] at hnil
      simp only [List.filterMap_cons, hfind, hnil, Option.map_none, List.nil_append]
      exact ⟨hrest, hflat⟩
    | some batch =>
      have hholds := (h.gid.holds _ batch hfind).1
      rw [dumpAt_gids] at hholds
      simp only [List.filterMap_cons, hfind, Option.map_some]
      exact ⟨.cons hholds hrest, by rw [List.flatten_cons, hflat]⟩

/-- The batches of a tree whose index meets a condition hold the parts whose index does. -/
theorem TreeHolds.filter {tree : SearchTree policyRegistryNodeCompare PolicyBatch}
    {parts : List ((UInt32 × UInt32) × PolicyDumpBatch)} (h : TreeHolds tree parts) (p : UInt32 × UInt32 → Bool) :
    List.Forall₂ PolicyBatch.Holds ((tree.entries.filter fun node => p node.1).map Prod.snd)
      ((tree.entries.filter fun node => p node.1).map fun node => dumpAt parts node.1) ∧
    ((tree.entries.filter fun node => p node.1).map fun node => dumpAt parts node.1).flatten.Perm
      ((parts.filter fun part => p part.1).map Prod.snd) := by
  refine ⟨?_, ?_⟩
  · rw [List.forall₂_map_left_iff, List.forall₂_map_right_iff, List.forall₂_same]
    intro node hnode
    exact (h.holds node.1 node.2 ((tree.find?_eq_some_iff _ _).mpr (List.mem_of_mem_filter hnode))).1
  · have hnodup : ((tree.entries.filter fun node => p node.1).map Prod.fst).Nodup :=
      tree.nodup_keys.sublist (List.filter_sublist.map Prod.fst)
    have hperm := flatMap_dumpAt_perm parts hnodup
    rw [List.flatMap_map, ← List.flatMap_def] at *
    refine hperm.trans (List.Perm.of_eq (congrArg₂ List.map rfl (List.filter_congr fun part hpart => ?_)))
    obtain ⟨batch, hbatch⟩ := Option.isSome_iff_exists.mp (h.found part hpart)
    have hentry := (tree.find?_eq_some_iff _ _).mp hbatch
    rw [Bool.eq_iff_iff, decide_eq_true_iff]
    refine ⟨fun hmem => ?_, fun hp => List.mem_map.mpr ⟨_, List.mem_filter.mpr ⟨hentry, hp⟩, rfl⟩⟩
    obtain ⟨node, hnode, hkey⟩ := List.mem_map.mp hmem
    exact hkey ▸ (List.mem_filter.mp hnode).2

/-- The parts of a message that are about the user of a peer. -/
def PolicyDump.userBatches (v : PolicyDump) (uid : UInt32) : List PolicyDumpBatch :=
  if v.uidBatches uid = [] then v.uidBatches (-1) else v.uidBatches uid

/-- The batches of a snapshot hold exactly the parts of the message that concern the peer. Each holds those of
the user, those of a group, or some of those of the ranges of users. -/
theorem PolicyRegistry.Holds.snapshot (h : registry.Holds v) (uid : UInt32) (gids : List UInt32) :
    ∃ groups : List (List PolicyDumpBatch),
      List.Forall₂ PolicyBatch.Holds (policySnapshotNew registry uid gids) groups ∧
        groups.flatten.Perm (v.batches uid gids) ∧
        ∀ group ∈ groups, group = v.userBatches uid ∨ (∃ gid ∈ gids, group = v.gidBatches gid) ∨
          ∀ part ∈ group, part ∈ v.rangeBatches uid := by
  obtain ⟨hranges, hrangesPerm⟩ := h.range.filter fun index => index.1 ≤ uid && uid ≤ index.2
  obtain ⟨hgroups, hgroupsFlat⟩ := h.groups gids.reverse
  have hrange : ((registry.uidRangeTree.entries.filter fun node => node.1.1 ≤ uid && uid ≤ node.1.2).map fun node =>
      dumpAt ((v.ranges.filter (!·.1)).map fun e => ((e.2.1, e.2.2.1), e.2.2.2)) node.1).flatten.Perm
        (v.rangeBatches uid) := by
    refine hrangesPerm.trans (List.Perm.of_eq ?_)
    simp only [PolicyDump.rangeBatches, List.filter_map, List.filter_filter, List.map_map]
    refine congrArg₂ List.map rfl (List.filter_congr fun e _ => ?_)
    cases e.1 <;> simp
  refine ⟨v.userBatches uid :: _ ++ _, List.rel_append (.cons (h.user uid) hranges) hgroups, ?_, fun group hgroup => ?_⟩
  · rw [List.flatten_append, List.flatten_cons, hgroupsFlat, PolicyDump.batches]
    exact List.Perm.append (List.Perm.append_left _ hrange) ((List.reverse_perm gids).flatMap_right _)
  · rcases List.mem_append.mp hgroup with hgroup | hgroup
    · rcases List.mem_cons.mp hgroup with rfl | hgroup
      · exact .inl rfl
      · exact .inr (.inr fun part hpart => hrange.mem_iff.mp (List.mem_flatten.mpr ⟨group, hgroup, hpart⟩))
    · obtain ⟨gid, hgid, hsome⟩ := List.mem_filterMap.mp hgroup
      obtain ⟨_, -, rfl⟩ := Option.map_eq_some_iff.mp hsome
      exact .inr (.inl ⟨gid, List.mem_reverse.mp hgid, rfl⟩)

/-- A batch of a list of batches holds one of the groups of parts. -/
theorem exists_group_of_mem {snapshot : List PolicyBatch} {groups : List (List PolicyDumpBatch)}
    (h : List.Forall₂ PolicyBatch.Holds snapshot groups) {batch : PolicyBatch} (hbatch : batch ∈ snapshot) :
    ∃ group ∈ groups, batch.Holds group := by
  induction h with
  | nil => exact absurd hbatch List.not_mem_nil
  | @cons b group snapshot groups hholds _ ih =>
    rcases List.mem_cons.mp hbatch with rfl | hbatch
    · exact ⟨group, List.mem_cons_self, hholds⟩
    · obtain ⟨g, hg, hholds'⟩ := ih hbatch
      exact ⟨g, List.mem_cons_of_mem group hg, hholds'⟩

/-- A group of parts is held by one of the batches. -/
theorem exists_batch_of_group {snapshot : List PolicyBatch} {groups : List (List PolicyDumpBatch)}
    (h : List.Forall₂ PolicyBatch.Holds snapshot groups) {group : List PolicyDumpBatch} (hgroup : group ∈ groups) :
    ∃ batch ∈ snapshot, batch.Holds group := by
  induction h with
  | nil => exact absurd hgroup List.not_mem_nil
  | @cons batch g snapshot groups hholds _ ih =>
    rcases List.mem_cons.mp hgroup with rfl | hgroup
    · exact ⟨batch, List.mem_cons_self, hholds⟩
    · obtain ⟨b, hb, hholds'⟩ := ih hgroup
      exact ⟨b, List.mem_cons_of_mem batch hb, hholds'⟩

end DbusBroker
