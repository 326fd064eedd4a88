import DbusBroker.Launch.PolicyExport

/-!
# Optimizing connect records

A peer is allowed to connect by the strongest of the connect records for everyone, for its user and for its groups.
What the launcher drops of these lists is never the strongest record of any peer, and at most one record is left of
each list.
-/

namespace DbusBroker.Launch

open Strongest

/-- A policy after some imports, each for a launcher. -/
def policyImportAll (imports : List (UInt32 × List ConfigNode)) : Policy :=
  imports.foldl (fun policy source => policyImport source.1 policy source.2) .init

/-- The connect records for everyone and at some places. -/
def Policy.connectRecords (policy : Policy) (places : List PolicyPlace) : List PolicyVerdict :=
  policy.defaultEntries.connectList ++ places.flatMap fun place => (policy.entriesAt place).connectList

/-- The connect records that apply to a user with some groups. -/
def Policy.applicableRecords (policy : Policy) (uid : UInt32) (gids : List UInt32) : List PolicyVerdict :=
  policy.connectRecords (.uid uid :: gids.map .gid)

/-- The stronger one of a record so far and another one. -/
def stronger (top : Option PolicyVerdict) (record : PolicyVerdict) : Option PolicyVerdict :=
  match top with
  | none => some record
  | some top => if top.priority < record.priority then some record else some top

section Top

variable {top best : Option PolicyVerdict} {list : List PolicyVerdict}

/-- The top of a list by its records in turn. -/
theorem policyListFindTop_eq (list : List PolicyVerdict) : policyListFindTop list = list.foldl stronger none := rfl

/-- Of three records the strongest is found in two ways. -/
theorem stronger_stronger (top : Option PolicyVerdict) (first record : PolicyVerdict) :
    stronger (stronger top first) record = (stronger (some first) record).elim top (stronger top) := by
  cases top with
  | none =>
    rw [stronger, stronger]
    split <;> rfl
  | some top =>
    by_cases hfirst : top.priority < first.priority
    · by_cases hrecord : first.priority < record.priority
      · have htop : top.priority < record.priority := by
          rw [UInt64.lt_iff_toNat_lt] at hfirst hrecord ⊢
          exact hfirst.trans hrecord
        simp only [stronger, if_pos hfirst, if_pos hrecord, if_pos htop, Option.elim_some]
      · simp only [stronger, if_pos hfirst, if_neg hrecord, Option.elim_some]
    · by_cases hrecord : first.priority < record.priority
      · simp only [stronger, if_neg hfirst, if_pos hrecord, Option.elim_some]
      · have htop : ¬ top.priority < record.priority := by
          rw [UInt64.lt_iff_toNat_lt] at hfirst hrecord ⊢
          omega
        simp only [stronger, if_neg hfirst, if_neg hrecord, if_neg htop, Option.elim_some]

/-- The records of a list compete as its top does. -/
theorem foldl_stronger (top : Option PolicyVerdict) (list : List PolicyVerdict) :
    list.foldl stronger top = (policyListFindTop list).elim top (stronger top) := by
  induction list using List.reverseRecOn generalizing top with
  | nil => rfl
  | append_singleton rest record ih =>
    rw [policyListFindTop_eq, List.foldl_append, List.foldl_append, List.foldl_cons, List.foldl_cons, List.foldl_nil,
      List.foldl_nil, ih top, ← policyListFindTop_eq]
    cases policyListFindTop rest with
    | none => rfl
    | some first => rw [Option.elim_some, stronger_stronger]

/-- A record so far is no weaker than the top of the default list. -/
def Covers (topDefault top : Option PolicyVerdict) : Prop :=
  ∀ default, topDefault = some default → ∃ record, top = some record ∧ default.rank ≤ record.rank

/-- It stays so. -/
theorem Covers.foldl {topDefault : Option PolicyVerdict} (h : Covers topDefault top) (list : List PolicyVerdict) :
    Covers topDefault (list.foldl stronger top) := by
  induction list generalizing top with
  | nil => exact h
  | cons record rest ih =>
    apply ih
    intro default hdefault
    obtain ⟨best, hbest, hle⟩ := h default hdefault
    rw [hbest, stronger]
    by_cases hless : best.priority < record.priority
    · rw [if_pos hless]
      exact ⟨record, rfl, hle.trans (UInt64.lt_iff_toNat_lt.mp hless).le⟩
    · rw [if_neg hless]
      exact ⟨best, rfl, hle⟩

/-- A node that was optimized competes as before. -/
theorem Covers.foldl_policyOptimizeNode {topDefault : Option PolicyVerdict} (h : Covers topDefault top)
    (entries : PolicyEntries) :
    (policyOptimizeNode topDefault entries).connectList.foldl stronger top = entries.connectList.foldl stronger top := by
  rw [foldl_stronger top entries.connectList]
  unfold policyOptimizeNode
  obtain ⟨htop, -⟩ | ⟨record, -, htop, -⟩ := policyListFindTop_spec entries.connectList
  · rw [htop]
    rfl
  · rw [htop]
    cases topDefault with
    | none => rfl
    | some default =>
      dsimp only
      by_cases hle : record.priority ≤ default.priority
      · obtain ⟨best, hbest, hcovers⟩ := h default rfl
        have hweak : ¬ best.priority < record.priority := by
          rw [UInt64.lt_iff_toNat_lt]
          exact not_lt.mpr ((UInt64.le_iff_toNat_le.mp hle).trans hcovers)
        rw [if_pos hle, hbest, Option.elim_some, stronger, if_neg hweak]
        rfl
      · rw [if_neg hle]
        rfl

end Top

section Optimize

variable (policy : Policy)

/-- What is left at the place of a user or a group. -/
theorem entriesAt_policyOptimize_node : (∀ uid, (policyOptimize policy).entriesAt (.uid uid) = policy.optimizedAt (.uid uid)) ∧
    ∀ gid, (policyOptimize policy).entriesAt (.gid gid) = policy.optimizedAt (.gid gid) := by
  have hgetD (entries : PolicyEntries) : (if entries.isEmpty then none else some entries).getD .null = entries := by
    by_cases hempty : entries.isEmpty = true
    · rw [if_pos hempty, PolicyEntries.eq_null_of_isEmpty hempty]
      rfl
    · rw [if_neg hempty]
      rfl
  obtain ⟨huid, hgid⟩ := find?_policyOptimize policy
  constructor
  · intro uid
    rw [Policy.entriesAt, huid, hgetD]
  · intro gid
    rw [Policy.entriesAt, hgid, hgetD]

/-- The strongest of the records for everyone and at the places of users and groups stays the same. -/
theorem policyListFindTop_connectRecords {places : List PolicyPlace}
    (hplaces : ∀ place ∈ places, (policyOptimize policy).entriesAt place = policy.optimizedAt place) :
    policyListFindTop ((policyOptimize policy).connectRecords places) =
      policyListFindTop (policy.connectRecords places) := by
  obtain ⟨topDefault, htopDefault⟩ : ∃ topDefault, policyListFindTop policy.defaultEntries.connectList = topDefault :=
    ⟨_, rfl⟩
  have hdefault : (policyOptimize policy).defaultEntries.connectList = topDefault.toList :=
    congrArg Option.toList htopDefault
  have hfirst : topDefault.toList.foldl stronger none = topDefault := by cases topDefault <;> rfl
  have hplacesFold (top : Option PolicyVerdict) (hcovers : Covers topDefault top) :
      (places.flatMap fun place => ((policyOptimize policy).entriesAt place).connectList).foldl stronger top =
        (places.flatMap fun place => (policy.entriesAt place).connectList).foldl stronger top := by
    induction places generalizing top with
    | nil => rfl
    | cons place rest ih =>
      rw [List.flatMap_cons, List.flatMap_cons, List.foldl_append, List.foldl_append,
        hplaces place List.mem_cons_self, Policy.optimizedAt, htopDefault, hcovers.foldl_policyOptimizeNode]
      exact ih (fun other hother => hplaces other (List.mem_cons_of_mem place hother)) _ (hcovers.foldl _)
  rw [policyListFindTop_eq, policyListFindTop_eq, Policy.connectRecords, Policy.connectRecords, List.foldl_append,
    List.foldl_append, hdefault, hfirst, ← policyListFindTop_eq policy.defaultEntries.connectList, htopDefault]
  exact hplacesFold topDefault fun default hdefault => ⟨default, hdefault, le_refl _⟩

/-- Every record that is left was there before. -/
theorem mem_optimizedAt {place : PolicyPlace} {record : PolicyVerdict}
    (h : record ∈ (policy.optimizedAt place).connectList) : record ∈ (policy.entriesAt place).connectList := by
  unfold Policy.optimizedAt policyOptimizeNode at h
  obtain ⟨htop, hnil⟩ | ⟨top, hmem, htop, -⟩ := policyListFindTop_spec (policy.entriesAt place).connectList
  · rw [htop] at h
    exact absurd h List.not_mem_nil
  · rw [htop] at h
    cases hdefault : policyListFindTop policy.defaultEntries.connectList with
    | none =>
      rw [hdefault] at h
      rw [List.mem_singleton.mp h]
      exact hmem
    | some default =>
      rw [hdefault] at h
      dsimp only at h
      by_cases hle : top.priority ≤ default.priority
      · rw [if_pos hle] at h
        exact absurd h List.not_mem_nil
      · rw [if_neg hle] at h
        rw [List.mem_singleton.mp h]
        exact hmem

/-- Optimizing keeps the strongest of the records that apply to a user with some groups, and every record that is a
strongest one then was one before. -/
theorem applicableRecords_policyOptimize (uid : UInt32) (gids : List UInt32) :
    policyListFindTop ((policyOptimize policy).applicableRecords uid gids) =
        policyListFindTop (policy.applicableRecords uid gids) ∧
      ∀ record, Greatest PolicyVerdict.rank ((policyOptimize policy).applicableRecords uid gids) record →
        Greatest PolicyVerdict.rank (policy.applicableRecords uid gids) record := by
  obtain ⟨huid, hgid⟩ := entriesAt_policyOptimize_node policy
  have hplaces : ∀ place ∈ PolicyPlace.uid uid :: gids.map PolicyPlace.gid,
      (policyOptimize policy).entriesAt place = policy.optimizedAt place := by
    intro place hplace
    obtain rfl | hplace := List.mem_cons.mp hplace
    · exact huid uid
    · obtain ⟨gid, -, rfl⟩ := List.mem_map.mp hplace
      exact hgid gid
  have htop := policyListFindTop_connectRecords policy hplaces
  refine ⟨htop, fun record hrecord => ?_⟩
  have hmem : record ∈ policy.applicableRecords uid gids := by
    obtain hdefault | hnode := List.mem_append.mp hrecord.mem
    · obtain ⟨hnone, -⟩ | ⟨top, htop, hsome, -⟩ := policyListFindTop_spec policy.defaultEntries.connectList
      · have hnil : (policyOptimize policy).defaultEntries.connectList = [] := congrArg Option.toList hnone
        rw [hnil] at hdefault
        exact absurd hdefault List.not_mem_nil
      · have hsingle : (policyOptimize policy).defaultEntries.connectList = [top] := congrArg Option.toList hsome
        rw [hsingle, List.mem_singleton] at hdefault
        rw [hdefault]
        exact List.mem_append_left _ htop
    · obtain ⟨place, hplace, hnode⟩ := List.mem_flatMap.mp hnode
      rw [hplaces place hplace] at hnode
      exact List.mem_append_right _ (List.mem_flatMap.mpr ⟨place, hplace, mem_optimizedAt policy hnode⟩)
  refine ⟨hmem, fun other hother => ?_⟩
  -- the top is among the records that are left, and no record is stronger
  obtain ⟨hnone, hnil⟩ | ⟨top, -, hsome, hle⟩ := policyListFindTop_spec (policy.applicableRecords uid gids)
  · rw [hnil] at hother
    exact absurd hother List.not_mem_nil
  · obtain ⟨hnone', -⟩ | ⟨top', hmem', hsome', -⟩ :=
      policyListFindTop_spec ((policyOptimize policy).applicableRecords uid gids)
    · exact absurd (hnone'.symm.trans (htop.trans hsome)) (Option.some_ne_none top).symm
    · have heq : top' = top := Option.some.inj (hsome'.symm.trans (htop.trans hsome))
      exact (hle other hother).trans (heq ▸ hrecord.le top' hmem')

end Optimize

section Imports

/-- Imports file no connect record for a side of the console. -/
theorem console_policyImportAll (imports : List (UInt32 × List ConfigNode)) :
    ((policyImportAll imports).entriesAt .atConsole).connectList = [] ∧
      ((policyImportAll imports).entriesAt .noConsole).connectList = [] := by
  have hlink (policy : Policy) (rule : PolicyRule) (h : (policy.entriesAt .atConsole).connectList = [] ∧
      (policy.entriesAt .noConsole).connectList = [])
      (hrule : rule.connect?.isSome → rule.place ≠ some .atConsole ∧ rule.place ≠ some .noConsole) :
      ((policy.link rule).entriesAt .atConsole).connectList = [] ∧
        ((policy.link rule).entriesAt .noConsole).connectList = [] := by
    have hadd (place : PolicyPlace) (hnil : (policy.entriesAt place).connectList = [])
        (hplace : rule.connect?.isSome → rule.place ≠ some place) :
        ((policy.link rule).entriesAt place).connectList = [] := by
      rw [Policy.entriesAt_link]
      by_cases heq : rule.place = some place
      · rw [if_pos heq]
        cases hrecord : rule.record with
        | connect verdict =>
          have hsome : rule.connect?.isSome := by rw [PolicyRule.connect?, hrecord]; rfl
          exact absurd heq (hplace hsome)
        | own record => exact hnil
        | send record => exact hnil
        | recv record => exact hnil
      · rw [if_neg heq]
        exact hnil
    exact ⟨hadd .atConsole h.1 fun hsome => (hrule hsome).1, hadd .noConsole h.2 fun hsome => (hrule hsome).2⟩
  have hnodes (root : List ConfigNode) (policy : Policy) (h : (policy.entriesAt .atConsole).connectList = [] ∧
      (policy.entriesAt .noConsole).connectList = []) :
      ((root.foldl policyImportNode policy).entriesAt .atConsole).connectList = [] ∧
        ((root.foldl policyImportNode policy).entriesAt .noConsole).connectList = [] := by
    induction root generalizing policy with
    | nil => exact h
    | cons node rest ih =>
      rw [List.foldl_cons, policyImportNode_eq]
      cases hrule : policyRule (policy.iPriority + 1) node with
      | none => exact ih policy h
      | some rule => exact ih _ (hlink policy rule h fun hsome => place_ne_console_of_policyRule hrule hsome)
  induction imports using List.reverseRecOn with
  | nil => exact ⟨rfl, rfl⟩
  | append_singleton rest source ih =>
    rw [policyImportAll, List.foldl_append, ← policyImportAll]
    apply hnodes
    exact ⟨ih.1, ih.2⟩

/-- After any imports, optimizing leaves one connect record at most in every list that is exported, and keeps the
strongest connect record of every user with any groups. -/
theorem policyOptimize_connect (imports : List (UInt32 × List ConfigNode)) :
    (∀ place, ((policyOptimize (policyImportAll imports)).entriesAt place).connectList.length ≤ 1) ∧
      ∀ (uid : UInt32) (gids : List UInt32),
        policyListFindTop ((policyOptimize (policyImportAll imports)).applicableRecords uid gids) =
            policyListFindTop ((policyImportAll imports).applicableRecords uid gids) ∧
          ∀ record, Greatest PolicyVerdict.rank ((policyOptimize (policyImportAll imports)).applicableRecords uid gids)
              record →
            Greatest PolicyVerdict.rank ((policyImportAll imports).applicableRecords uid gids) record := by
  refine ⟨fun place => ?_, applicableRecords_policyOptimize _⟩
  obtain ⟨huid, hgid⟩ := entriesAt_policyOptimize_node (policyImportAll imports)
  obtain ⟨hat, hno⟩ := console_policyImportAll imports
  cases place with
  | everyone =>
    have hlength (record : Option PolicyVerdict) : record.toList.length ≤ 1 := by cases record <;> simp
    exact hlength _
  | atConsole =>
    have hnil : ((policyOptimize (policyImportAll imports)).entriesAt .atConsole).connectList = [] := hat
    rw [hnil]
    exact Nat.zero_le 1
  | noConsole =>
    have hnil : ((policyOptimize (policyImportAll imports)).entriesAt .noConsole).connectList = [] := hno
    rw [hnil]
    exact Nat.zero_le 1
  | uid uid =>
    rw [huid]
    exact length_policyOptimizeNode _ _
  | gid gid =>
    rw [hgid]
    exact length_policyOptimizeNode _ _

end Imports

end DbusBroker.Launch
