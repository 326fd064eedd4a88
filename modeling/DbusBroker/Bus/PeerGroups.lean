import DbusBroker.Bus.Policy
import DbusBroker.Lib.Compaction
import Mathlib.Data.List.Dedup
import Mathlib.Data.List.Perm.Subperm

/-!
# The groups of a peer

`sockopt_get_peergroups` of `util/sockopt.c` as far as the kernel answers `SO_PEERGROUPS`, and the
use that `policy_snapshot_new` makes of the result. The groups are sorted and deduplicated in
place, but the number that is returned is the one from before.
-/

namespace DbusBroker

/-- `gid_compare`. -/
def gidCompare (a b : UInt32) : Ordering := if a < b then .lt else if b < a then .gt else .eq

/-- `sockopt_get_peergroups` with the groups that the kernel returned: the array, and the number of its entries. -/
def sockoptGetPeergroups (primaryGid : UInt32) (groups : List UInt32) : List UInt32 × ℕ :=
  let nGids := 1 + groups.length
  let gids := (primaryGid :: groups).mergeSort fun a b => gidCompare a b != .gt
  let (_, gids) := Compaction.compact 0 gids
  (gids, nGids)

/-- The groups as the caller gets them. -/
def peergroups (primaryGid : UInt32) (groups : List UInt32) : List UInt32 :=
  (sockoptGetPeergroups primaryGid groups).1.take (sockoptGetPeergroups primaryGid groups).2

/-- A list of groups is the set of the primary group and the others, and each of them contributes its policy once. -/
structure GroupSet (primaryGid : UInt32) (groups gids : List UInt32) : Prop where
  sorted : gids.Pairwise (· < ·)
  mem : ∀ g, g ∈ gids ↔ g = primaryGid ∨ g ∈ groups
  once : ∀ (registry : PolicyRegistry) (uid : UInt32),
    (policySnapshotNew registry uid gids).length =
      (policySnapshotNew registry uid []).length +
        (primaryGid :: groups).dedup.countP fun g => (registry.gidTree.find? (g, g)).isSome

section sorting

variable {primaryGid : UInt32} {groups gids : List UInt32}

theorem gidCompare_ne_gt_iff (a b : UInt32) : (gidCompare a b != .gt) = true ↔ a ≤ b := by
  rw [gidCompare]
  by_cases hlt : a < b
  · rw [if_pos hlt]
    exact iff_of_true rfl (UInt32.le_of_lt hlt)
  · rw [if_neg hlt]
    by_cases hgt : b < a
    · rw [if_pos hgt]
      exact iff_of_false (by decide) (UInt32.not_le.mpr hgt)
    · rw [if_neg hgt]
      exact iff_of_true rfl (UInt32.not_lt.mp hgt)

/-- The groups in order. -/
theorem pairwise_mergeSort_gids (gids : List UInt32) :
    (gids.mergeSort fun a b => gidCompare a b != .gt).Pairwise (· ≤ ·) := by
  have htrans (a b c : UInt32) (hab : (gidCompare a b != .gt) = true) (hbc : (gidCompare b c != .gt) = true) :
      (gidCompare a c != .gt) = true :=
    (gidCompare_ne_gt_iff a c).mpr
      (UInt32.le_trans ((gidCompare_ne_gt_iff a b).mp hab) ((gidCompare_ne_gt_iff b c).mp hbc))
  have htotal (a b : UInt32) : (gidCompare a b != .gt || gidCompare b a != .gt) = true := by
    rw [Bool.or_eq_true, gidCompare_ne_gt_iff, gidCompare_ne_gt_iff]
    exact UInt32.le_total a b
  exact (List.pairwise_mergeSort htrans htotal gids).imp fun hab => (gidCompare_ne_gt_iff _ _).mp hab

theorem nodup_of_pairwise_lt (hsorted : gids.Pairwise (· < ·)) : gids.Nodup :=
  hsorted.imp fun hlt => UInt32.ne_of_lt hlt

/-- A strictly sorted list with the right members contributes every policy once. -/
theorem groupSet_of_sorted (hsorted : gids.Pairwise (· < ·)) (hmem : ∀ g, g ∈ gids ↔ g = primaryGid ∨ g ∈ groups) :
    GroupSet primaryGid groups gids := by
  refine ⟨hsorted, hmem, fun registry uid => ?_⟩
  have hperm : gids.Perm (primaryGid :: groups).dedup := by
    refine (List.perm_ext_iff_of_nodup (nodup_of_pairwise_lt hsorted) (List.nodup_dedup _)).mpr fun g => ?_
    rw [hmem, List.mem_dedup, List.mem_cons]
  have hcount := hperm.countP_eq fun g => (registry.gidTree.find? (g, g)).isSome
  rw [policySnapshotNew, policySnapshotNew, List.length_append, List.length_append,
    List.length_filterMap_eq_countP, List.countP_reverse, hcount]
  rfl

/-- The groups are a permutation of what the kernel returned, with the primary one, before they are deduplicated. -/
theorem mem_mergeSort_gids (g : UInt32) :
    (g ∈ (primaryGid :: groups).mergeSort fun a b => gidCompare a b != .gt) ↔ g = primaryGid ∨ g ∈ groups := by
  rw [List.mem_mergeSort, List.mem_cons]

/-- The array has as many entries as the number that is returned. -/
theorem length_sockoptGetPeergroups (primaryGid : UInt32) (groups : List UInt32) :
    (sockoptGetPeergroups primaryGid groups).1.length = (sockoptGetPeergroups primaryGid groups).2 := by
  change (Compaction.compact 0 _).2.length = 1 + groups.length
  rw [Compaction.length_compact, List.length_mergeSort, List.length_cons, Nat.add_comm]

/-- What is left of the array behind the set of the groups is all that is wrong with it. -/
theorem sockoptGetPeergroups_eq (primaryGid : UInt32) (groups : List UInt32) :
    ∃ kept stale, sockoptGetPeergroups primaryGid groups = (kept ++ stale, kept.length + stale.length) ∧
      GroupSet primaryGid groups kept := by
  have hne : ((primaryGid :: groups).mergeSort fun a b => gidCompare a b != .gt) ≠ [] := by
    rw [← List.length_pos_iff, List.length_mergeSort]
    exact Nat.succ_pos _
  obtain ⟨kept, stale, hcompact, hlength, hstrict, hmem⟩ :=
    Compaction.compact_eq (fun a b hab hba => UInt32.le_antisymm hab hba) 0 (pairwise_mergeSort_gids _) hne
  have hsorted : kept.Pairwise (· < ·) := hstrict.imp fun hab => UInt32.lt_of_le_of_ne hab.1 hab.2
  refine ⟨kept, stale, ?_, groupSet_of_sorted hsorted fun g => (hmem g).trans (mem_mergeSort_gids g)⟩
  rw [hlength, List.length_mergeSort, List.length_cons, Nat.add_comm, sockoptGetPeergroups, hcompact]

end sorting

/-- The groups of a peer are a set exactly if the kernel repeats no group and does not list the primary one. -/
theorem groupSet_peergroups_iff (primaryGid : UInt32) (groups : List UInt32) :
    GroupSet primaryGid groups (peergroups primaryGid groups) ↔ (primaryGid :: groups).Nodup := by
  have hwhole : peergroups primaryGid groups = (sockoptGetPeergroups primaryGid groups).1 := by
    rw [peergroups, ← length_sockoptGetPeergroups, List.take_length]
  have hlength : (peergroups primaryGid groups).length = (primaryGid :: groups).length := by
    rw [hwhole, length_sockoptGetPeergroups, List.length_cons, Nat.add_comm]
    rfl
  constructor
  · intro h
    have hsubset : peergroups primaryGid groups ⊆ primaryGid :: groups := fun g hg =>
      List.mem_cons.mpr ((h.mem g).mp hg)
    have hperm := (List.subperm_of_subset (nodup_of_pairwise_lt h.sorted) hsubset).perm_of_length_le
      (Nat.le_of_eq hlength.symm)
    exact hperm.nodup_iff.mp (nodup_of_pairwise_lt h.sorted)
  · intro hnodup
    obtain ⟨kept, stale, heq, hkept⟩ := sockoptGetPeergroups_eq primaryGid groups
    have hsubset : primaryGid :: groups ⊆ kept := fun g hg => (hkept.mem g).mpr (List.mem_cons.mp hg)
    have hle := (List.subperm_of_subset hnodup hsubset).length_le
    have hstale : stale = [] := by
      have hsum : kept.length + stale.length = (primaryGid :: groups).length := by
        rw [← hlength, hwhole, length_sockoptGetPeergroups, heq]
      exact List.eq_nil_of_length_eq_zero (by omega)
    rw [hwhole, heq, hstale, List.append_nil]
    exact hkept

/-- The primary group is also an auxiliary one: it is returned twice, and its policy is taken twice. -/
theorem peergroups_repeated :
    peergroups 5 [5] = [5, 5] ∧ ¬GroupSet 5 [5] (peergroups 5 [5]) := by
  have hsort : ([5, 5] : List UInt32).mergeSort (fun a b => gidCompare a b != .gt) = [5, 5] :=
    List.mergeSort_of_pairwise (by decide)
  have hreturned : peergroups 5 [5] = [5, 5] := by
    rw [peergroups, sockoptGetPeergroups, hsort]
    decide
  refine ⟨hreturned, fun h => ?_⟩
  rw [hreturned] at h
  exact absurd h.sorted (by decide)

end DbusBroker
