import DbusBroker.Bus.PolicyImport

/-!
# Who may own a name

The check for a name walks its dotted prefixes and lets both kinds of own rules of each of them
compete. A rule for one name is thereby taken for the names below it as well, as a prefix rule
is, and the check is exact only where such a rule does not matter.
-/

namespace DbusBroker

open Strongest

/-- A name is another one, above it in the hierarchy of dotted names, or empty. -/
def NameAbove (x name : Bytes) : Prop := x = [] ∨ x = name ∨ x ++ [byte '.'] <+: name

instance (x name : Bytes) : Decidable (NameAbove x name) := inferInstanceAs (Decidable (_ ∨ _ ∨ _))

/-- An own record applies to a name: it is for this name, or for a prefix of it and the record is for prefixes. -/
def PolicyDumpOwn.Applies (r : PolicyDumpOwn) (name : Bytes) : Prop :=
  if r.isPrefix then NameAbove r.name name else r.name = name

instance (r : PolicyDumpOwn) (name : Bytes) : Decidable (r.Applies name) :=
  inferInstanceAs (Decidable (if r.isPrefix then NameAbove r.name name else r.name = name))

/-- The priority of an own record. -/
def PolicyDumpOwn.rank (r : PolicyDumpOwn) : ℕ := r.verdict.rank

/-- The own records of a policy message that concern a peer. -/
def PolicyDump.ownRecords (v : PolicyDump) (uid : UInt32) (gids : List UInt32) : List PolicyDumpOwn :=
  (v.batches uid gids).flatMap (·.own)

/-- Those that apply to a name. -/
def PolicyDump.ownApplicable (v : PolicyDump) (uid : UInt32) (gids : List UInt32) (name : Bytes) : List PolicyDumpOwn :=
  (v.ownRecords uid gids).filter fun r => decide (r.Applies name)

/-- Those that are filed under a name or a prefix of it, whatever their kind. -/
def PolicyDump.ownReached (v : PolicyDump) (uid : UInt32) (gids : List UInt32) (name : Bytes) : List PolicyDumpOwn :=
  (v.ownRecords uid gids).filter fun r => decide (NameAbove r.name name)

/-- A record that applies is filed under a prefix of the name. -/
theorem PolicyDumpOwn.Applies.above {r : PolicyDumpOwn} {name : Bytes} (h : r.Applies name) : NameAbove r.name name := by
  unfold PolicyDumpOwn.Applies at h
  split_ifs at h with hprefixes
  · exact h
  · exact .inr (.inl h)

/-- The comparison with a prefix of a string is that with the prefix as a string. -/
theorem policyPrefixCompare_eq (s : Bytes) (n : ℕ) (h : n ≤ s.length) (name : Bytes) :
    policyPrefixCompare s n name = strcmp (s.take n) name := by
  induction n generalizing s name with
  | zero => cases name <;> simp [policyPrefixCompare, strncmp, strcmp]
  | succ n ih =>
    cases s with
    | nil => simp at h
    | cons a as =>
      cases name with
      | nil => simp [policyPrefixCompare, strncmp, strcmp]
      | cons b bs =>
        have hrest := ih as (by simpa using h) bs
        simp only [policyPrefixCompare, strncmp, List.take_succ_cons, strcmp, List.length_cons,
          Nat.add_lt_add_iff_right] at hrest ⊢
        by_cases hab : a < b
        · simp only [if_pos hab]
        · by_cases hba : b < a
          · simp only [if_neg hab, if_pos hba]
          · simp only [if_neg hab, if_neg hba]
            exact hrest

/-- A search that compares in the same way finds the same. -/
theorem findEntry_congr {α : Type} {f g : Bytes → Bytes → Ordering} {k k' : Bytes} (h : ∀ name, f k name = g k' name)
    (entries : List (Bytes × α)) : SearchTree.findEntry f k entries = SearchTree.findEntry g k' entries := by
  induction entries with
  | nil => rfl
  | cons e rest ih =>
    obtain ⟨name, value⟩ := e
    simp only [SearchTree.findEntry, h, ih]

/-- The ends of prefixes are the end of the string and the places of the dots. -/
theorem mem_policyPrefixEnds (position : ℕ) (s : Bytes) (n : ℕ) :
    n ∈ policyPrefixEnds position s ↔
      ∃ a b, s = a ++ b ∧ n = position + a.length ∧ (b = [] ∨ [byte '.'] <+: b) := by
  induction s generalizing position with
  | nil => simp [policyPrefixEnds]
  | cons c rest ih =>
    have hlater : (∃ a b, rest = a ++ b ∧ n = position + 1 + a.length ∧ (b = [] ∨ [byte '.'] <+: b)) ↔
        ∃ a b, c :: rest = (c :: a) ++ b ∧ n = position + (c :: a).length ∧ (b = [] ∨ [byte '.'] <+: b) := by
      refine exists_congr fun a => exists_congr fun b => and_congr ?_ (and_congr ?_ Iff.rfl)
      · simp
      · rw [List.length_cons]
        omega
    unfold policyPrefixEnds
    by_cases hc : c = byte '.'
    · rw [if_pos hc, List.mem_cons, ih, hlater]
      refine ⟨?_, ?_⟩
      · rintro (rfl | ⟨a, b, hab⟩)
        · exact ⟨[], c :: rest, rfl, rfl, .inr ⟨rest, by simp [hc]⟩⟩
        · exact ⟨c :: a, b, hab⟩
      · rintro ⟨a, b, hab, hn, hb⟩
        cases a with
        | nil => exact .inl (by simpa using hn)
        | cons c' a =>
          obtain rfl : c' = c := by simpa using congrArg List.head? hab.symm
          exact .inr ⟨a, b, hab, hn, hb⟩
    · rw [if_neg hc, ih, hlater]
      refine ⟨fun ⟨a, b, hab⟩ => ⟨c :: a, b, hab⟩, ?_⟩
      rintro ⟨a, b, hab, hn, hb⟩
      cases a with
      | nil =>
        obtain rfl : c :: rest = b := hab
        rcases hb with hb | hb
        · cases hb
        · exact absurd (List.cons_prefix_cons.mp hb).1.symm hc
      | cons c' a =>
        obtain rfl : c' = c := by simpa using congrArg List.head? hab.symm
        exact ⟨a, b, hab, hn, hb⟩

/-- The walk ends within the string. -/
theorem le_length_of_mem_policyOwnEnds {s : Bytes} {n : ℕ} (h : n ∈ policyOwnEnds s) : n ≤ s.length := by
  cases s with
  | nil => simpa [policyOwnEnds] using h
  | cons c rest =>
    rcases List.mem_cons.mp h with rfl | h
    · exact Nat.zero_le _
    · obtain ⟨a, b, hab, hn, -⟩ := (mem_policyPrefixEnds 1 rest n).mp h
      rw [hn, hab, List.length_cons, List.length_append]
      omega

/-- The walk visits the name and the names above it. -/
theorem mem_policyOwnEnds_take (name x : Bytes) : x ∈ (policyOwnEnds name).map name.take ↔ NameAbove x name := by
  cases name with
  | nil => simp [policyOwnEnds, NameAbove]
  | cons c rest =>
    simp only [policyOwnEnds, List.map_cons, List.take_zero, List.mem_cons, NameAbove]
    refine or_congr_right' fun hx => ?_
    obtain ⟨c', a, rfl⟩ := List.exists_cons_of_ne_nil hx
    simp only [List.mem_map, mem_policyPrefixEnds]
    refine ⟨?_, ?_⟩
    · rintro ⟨n, ⟨a', b, rfl, rfl, hb⟩, htake⟩
      rw [Nat.add_comm, List.take_succ_cons, List.take_left] at htake
      rw [← htake]
      rcases hb with rfl | ⟨t, rfl⟩
      · exact .inl (by simp)
      · exact .inr ⟨t, by simp⟩
    · rintro (heq | ⟨t, ht⟩)
      · exact ⟨_, ⟨rest, [], (List.append_nil rest).symm, rfl, .inl rfl⟩, by
          rw [heq, Nat.add_comm, List.take_succ_cons, List.take_length]⟩
      · simp only [List.cons_append, List.append_assoc, List.cons.injEq] at ht
        obtain ⟨rfl, rfl⟩ := ht
        exact ⟨_, ⟨a, byte '.' :: t, by simp, rfl, .inr ⟨t, rfl⟩⟩, by
          rw [Nat.add_comm, List.take_succ_cons, List.take_left]⟩

/-- The verdicts that the walk comes across. -/
def ownCandidates (snapshot : PolicySnapshot) (name : Bytes) : List PolicyVerdict :=
  snapshot.flatMap fun batch => ((policyOwnEnds name).map name.take).flatMap fun x =>
    [batch.ownVerdict false x, batch.ownVerdict true x]

/-- The verdict that is kept is the stronger one, the old one if they are equally strong. -/
theorem compete_rank (verdict new : PolicyVerdict) :
    compete PolicyVerdict.rank verdict new = if verdict.priority < new.priority then new else verdict := by
  unfold compete PolicyVerdict.rank
  exact if_congr UInt64.lt_iff_toNat_lt.symm rfl rfl

/-- At one prefix, both verdicts on it compete. -/
theorem policyCheckOwnPrefix_eq (batch : PolicyBatch) (name : Bytes) (verdict : PolicyVerdict) {n : ℕ}
    (h : n ≤ name.length) :
    policyCheckOwnPrefix batch name verdict n =
      pick PolicyVerdict.rank verdict [batch.ownVerdict false (name.take n), batch.ownVerdict true (name.take n)] := by
  have hsearch : SearchTree.findEntry (fun _ x => policyPrefixCompare name n x) name batch.nameTree.entries =
      batch.nameTree.find? (name.take n) := findEntry_congr (policyPrefixCompare_eq name n h) _
  simp only [policyCheckOwnPrefix, hsearch, pick_cons, pick_nil, compete_rank, PolicyBatch.ownVerdict, policyBatchAtName]
  cases batch.nameTree.find? (name.take n) with
  | none =>
    have hweak : ¬verdict.priority < PolicyVerdict.init.priority := UInt64.not_lt_zero
    simp [PolicyBatchName.null, hweak]
  | some x => simp

/-- The walks over the batches let the verdicts on all prefixes compete. -/
theorem foldl_policyCheckOwnPrefix (snapshot : PolicySnapshot) (name : Bytes) :
    snapshot.foldl (fun verdict batch => (policyOwnEnds name).foldl (policyCheckOwnPrefix batch name) verdict) .init =
      pick PolicyVerdict.rank .init (ownCandidates snapshot name) := by
  rw [ownCandidates, pick_flatMap]
  congr 1
  funext verdict batch
  rw [pick_flatMap, List.foldl_map]
  have hends (ends : List ℕ) (h : ∀ n ∈ ends, n ≤ name.length) (verdict : PolicyVerdict) :
      ends.foldl (policyCheckOwnPrefix batch name) verdict =
        ends.foldl (fun best n => pick PolicyVerdict.rank best
          [batch.ownVerdict false (name.take n), batch.ownVerdict true (name.take n)]) verdict := by
    induction ends generalizing verdict with
    | nil => rfl
    | cons n rest ih =>
      rw [List.foldl_cons, List.foldl_cons, policyCheckOwnPrefix_eq batch name verdict (h n List.mem_cons_self)]
      exact ih (fun k hk => h k (List.mem_cons_of_mem n hk)) _
  exact hends _ (fun n => le_length_of_mem_policyOwnEnds) verdict

/-- The verdict that is remembered of some records is one of theirs, and no weaker than any. -/
theorem foldl_supersede (old : PolicyVerdict) (verdicts : List PolicyVerdict) :
    (verdicts.foldl PolicyVerdict.supersede old = old ∨ verdicts.foldl PolicyVerdict.supersede old ∈ verdicts) ∧
    old.rank ≤ (verdicts.foldl PolicyVerdict.supersede old).rank ∧
    ∀ w ∈ verdicts, w.rank ≤ (verdicts.foldl PolicyVerdict.supersede old).rank := by
  induction verdicts generalizing old with
  | nil => exact ⟨.inl rfl, le_refl _, fun w hw => absurd hw List.not_mem_nil⟩
  | cons new rest ih =>
    obtain ⟨hmem, hold, hle⟩ := ih (old.supersede new)
    have hstep : (old.supersede new = old ∨ old.supersede new = new) ∧ old.rank ≤ (old.supersede new).rank ∧
        new.rank ≤ (old.supersede new).rank := by
      unfold PolicyVerdict.supersede PolicyVerdict.rank
      split_ifs with h
      · exact ⟨.inr rfl, UInt64.le_iff_toNat_le.mp h, le_refl _⟩
      · rw [UInt64.le_iff_toNat_le] at h
        exact ⟨.inl rfl, le_refl _, by omega⟩
    refine ⟨?_, hstep.2.1.trans hold, fun w hw => ?_⟩
    · rw [List.foldl_cons, List.mem_cons]
      rcases hmem with hmem | hmem
      · rw [hmem]
        exact hstep.1.imp id .inl
      · exact .inr (.inr hmem)
    · rcases List.mem_cons.mp hw with rfl | hw
      · exact hstep.2.2.trans hold
      · exact hle w hw

/-- The verdicts that the walk comes across are those of the records that it reaches. -/
theorem pick_ownCandidates {snapshot : PolicySnapshot} {groups : List (List PolicyDumpBatch)}
    (h : List.Forall₂ PolicyBatch.Holds snapshot groups) (name : Bytes) (reached : List PolicyDumpOwn)
    (hreached : ∀ r, r ∈ reached ↔ r ∈ groups.flatten.flatMap (·.own) ∧ NameAbove r.name name) :
    let winner := pick PolicyVerdict.rank .init (ownCandidates snapshot name)
    (winner = .init ∧ ∀ r ∈ reached, r.rank = 0) ∨
      ∃ e, Greatest PolicyDumpOwn.rank reached e ∧ 0 < e.rank ∧ winner = e.verdict := by
  have hdominates := @pick_dominates _ _ _ PolicyVerdict.rank .init (ownCandidates snapshot name)
    (reached.map (·.verdict)) (fun x hx hstrong => ?_) (fun y hy _ => ?_)
  · rcases hdominates with ⟨hinit, hweak⟩ | ⟨⟨hmem, hle⟩, hlt⟩
    · exact .inl ⟨hinit, fun r hr => Nat.le_zero.mp (hweak r.verdict (List.mem_map_of_mem hr))⟩
    · obtain ⟨e, he, heq⟩ := List.mem_map.mp hmem
      refine .inr ⟨e, ⟨he, fun r hr => ?_⟩, ?_, heq.symm⟩
      · have hr' := hle r.verdict (List.mem_map_of_mem hr)
        rw [← heq] at hr'
        exact hr'
      · rw [← heq] at hlt
        exact hlt
  · -- a verdict of a node is that of a record, unless there are no records
    simp only [ownCandidates, List.mem_flatMap] at hx
    obtain ⟨batch, hbatch, x', hx', hx⟩ := hx
    obtain ⟨kind, rfl⟩ : ∃ kind, x = batch.ownVerdict kind x' := by
      simp only [List.mem_cons, List.not_mem_nil, or_false] at hx
      rcases hx with hx | hx
      · exact ⟨false, hx⟩
      · exact ⟨true, hx⟩
    obtain ⟨vs, hvs, hholds⟩ := exists_group_of_mem h hbatch
    rw [hholds.own] at hstrong ⊢
    rcases (foldl_supersede .init (ownVerdicts (vs.flatMap (·.own)) kind x')).1 with hinit | hmem
    · rw [hinit] at hstrong
      exact absurd hstrong (lt_irrefl _)
    · obtain ⟨r, hr, heq⟩ := List.mem_map.mp hmem
      obtain ⟨hr, hkind⟩ := List.mem_filter.mp hr
      rw [decide_eq_true_iff] at hkind
      have habove : NameAbove r.name name := hkind.2 ▸ (mem_policyOwnEnds_take name x').mp hx'
      obtain ⟨part, hpart, hr⟩ := List.mem_flatMap.mp hr
      have hin : r ∈ groups.flatten.flatMap (·.own) :=
        List.mem_flatMap.mpr ⟨part, List.mem_flatten.mpr ⟨vs, hvs, hpart⟩, hr⟩
      exact List.mem_map.mpr ⟨r, (hreached r).mpr ⟨hin, habove⟩, heq⟩
  · obtain ⟨r, hr, rfl⟩ := List.mem_map.mp hy
    obtain ⟨hmem, habove⟩ := (hreached r).mp hr
    obtain ⟨part, hpart, hr⟩ := List.mem_flatMap.mp hmem
    obtain ⟨vs, hvs, hpart⟩ := List.mem_flatten.mp hpart
    obtain ⟨batch, hbatch, hholds⟩ := exists_batch_of_group h hvs
    refine ⟨batch.ownVerdict r.isPrefix r.name, ?_, ?_⟩
    · simp only [ownCandidates, List.mem_flatMap]
      refine ⟨batch, hbatch, r.name, (mem_policyOwnEnds_take name r.name).mpr habove, ?_⟩
      cases r.isPrefix <;> simp
    · rw [hholds.own]
      have hin : r ∈ vs.flatMap (·.own) := List.mem_flatMap.mpr ⟨part, hpart, hr⟩
      exact (foldl_supersede _ _).2.2 r.verdict (List.mem_map.mpr ⟨r, List.mem_filter.mpr ⟨hin, by simp⟩, rfl⟩)

/-- The strongest own record that applies to a name allows it. -/
def PolicyDump.OwnAllows (v : PolicyDump) (uid : UInt32) (gids : List UInt32) (name : Bytes) : Prop :=
  ∃ a ∈ v.ownApplicable uid gids name,
    Greatest PolicyDumpOwn.rank (v.ownApplicable uid gids name) a ∧ a.verdict.verdict = true

instance (v : PolicyDump) (uid : UInt32) (gids : List UInt32) (name : Bytes) : Decidable (v.OwnAllows uid gids name) :=
  inferInstanceAs (Decidable (∃ a ∈ _, _))

/-- The records that are reached but do not apply do no harm: if one of them is stronger than all that apply, it
says the same. And no record of the lowest priority is the strongest one and allows the name. -/
structure PolicyDump.OwnHarmless (v : PolicyDump) (uid : UInt32) (gids : List UInt32) (name : Bytes) : Prop where
  stronger : ∀ e ∈ v.ownReached uid gids name, Greatest PolicyDumpOwn.rank (v.ownReached uid gids name) e →
    0 < e.rank → (∀ a ∈ v.ownApplicable uid gids name, a.rank < e.rank) →
    (e.verdict.verdict = true ↔ v.OwnAllows uid gids name)
  positive : ∀ a ∈ v.ownApplicable uid gids name, Greatest PolicyDumpOwn.rank (v.ownReached uid gids name) a →
    a.verdict.verdict = true → 0 < a.rank

section

variable {v : PolicyDump} {uid : UInt32} {gids : List UInt32} {name : Bytes}

/-- A record that applies is reached. -/
theorem mem_ownReached_of_applicable {a : PolicyDumpOwn} (h : a ∈ v.ownApplicable uid gids name) :
    a ∈ v.ownReached uid gids name := by
  obtain ⟨hmem, happlies⟩ := List.mem_filter.mp h
  exact List.mem_filter.mpr ⟨hmem, decide_eq_true (of_decide_eq_true happlies : PolicyDumpOwn.Applies a name).above⟩

/-- The check allows a name exactly when the strongest record that it reaches does, and is not of the lowest
priority. -/
theorem policySnapshotCheckOwn_eq_success_iff {registry : PolicyRegistry} (hregistry : registry.Holds v)
    (hagree : Agree PolicyDumpOwn.rank (·.verdict.verdict) (v.ownReached uid gids name)) :
    policySnapshotCheckOwn true true (policySnapshotNew registry uid gids) name = .success ↔
      ∃ e, Greatest PolicyDumpOwn.rank (v.ownReached uid gids name) e ∧ 0 < e.rank ∧ e.verdict.verdict = true := by
  obtain ⟨groups, hholds, hperm, -⟩ := hregistry.snapshot uid gids
  have hreached (r : PolicyDumpOwn) : r ∈ v.ownReached uid gids name ↔
      r ∈ groups.flatten.flatMap (·.own) ∧ NameAbove r.name name := by
    rw [PolicyDump.ownReached, List.mem_filter, decide_eq_true_iff, PolicyDump.ownRecords]
    exact and_congr_left' ((hperm.flatMap_right _).mem_iff).symm
  have hcheck : policySnapshotCheckOwn true true (policySnapshotNew registry uid gids) name =
      policyResult (pick PolicyVerdict.rank .init (ownCandidates (policySnapshotNew registry uid gids) name)) :=
    congrArg policyResult (foldl_policyCheckOwnPrefix _ _)
  rw [hcheck, policyResult_eq_success_iff]
  rcases pick_ownCandidates hholds name _ hreached with ⟨hinit, hweak⟩ | ⟨e, hgreatest, hpositive, heq⟩
  · rw [hinit]
    refine iff_of_false (by decide) ?_
    rintro ⟨e, hgreatest, hpositive, -⟩
    exact absurd (hweak e hgreatest.mem) hpositive.ne'
  · rw [heq]
    refine ⟨fun hallow => ⟨e, hgreatest, hpositive, hallow⟩, ?_⟩
    rintro ⟨other, hother, -, hallow⟩
    exact (hgreatest.value_eq hagree hother).trans hallow

/-- A peer may own a name exactly when the strongest of the rules that apply allows it, if and only if no
stronger rule for a name above it interferes. -/
theorem policySnapshotCheckOwn_exact_iff {registry : PolicyRegistry}
    (himport : policyRegistryImport .new v = some registry)
    (hagree : Agree PolicyDumpOwn.rank (·.verdict.verdict) (v.ownReached uid gids name)) :
    (policySnapshotCheckOwn true true (policySnapshotNew registry uid gids) name = .success ↔
        v.OwnAllows uid gids name) ↔
      v.OwnHarmless uid gids name := by
  rw [policySnapshotCheckOwn_eq_success_iff (holds_policyRegistryImport himport) hagree]
  by_cases hnil : v.ownReached uid gids name = []
  · have hnone (a : PolicyDumpOwn) (ha : a ∈ v.ownApplicable uid gids name) : False := by
      have ha' := mem_ownReached_of_applicable ha
      rw [hnil] at ha'
      exact List.not_mem_nil ha'
    refine iff_of_true (iff_of_false ?_ ?_) ⟨fun e he => ?_, fun a ha => (hnone a ha).elim⟩
    · rintro ⟨e, he, -⟩
      rw [hnil] at he
      exact List.not_mem_nil he.mem
    · rintro ⟨a, ha, -⟩
      exact hnone a ha
    · rw [hnil] at he
      exact absurd he List.not_mem_nil
  · obtain ⟨e, he⟩ : ∃ e, Greatest PolicyDumpOwn.rank (v.ownReached uid gids name) e := exists_greatest hnil
    have hcheck : (∃ e, Greatest PolicyDumpOwn.rank (v.ownReached uid gids name) e ∧ 0 < e.rank ∧
        e.verdict.verdict = true) ↔ 0 < e.rank ∧ e.verdict.verdict = true := by
      refine ⟨?_, fun h => ⟨e, he, h⟩⟩
      rintro ⟨other, hother, hpositive, hallow⟩
      exact ⟨hpositive.trans_le (he.le other hother.mem), (he.value_eq hagree hother).trans hallow⟩
    rw [hcheck]
    by_cases hbelow : ∀ a ∈ v.ownApplicable uid gids name, a.rank < e.rank
    · -- a record that does not apply is stronger than all that do
      by_cases hpositive : 0 < e.rank
      · refine ⟨fun h => ⟨fun other _ hother _ _ => ?_, fun a ha hgreatest => ?_⟩, fun h => ?_⟩
        · rw [hother.value_eq hagree he, ← h, and_iff_right hpositive]
        · exact absurd (hgreatest.le e he.mem) (not_le.mpr (hbelow a ha))
        · rw [and_iff_right hpositive]
          exact h.stronger e he.mem he hpositive hbelow
      · refine iff_of_true (iff_of_false (fun h => hpositive h.1) ?_) ⟨fun other _ hother hother' => ?_, fun a ha => ?_⟩
        · rintro ⟨a, ha, -⟩
          exact hpositive (Nat.zero_lt_of_lt (hbelow a ha))
        · exact absurd (hother'.trans_le (he.le other hother.mem)) hpositive
        · exact absurd (Nat.zero_lt_of_lt (hbelow a ha)) hpositive
    · -- one that applies is as strong as any
      obtain ⟨a, ha, hle⟩ : ∃ a ∈ v.ownApplicable uid gids name, e.rank ≤ a.rank := by simpa using hbelow
      have hgreatest : Greatest PolicyDumpOwn.rank (v.ownReached uid gids name) a :=
        ⟨mem_ownReached_of_applicable ha, fun r hr => (he.le r hr).trans hle⟩
      have happlicable : Greatest PolicyDumpOwn.rank (v.ownApplicable uid gids name) a :=
        ⟨ha, fun r hr => hgreatest.le r (mem_ownReached_of_applicable hr)⟩
      have hrank : e.rank = a.rank := le_antisymm hle (he.le a hgreatest.mem)
      have hvalue : e.verdict.verdict = a.verdict.verdict := he.value_eq hagree hgreatest
      have hallows : v.OwnAllows uid gids name ↔ a.verdict.verdict = true := by
        refine ⟨?_, fun hallow => ⟨a, ha, happlicable, hallow⟩⟩
        rintro ⟨other, hother, hothergreatest, hallow⟩
        rw [← hallow]
        exact hagree a hgreatest.mem other (mem_ownReached_of_applicable hother)
          (le_antisymm (hothergreatest.le a ha) (happlicable.le other hother))
      rw [hallows, hrank, hvalue]
      refine ⟨fun h => ⟨fun other _ hother _ hbelow => ?_, fun other _ hother hallow => ?_⟩, fun h => ?_⟩
      · exact absurd (hgreatest.le other hother.mem) (not_le.mpr (hbelow a ha))
      · rw [le_antisymm (hgreatest.le other hother.mem) (hother.le a hgreatest.mem)]
        exact (h.mpr ((hgreatest.value_eq hagree hother).trans hallow)).1
      · exact ⟨And.right, fun hallow => ⟨h.positive a ha hgreatest hallow, hallow⟩⟩

end

/-- A policy that lets everyone own one name, and no other. -/
def exampleOwn (isPrefix : Bool) : PolicyDump :=
  ⟨[(-1, ⟨⟨true, 1⟩, [⟨⟨false, 1⟩, true, []⟩, ⟨⟨true, 5⟩, isPrefix, lit "com.example"⟩], [], []⟩)], []⟩

/-- The registry of such a policy. -/
def exampleOwnRegistry (isPrefix : Bool) : PolicyRegistry := (policyRegistryImport .new (exampleOwn isPrefix)).getD .new

/-- The name itself may be owned. -/
theorem policySnapshotCheckOwn_example :
    policySnapshotCheckOwn true true (policySnapshotNew (exampleOwnRegistry false) 1000 [100]) (lit "com.example") =
      .success := by
  refine ((policySnapshotCheckOwn_exact_iff (v := exampleOwn false) rfl (by decide)).mpr
    ⟨?_, ?_⟩).mpr ?_
  · decide
  · decide
  · decide

/-- A name below it may be owned as well, though no rule allows it. -/
theorem policySnapshotCheckOwn_not_exact :
    policySnapshotCheckOwn true true (policySnapshotNew (exampleOwnRegistry false) 1000 [100]) (lit "com.example.foo") =
        .success ∧
      ¬(exampleOwn false).OwnAllows 1000 [100] (lit "com.example.foo") := by
  decide

end DbusBroker
