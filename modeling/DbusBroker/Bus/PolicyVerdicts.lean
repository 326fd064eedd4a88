import DbusBroker.Bus.Policy
import DbusBroker.Lib.Strongest

/-!
# The verdicts of the policy

The loops of the checks let the rules that apply to a message compete by priority. The verdict
is that of a rule of the greatest priority, whatever was skipped on the way, and the order of the
batches, names and rules does not matter as long as rules of one priority agree.
-/

namespace DbusBroker

open Strongest

/-- The priority of a verdict. -/
def PolicyVerdict.rank (v : PolicyVerdict) : ℕ := v.priority.toNat

/-- The priority of a rule. -/
def PolicyXmit.rank (xmit : PolicyXmit) : ℕ := xmit.verdict.rank

/-- A rule applies to a message: every filter that it has is met. -/
structure PolicyXmit.Applies (xmit : PolicyXmit) (m : PolicyMessage) : Prop where
  type : xmit.type ≠ 0 → m.type = xmit.type
  path : ∀ p, xmit.path = some p → m.path = some p
  interface : ∀ i, xmit.interface = some i → m.interface = some i
  member : ∀ name, xmit.member = some name → m.member = some name
  broadcast : xmit.broadcast = 1 → m.broadcast = true
  unicast : xmit.broadcast = 2 → m.broadcast = false
  minFds : xmit.minFds.toNat ≤ m.nFds
  maxFds : m.nFds ≤ xmit.maxFds.toNat

/-- A string filter is met exactly when the message has the string. -/
theorem policyStringDiffers_eq_false_iff (filter value : Option Bytes) :
    policyStringDiffers filter value = false ↔ ∀ s, filter = some s → value = some s := by
  cases filter with
  | none => simp [policyStringDiffers]
  | some s => cases value <;> simp [policyStringDiffers]

/-- The filters of a rule in the order of the checks. -/
theorem PolicyXmit.applies_iff (xmit : PolicyXmit) (m : PolicyMessage) :
    xmit.Applies m ↔ (xmit.type != 0 && m.type != xmit.type) = false ∧ policyStringDiffers xmit.path m.path = false ∧
      policyStringDiffers xmit.interface m.interface = false ∧ policyStringDiffers xmit.member m.member = false ∧
      (xmit.broadcast == 1 && !m.broadcast) = false ∧ (xmit.broadcast == 2 && m.broadcast) = false ∧
      ¬m.nFds < xmit.minFds.toNat ∧ ¬xmit.maxFds.toNat < m.nFds := by
  simp only [policyStringDiffers_eq_false_iff, not_lt]
  constructor
  · rintro ⟨h₁, h₂, h₃, h₄, h₅, h₆, h₇, h₈⟩
    refine ⟨?_, h₂, h₃, h₄, ?_, ?_, h₇, h₈⟩
    · by_cases h : xmit.type = 0
      · simp [h]
      · simp [h₁ h]
    · by_cases h : xmit.broadcast = 1
      · simp [h₅ h]
      · simp [h]
    · by_cases h : xmit.broadcast = 2
      · simp [h₆ h]
      · simp [h]
  · rintro ⟨h₁, h₂, h₃, h₄, h₅, h₆, h₇, h₈⟩
    exact ⟨fun h => by simpa [h] using h₁, h₂, h₃, h₄, fun h => by simpa [h] using h₅, fun h => by simpa [h] using h₆,
      h₇, h₈⟩

instance (xmit : PolicyXmit) (m : PolicyMessage) : Decidable (xmit.Applies m) :=
  decidable_of_iff _ (xmit.applies_iff m).symm

/-- A rule competes with the verdict so far when it applies. -/
theorem policyCheckXmitRule_eq (m : PolicyMessage) (verdict : PolicyVerdict) (xmit : PolicyXmit) :
    policyCheckXmitRule m verdict xmit =
      if xmit.Applies m then compete PolicyVerdict.rank verdict xmit.verdict else verdict := by
  unfold compete PolicyVerdict.rank
  by_cases happlies : xmit.Applies m
  · obtain ⟨h₁, h₂, h₃, h₄, h₅, h₆, h₇, h₈⟩ := (xmit.applies_iff m).mp happlies
    rw [if_pos happlies]
    simp only [policyCheckXmitRule, h₁, h₂, h₃, h₄, h₅, h₆, h₇, h₈, UInt64.le_iff_toNat_le, Bool.false_eq_true, if_false]
    split_ifs <;> first | rfl | omega
  · rw [if_neg happlies]
    unfold policyCheckXmitRule
    split_ifs with h₀ h₁ h₂ h₃ h₄ h₅ h₆ h₇ h₈ <;> try rfl
    refine absurd ((xmit.applies_iff m).mpr ?_) happlies
    simp only [Bool.not_eq_true] at h₁ h₂ h₃ h₄ h₅ h₆
    exact ⟨h₁, h₂, h₃, h₄, h₅, h₆, h₇, h₈⟩

/-- The rules of a batch that are filed under a name. -/
def PolicyBatch.rules (batch : PolicyBatch) (isSend : Bool) (name : Bytes) : List PolicyXmit :=
  match batch.nameTree.find? name with
  | none => []
  | some n => if isSend then n.sendUnindexed else n.recvUnindexed

/-- The names whose rules concern a subject: its own ones, queued ones included, or that of the driver. -/
def policySubjectNames : Option NameSet → List Bytes
  | none => [lit "org.freedesktop.DBus"]
  | some (.owner owner) => owner.ownershipTree.keys
  | some (.snapshot names) => names
  | some .empty => []

/-- The rules of all batches that are filed under the catch-all name or a name of the subject. -/
def policyRules (isSend : Bool) (snapshot : PolicySnapshot) (subject : Option NameSet) : List PolicyXmit :=
  snapshot.flatMap fun batch => ([] :: policySubjectNames subject).flatMap (batch.rules isSend)

/-- Those of the rules that apply to a message. -/
def policyMatching (isSend : Bool) (snapshot : PolicySnapshot) (subject : Option NameSet) (m : PolicyMessage) :
    List PolicyXmit :=
  (policyRules isSend snapshot subject).filter fun xmit => decide (xmit.Applies m)

/-- The verdicts of the rules that apply compete. -/
theorem foldl_policyCheckXmitRule (m : PolicyMessage) (verdict : PolicyVerdict) (rules : List PolicyXmit) :
    rules.foldl (policyCheckXmitRule m) verdict =
      pick PolicyVerdict.rank verdict ((rules.filter fun xmit => decide (xmit.Applies m)).map (·.verdict)) := by
  induction rules generalizing verdict with
  | nil => rfl
  | cons xmit rest ih =>
    rw [List.foldl_cons, ih, policyCheckXmitRule_eq]
    by_cases happlies : xmit.Applies m
    · rw [if_pos happlies, List.filter_cons_of_pos (by simpa using happlies), List.map_cons, pick_cons]
    · rw [if_neg happlies, List.filter_cons_of_neg (by simpa using happlies)]

/-- The rules of one name compete. -/
theorem policySnapshotCheckXmitName_eq (isSend : Bool) (m : PolicyMessage) (batch : PolicyBatch)
    (verdict : PolicyVerdict) (name : Bytes) :
    policySnapshotCheckXmitName isSend m batch verdict name =
      (batch.rules isSend name).foldl (policyCheckXmitRule m) verdict := by
  unfold policySnapshotCheckXmitName PolicyBatch.rules
  cases batch.nameTree.find? name <;> rfl

/-- The rules of one batch compete, name by name. -/
theorem policySnapshotCheckXmit_eq (isSend : Bool) (subject : Option NameSet) (m : PolicyMessage)
    (verdict : PolicyVerdict) (batch : PolicyBatch) :
    policySnapshotCheckXmit isSend subject m verdict batch =
      (([] :: policySubjectNames subject).flatMap (batch.rules isSend)).foldl (policyCheckXmitRule m) verdict := by
  have hnames (names : List Bytes) (verdict : PolicyVerdict) :
      names.foldl (policySnapshotCheckXmitName isSend m batch) verdict =
        (names.flatMap (batch.rules isSend)).foldl (policyCheckXmitRule m) verdict := by
    induction names generalizing verdict with
    | nil => rfl
    | cons name rest ih =>
      rw [List.foldl_cons, ih, policySnapshotCheckXmitName_eq, List.flatMap_cons, List.foldl_append]
  rw [← hnames]
  cases subject with
  | none => rfl
  | some nameset => cases nameset <;> rfl

/-- The loops of a check let the rules compete that apply. -/
theorem foldl_policySnapshotCheckXmit (isSend : Bool) (subject : Option NameSet) (m : PolicyMessage)
    (snapshot : PolicySnapshot) (verdict : PolicyVerdict) :
    snapshot.foldl (policySnapshotCheckXmit isSend subject m) verdict =
      pick PolicyVerdict.rank verdict ((policyMatching isSend snapshot subject m).map (·.verdict)) := by
  rw [policyMatching, ← foldl_policyCheckXmitRule]
  induction snapshot generalizing verdict with
  | nil => rfl
  | cons batch rest ih =>
    have hcons : policyRules isSend (batch :: rest) subject =
        ([] :: policySubjectNames subject).flatMap (batch.rules isSend) ++ policyRules isSend rest subject :=
      List.flatMap_cons
    rw [List.foldl_cons, ih, policySnapshotCheckXmit_eq, hcons, List.foldl_append]

/-- A check decides by the strongest of the rules that apply. Where rules of one priority agree, it allows
exactly when the strongest one does, and it depends on these rules as a set only. -/
structure PolicyDecides (isSend : Bool) (snapshot : PolicySnapshot) (subject : Option NameSet) (m : PolicyMessage)
    (check : PolicySnapshot → Option NameSet → PolicyResult) : Prop where
  none : policyMatching isSend snapshot subject m = [] → check snapshot subject = .accessDenied
  strongest : policyMatching isSend snapshot subject m ≠ [] →
    ∃ xmit, Greatest PolicyXmit.rank (policyMatching isSend snapshot subject m) xmit ∧
      check snapshot subject = policyResult xmit.verdict
  exact : Agree PolicyXmit.rank (·.verdict.verdict) (policyMatching isSend snapshot subject m) →
    (check snapshot subject = .success ↔
      ∃ xmit, Greatest PolicyXmit.rank (policyMatching isSend snapshot subject m) xmit ∧ xmit.verdict.verdict = true)
  order : Agree PolicyXmit.rank (·.verdict.verdict) (policyMatching isSend snapshot subject m) →
    ∀ (snapshot' : PolicySnapshot) (subject' : Option NameSet),
      (∀ xmit, xmit ∈ policyMatching isSend snapshot' subject' m ↔ xmit ∈ policyMatching isSend snapshot subject m) →
      check snapshot' subject' = check snapshot subject

/-- A verdict succeeds exactly when it allows. -/
theorem policyResult_eq_success_iff (v : PolicyVerdict) : policyResult v = .success ↔ v.verdict = true := by
  cases h : v.verdict <;> simp [policyResult, h]

/-- The result depends on the verdict alone. -/
theorem policyResult_congr {v w : PolicyVerdict} (h : v.verdict = w.verdict) : policyResult v = policyResult w := by
  rw [policyResult, policyResult, h]

/-- The loops of a check decide by the strongest of the rules that apply. -/
theorem policyDecides_foldl (isSend : Bool) (snapshot : PolicySnapshot) (subject : Option NameSet) (m : PolicyMessage)
    (hpositive : ∀ xmit ∈ policyRules isSend snapshot subject, 0 < xmit.verdict.priority) :
    PolicyDecides isSend snapshot subject m fun snapshot subject =>
      policyResult (snapshot.foldl (policySnapshotCheckXmit isSend subject m) .init) := by
  have habove : ∀ v ∈ (policyMatching isSend snapshot subject m).map (·.verdict),
      PolicyVerdict.rank .init < PolicyVerdict.rank v := by
    intro v hv
    obtain ⟨xmit, hxmit, rfl⟩ := List.mem_map.mp hv
    exact UInt64.lt_iff_toNat_lt.mp (hpositive xmit (List.mem_of_mem_filter hxmit))
  have hstrongest (hne : policyMatching isSend snapshot subject m ≠ []) :
      ∃ xmit, Greatest PolicyXmit.rank (policyMatching isSend snapshot subject m) xmit ∧
        snapshot.foldl (policySnapshotCheckXmit isSend subject m) .init = xmit.verdict := by
    rw [foldl_policySnapshotCheckXmit]
    obtain ⟨hmem, hle⟩ := greatest_pick (by simpa using hne) habove
    obtain ⟨xmit, hxmit, heq⟩ := List.mem_map.mp hmem
    refine ⟨xmit, ⟨hxmit, fun y hy => ?_⟩, heq.symm⟩
    show PolicyVerdict.rank y.verdict ≤ PolicyVerdict.rank xmit.verdict
    rw [show xmit.verdict = _ from heq]
    exact hle y.verdict (List.mem_map_of_mem hy)
  have hdenied (hnil : policyMatching isSend snapshot subject m = []) :
      snapshot.foldl (policySnapshotCheckXmit isSend subject m) .init = .init := by
    rw [foldl_policySnapshotCheckXmit, hnil]
    rfl
  refine ⟨fun hnil => ?_, fun hne => ?_, fun hagree => ?_, fun hagree snapshot' subject' hmem => ?_⟩
  · simp only [hdenied hnil]
    rfl
  · obtain ⟨xmit, hgreatest, heq⟩ := hstrongest hne
    exact ⟨xmit, hgreatest, congrArg policyResult heq⟩
  · by_cases hnil : policyMatching isSend snapshot subject m = []
    · simp only [hdenied hnil]
      refine iff_of_false (by decide) ?_
      rintro ⟨xmit, ⟨hxmit, -⟩, -⟩
      rw [hnil] at hxmit
      exact List.not_mem_nil hxmit
    · obtain ⟨xmit, hgreatest, heq⟩ := hstrongest hnil
      rw [policyResult_eq_success_iff, heq]
      refine ⟨fun hallow => ⟨xmit, hgreatest, hallow⟩, ?_⟩
      rintro ⟨other, hother, hallow⟩
      exact (hgreatest.value_eq hagree hother).trans hallow
  · apply policyResult_congr
    rw [foldl_policySnapshotCheckXmit, foldl_policySnapshotCheckXmit]
    refine (pick_value_congr (fun v => ?_) (fun v hv w hw hvw => ?_) habove).symm
    · simp only [List.mem_map, hmem]
    · obtain ⟨x, hx, rfl⟩ := List.mem_map.mp hv
      obtain ⟨y, hy, rfl⟩ := List.mem_map.mp hw
      exact hagree x hx y hy hvw

/-- The verdict on a message is that of the strongest rule that applies to it, for a peer that sends and for
one that receives. The order in which the groups of the peer are listed does not matter either. -/
theorem policySnapshotCheck_decides (registry : PolicyRegistry) (uid : UInt32) (gids : List UInt32)
    (subject : Option NameSet) (m : PolicyMessage)
    (hpositive : ∀ isSend, ∀ xmit ∈ policyRules isSend (policySnapshotNew registry uid gids) subject,
      0 < xmit.verdict.priority) :
    PolicyDecides true (policySnapshotNew registry uid gids) subject m
      (fun snapshot subject => policySnapshotCheckSend true true snapshot subject m) ∧
    PolicyDecides false (policySnapshotNew registry uid gids) subject m
      (fun snapshot subject => policySnapshotCheckReceive snapshot subject m) ∧
    ∀ (isSend : Bool) (gids' : List UInt32), (∀ gid, gid ∈ gids' ↔ gid ∈ gids) →
      ∀ xmit, xmit ∈ policyMatching isSend (policySnapshotNew registry uid gids') subject m ↔
        xmit ∈ policyMatching isSend (policySnapshotNew registry uid gids) subject m := by
  refine ⟨policyDecides_foldl true _ subject m (hpositive true), policyDecides_foldl false _ subject m (hpositive false),
    fun isSend gids' hgids xmit => ?_⟩
  have hbatches (batch : PolicyBatch) :
      batch ∈ policySnapshotNew registry uid gids' ↔ batch ∈ policySnapshotNew registry uid gids := by
    simp [policySnapshotNew, hgids]
  simp only [policyMatching, policyRules, List.mem_filter, List.mem_flatMap, hbatches]

/-- A send record without filters. -/
def plainXmit (allow : Bool) (priority : UInt64) (name : Bytes) : PolicyDumpXmit :=
  ⟨⟨allow, priority⟩, name, [], [], [], 0, 0, 0, -1⟩

/-- A registry that denies everything, allows calls of one method of a service, and denies a group the calls of
one object of the service. -/
def pingRegistry : PolicyRegistry :=
  (policyRegistryImport .new
    ⟨[(-1, ⟨.init, [], [plainXmit false 2 [], { plainXmit true 5 (lit "com.example.A") with member := lit "Ping" }], []⟩)],
      [(true, 100, 100, ⟨.init, [], [{ plainXmit false 9 (lit "com.example.A") with path := lit "/secret" }], []⟩)]⟩).getD
    .new

/-- The group may call the method on another object. -/
theorem policySnapshotCheckSend_ping :
    policySnapshotCheckSend true true (policySnapshotNew pingRegistry 1000 [100])
      (some (.snapshot [lit "com.example.A"])) ⟨none, some (lit "Ping"), some (lit "/"), 1, false, 0⟩ = .success := by
  obtain ⟨hsend, -⟩ := policySnapshotCheck_decides pingRegistry 1000 [100] (some (.snapshot [lit "com.example.A"]))
    ⟨none, some (lit "Ping"), some (lit "/"), 1, false, 0⟩ (by decide)
  refine (hsend.exact (by decide)).mpr
    ⟨policyXmitNew { plainXmit true 5 (lit "com.example.A") with member := lit "Ping" }, ?_, rfl⟩
  decide

end DbusBroker
