import DbusBroker.Launch.NssRuns
import DbusBroker.Launch.PolicyExport

/-!
# The ranges of users at the console

`policy_export` writes the rules for users at the console, and those for all others, for ranges of
users: in turns between and at the system users at the console, and for all users above. The
users at the console are looked up by the launcher only if the configuration has rules for them,
and one of them may come twice. The ranges are a partition exactly if neither goes wrong.
-/

namespace DbusBroker.Launch

/-! ## What is written -/

/-- An element of the configuration: a policy element, or one of the others. -/
inductive ConfigElement where
  | policy (context : ConfigContext)
  | node (node : ConfigNode)

/-- `ConfigRoot`: the elements in order, where the policy element around a rule is one of them. -/
structure ConfigRoot where
  nodeList : List ConfigElement
  parents : ∀ isAllow parent rule, .node (.allowDeny isAllow (some parent) rule) ∈ nodeList → .policy parent ∈ nodeList

/-- The elements that are no policy elements. -/
def ConfigRoot.nodes (root : ConfigRoot) : List ConfigNode :=
  root.nodeList.filterMap fun element =>
    match element with
    | .policy _ => none
    | .node node => some node

/-- `at_console` of the launcher, as `launcher_parse_config` leaves it. -/
def launcherAtConsole (root : ConfigRoot) : Bool :=
  root.nodeList.any fun element =>
    match element with
    | .policy context => context.context == .atConsole
    | .node _ => false

/-- `nss_cache_resolve_names`: names that do not exist are left out. -/
def nssCacheResolveNames (database : NssDatabase) : NssCache → List Bytes → NssCache × Except NssError (List UInt32)
  | cache, [] => (cache, .ok [])
  | cache, name :: names =>
    match nssCacheGetUid database cache name with
    | (cache, .ok (uid, _)) =>
      let (cache, r) := nssCacheResolveNames database cache names
      (cache, r.map (uid :: ·))
    | (cache, .error .invalidName) => nssCacheResolveNames database cache names
    | (cache, .error error) => (cache, .error error)

/-- The users at the console that a load or reload of the launcher exports the policy with. -/
def launcherConsoleUsers (database : NssDatabase) (cache : NssCache) (root : ConfigRoot) (names : List Bytes) :
    Except NssError (List UInt32) :=
  if launcherAtConsole root then (nssCacheResolveNames database cache names).2 else .ok []

/-- The rules for users at the console, or those for others. -/
inductive ConsoleSide where
  | atConsole
  | noConsole
  deriving DecidableEq, Repr

/-- The entries of a side. -/
def Policy.consoleEntries (policy : Policy) : ConsoleSide → PolicyEntries
  | .atConsole => policy.atConsoleEntries
  | .noConsole => policy.noConsoleEntries

/-- The arguments of a call of `policy_export_console`. -/
structure ConsoleCall where
  side : ConsoleSide
  uidStart : UInt32
  nUid : UInt32
  deriving DecidableEq, Repr

namespace ConsoleCall

variable (call : ConsoleCall) (policy : Policy) (uid : UInt32)

/-- The check for overflow. -/
def asserts : Bool := call.nUid == 0 || decide (call.uidStart ≤ call.uidStart + call.nUid - 1)

/-- The call writes a range. -/
def emits : Bool := call.nUid != 0 && !(policy.consoleEntries call.side).isEmpty

/-- A user is in the range that the call writes. -/
def Covers : Prop := call.uidStart ≤ uid ∧ uid ≤ call.uidStart + call.nUid - 1

/-- What the call writes. -/
def range : Bool × UInt32 × UInt32 × PolicyDumpBatch :=
  (false, call.uidStart, call.uidStart + call.nUid - 1, policyExportBatch none none (some (policy.consoleEntries call.side)))

end ConsoleCall

/-- The calls for the system users, in turns between and at the users at the console. -/
def policySystemCalls (systemUidMax nextUid : UInt32) : List UInt32 → List ConsoleCall
  | [] => [⟨.noConsole, nextUid, systemUidMax + 1 - nextUid⟩]
  | uid :: rest =>
    ⟨.noConsole, nextUid, uid - nextUid⟩ :: ⟨.atConsole, uid, 1⟩ :: policySystemCalls systemUidMax (uid + 1) rest

/-- The calls of `policy_export`. -/
def policyConsoleCalls (systemUidMax : UInt32) (atConsoleUids : List UInt32) : List ConsoleCall :=
  policySystemCalls systemUidMax 0 (policySystemConsoleUids systemUidMax atConsoleUids) ++
    [⟨.atConsole, systemUidMax + 1, -1 - systemUidMax⟩]

/-- The calls that write a range. -/
def policyConsoleRanges (systemUidMax : UInt32) (policy : Policy) (atConsoleUids : List UInt32) : List ConsoleCall :=
  (policyConsoleCalls systemUidMax atConsoleUids).filter (·.emits policy)

section

variable (policy : Policy) (systemUidMax : UInt32)

/-- What a call writes. -/
theorem policyExportConsole_eq (call : ConsoleCall) :
    policyExportConsole (policy.consoleEntries call.side) call.uidStart call.nUid =
      ([call].filter (·.emits policy)).map (·.range policy) := by
  rw [policyExportConsole, List.filter_singleton]
  by_cases hzero : call.nUid = 0
  · simp [hzero, ConsoleCall.emits]
  · by_cases hempty : (policy.consoleEntries call.side).isEmpty
    · simp [hempty, ConsoleCall.emits]
    · have hemits : call.emits policy = true := by simp [hzero, hempty, ConsoleCall.emits]
      rw [hemits, if_neg hzero, if_neg hempty]
      rfl

/-- What the calls for the system users write. -/
theorem policyExportSystem_eq (nextUid : UInt32) (uids : List UInt32) :
    policyExportSystem systemUidMax policy nextUid uids =
      ((policySystemCalls systemUidMax nextUid uids).filter (·.emits policy)).map (·.range policy) := by
  induction uids generalizing nextUid with
  | nil => exact policyExportConsole_eq policy ⟨.noConsole, nextUid, systemUidMax + 1 - nextUid⟩
  | cons uid rest ih =>
    have hbefore := policyExportConsole_eq policy ⟨.noConsole, nextUid, uid - nextUid⟩
    have hself := policyExportConsole_eq policy ⟨.atConsole, uid, 1⟩
    have hcalls : policySystemCalls systemUidMax nextUid (uid :: rest) =
        [⟨.noConsole, nextUid, uid - nextUid⟩] ++ [⟨.atConsole, uid, 1⟩] ++
          policySystemCalls systemUidMax (uid + 1) rest := rfl
    dsimp only [Policy.consoleEntries] at hbefore hself
    rw [policyExportSystem, hcalls, ih, hbefore, hself, List.filter_append, List.filter_append, List.map_append,
      List.map_append]

/-- The ranges of users in the policy message are those of the calls. -/
theorem policyExport_ranges (atConsoleUids : List UInt32) :
    (policyExport systemUidMax policy atConsoleUids).ranges =
      (policy.gidTree.entries.map fun node =>
        (true, node.1, node.1, policyExportBatch (some policy.defaultEntries) none (some node.2))) ++
      (policyConsoleRanges systemUidMax policy atConsoleUids).map (·.range policy) := by
  have hlast := policyExportConsole_eq policy ⟨.atConsole, systemUidMax + 1, -1 - systemUidMax⟩
  dsimp only [Policy.consoleEntries] at hlast
  rw [policyExport, policyConsoleRanges, policyConsoleCalls, List.filter_append, List.map_append, ← hlast,
    ← policyExportSystem_eq, List.append_assoc]

/-- Those that are not for a group are the ranges of the calls. -/
theorem uidRanges_policyExport (atConsoleUids : List UInt32) :
    (policyExport systemUidMax policy atConsoleUids).ranges.filter (!·.1) =
      (policyConsoleRanges systemUidMax policy atConsoleUids).map (·.range policy) := by
  rw [policyExport_ranges, List.filter_append, List.filter_map, List.filter_map]
  have hgroups : (policy.gidTree.entries.filter fun _ => false) = [] := List.filter_false _
  have husers : ((policyConsoleRanges systemUidMax policy atConsoleUids).filter fun _ => true) =
      policyConsoleRanges systemUidMax policy atConsoleUids := List.filter_true _
  exact congrArg₂ _ (congrArg (List.map _) hgroups) (congrArg (List.map _) husers)

end

/-- The ranges of users in the policy message are those of the calls, the assertion holds in every call, no user is in
two ranges, and if there are rules for a side, its ranges are those of the users on that side. -/
structure ConsolePartition (systemUidMax : UInt32) (policy : Policy) (consoleUids atConsoleUids : List UInt32) : Prop where
  written : (policyExport systemUidMax policy atConsoleUids).ranges.filter (!·.1) =
    (policyConsoleRanges systemUidMax policy atConsoleUids).map (·.range policy)
  asserts : ∀ call ∈ policyConsoleCalls systemUidMax atConsoleUids, call.asserts = true
  disjoint : (policyConsoleRanges systemUidMax policy atConsoleUids).Pairwise fun call other =>
    ∀ uid, ¬(call.Covers uid ∧ other.Covers uid)
  atConsole : policy.atConsoleEntries.isEmpty = false → ∀ uid,
    (∃ call ∈ policyConsoleRanges systemUidMax policy atConsoleUids, call.side = .atConsole ∧ call.Covers uid) ↔
      AtConsole systemUidMax consoleUids uid
  noConsole : policy.noConsoleEntries.isEmpty = false → ∀ uid,
    (∃ call ∈ policyConsoleRanges systemUidMax policy atConsoleUids, call.side = .noConsole ∧ call.Covers uid) ↔
      ¬AtConsole systemUidMax consoleUids uid

/-! ## Users in strictly increasing order -/

section strict

variable {systemUidMax nextUid uid : UInt32} {uids : List UInt32} {call : ConsoleCall} {policy : Policy}

/-- The first user behind the range of a call. -/
def ConsoleCall.stop (call : ConsoleCall) : ℕ := call.uidStart.toNat + call.nUid.toNat

/-- The range of a call does not wrap around. -/
theorem ConsoleCall.toNat_last (h : call.stop ≤ 2 ^ 32) (hpos : call.nUid ≠ 0) :
    (call.uidStart + call.nUid - 1).toNat + 1 = call.stop := by
  have hn : call.nUid.toNat ≠ 0 := fun hzero => hpos (UInt32.toNat_inj.mp hzero)
  have hone : (1 : UInt32).toNat = 1 := rfl
  have hlt := call.uidStart.toNat_lt
  rw [ConsoleCall.stop] at h ⊢
  rw [UInt32.toNat_sub, UInt32.toNat_add, hone]
  omega

/-- The assertion holds for a range that does not wrap around. -/
theorem ConsoleCall.asserts_of_stop_le (h : call.stop ≤ 2 ^ 32) : call.asserts = true := by
  rw [ConsoleCall.asserts, Bool.or_eq_true, beq_iff_eq, decide_eq_true_eq]
  by_cases hpos : call.nUid = 0
  · exact .inl hpos
  · have hn : call.nUid.toNat ≠ 0 := fun hzero => hpos (UInt32.toNat_inj.mp hzero)
    have hlast := ConsoleCall.toNat_last h hpos
    rw [ConsoleCall.stop] at hlast
    exact .inr (UInt32.le_iff_toNat_le.mpr (by omega))

/-- The users in a range that does not wrap around. -/
theorem ConsoleCall.covers_iff (h : call.stop ≤ 2 ^ 32) (hpos : call.nUid ≠ 0) (uid : UInt32) :
    call.Covers uid ↔ call.uidStart.toNat ≤ uid.toNat ∧ uid.toNat < call.stop := by
  have hlast := ConsoleCall.toNat_last h hpos
  rw [ConsoleCall.Covers, UInt32.le_iff_toNat_le, UInt32.le_iff_toNat_le]
  omega

/-- The ranges of some calls follow each other, and have every user from one to another on its side. -/
structure CallsFill (calls : List ConsoleCall) (start stop : ℕ) (side : UInt32 → ConsoleSide) : Prop where
  within : ∀ call ∈ calls, start ≤ call.uidStart.toNat ∧ call.stop ≤ stop
  ordered : calls.Pairwise fun call other => call.stop ≤ other.uidStart.toNat
  filled : ∀ s uid, (∃ call ∈ calls, call.side = s ∧ call.uidStart.toNat ≤ uid.toNat ∧ uid.toNat < call.stop) ↔
    start ≤ uid.toNat ∧ uid.toNat < stop ∧ side uid = s

/-- One call has the users of its range. -/
theorem callsFill_singleton {first n : UInt32} {s : ConsoleSide} {stop : ℕ} (hstop : first.toNat + n.toNat = stop)
    {side : UInt32 → ConsoleSide} (h : ∀ uid, first.toNat ≤ uid.toNat → uid.toNat < stop → side uid = s) :
    CallsFill [⟨s, first, n⟩] first.toNat stop side := by
  have hcall : ConsoleCall.stop ⟨s, first, n⟩ = stop := hstop
  exact {
    within := by simp [hcall]
    ordered := List.pairwise_singleton _ _
    filled := fun s' uid => by
      simp only [List.mem_singleton, exists_eq_left, hcall]
      constructor
      · intro hin
        exact ⟨hin.2.1, hin.2.2, (h uid hin.2.1 hin.2.2).trans hin.1⟩
      · intro hin
        exact ⟨(h uid hin.1 hin.2.1).symm.trans hin.2.2, hin.1, hin.2.1⟩ }

/-- Calls up to a user and calls from there on. -/
theorem CallsFill.append {calls others : List ConsoleCall} {start middle stop : ℕ} {side : UInt32 → ConsoleSide}
    (h : CallsFill calls start middle side) (h' : CallsFill others middle stop side) (hle : start ≤ middle)
    (hle' : middle ≤ stop) : CallsFill (calls ++ others) start stop side where
  within call hcall := by
    obtain hcall | hcall := List.mem_append.mp hcall
    · have hwithin := h.within call hcall
      omega
    · have hwithin := h'.within call hcall
      omega
  ordered := by
    apply List.pairwise_append.mpr
    refine ⟨h.ordered, h'.ordered, fun call hcall other hother => ?_⟩
    have hwithin := (h.within call hcall).2
    have hwithin' := (h'.within other hother).1
    omega
  filled s uid := by
    have hsplit : (∃ call ∈ calls ++ others, call.side = s ∧ call.uidStart.toNat ≤ uid.toNat ∧ uid.toNat < call.stop) ↔
        (∃ call ∈ calls, call.side = s ∧ call.uidStart.toNat ≤ uid.toNat ∧ uid.toNat < call.stop) ∨
          ∃ call ∈ others, call.side = s ∧ call.uidStart.toNat ≤ uid.toNat ∧ uid.toNat < call.stop := by
      simp only [List.mem_append, or_and_right, exists_or]
    rw [hsplit, h.filled, h'.filled]
    constructor
    · intro hin
      obtain ⟨hge, hlt, hside⟩ | ⟨hge, hlt, hside⟩ := hin
      · exact ⟨hge, Nat.lt_of_lt_of_le hlt hle', hside⟩
      · exact ⟨Nat.le_trans hle hge, hlt, hside⟩
    · intro hin
      by_cases hmiddle : uid.toNat < middle
      · exact .inl ⟨hin.1, hmiddle, hin.2.2⟩
      · exact .inr ⟨Nat.le_of_not_lt hmiddle, hin.2⟩

/-- The side of a user, if some users are at the console. -/
def sideOf (uids : List UInt32) (uid : UInt32) : ConsoleSide := if uid ∈ uids then .atConsole else .noConsole

/-- The number of users between two. -/
theorem toNat_sub_of_le {first last : UInt32} (h : first.toNat ≤ last.toNat) :
    (last - first).toNat = last.toNat - first.toNat := by
  have hlt := first.toNat_lt
  have hlt' := last.toNat_lt
  rw [UInt32.toNat_sub]
  omega

/-- The next user. -/
theorem toNat_succ_of_lt {uid : UInt32} (h : uid.toNat + 1 < 2 ^ 32) : (uid + 1).toNat = uid.toNat + 1 := by
  have hone : (1 : UInt32).toNat = 1 := rfl
  rw [UInt32.toNat_add, hone]
  omega

/-- The calls for the system users have every one of them on its side. -/
theorem callsFill_policySystemCalls (hmax : systemUidMax.toNat + 1 < 2 ^ 32) {side : UInt32 → ConsoleSide}
    (hsorted : uids.Pairwise (·.toNat < ·.toNat)) (hle : ∀ u ∈ uids, u.toNat ≤ systemUidMax.toNat)
    (hnext : nextUid.toNat ≤ systemUidMax.toNat + 1) (hge : ∀ u ∈ uids, nextUid.toNat ≤ u.toNat)
    (hside : ∀ uid, nextUid.toNat ≤ uid.toNat → uid.toNat ≤ systemUidMax.toNat → side uid = sideOf uids uid) :
    CallsFill (policySystemCalls systemUidMax nextUid uids) nextUid.toNat (systemUidMax.toNat + 1) side := by
  induction uids generalizing nextUid with
  | nil =>
    have hsucc := toNat_succ_of_lt hmax
    have hstop : nextUid.toNat + (systemUidMax + 1 - nextUid).toNat = systemUidMax.toNat + 1 := by
      rw [toNat_sub_of_le (by omega), hsucc]
      omega
    apply callsFill_singleton hstop
    intro uid hfirst hlast
    exact (hside uid hfirst (Nat.le_of_lt_succ hlast)).trans (if_neg List.not_mem_nil)
  | cons u rest ih =>
    have hu := hle u List.mem_cons_self
    have hnextu := hge u List.mem_cons_self
    obtain ⟨hlater, hsorted⟩ := List.pairwise_cons.mp hsorted
    have hsucc : (u + 1).toNat = u.toNat + 1 := toNat_succ_of_lt (by omega)
    have hbefore : CallsFill [⟨.noConsole, nextUid, u - nextUid⟩] nextUid.toNat u.toNat side := by
      have hstop : nextUid.toNat + (u - nextUid).toNat = u.toNat := by
        rw [toNat_sub_of_le hnextu]
        omega
      apply callsFill_singleton hstop
      intro uid hfirst hlast
      refine (hside uid hfirst (by omega)).trans (if_neg fun hin => ?_)
      obtain rfl | hin := List.mem_cons.mp hin
      · exact Nat.lt_irrefl _ hlast
      · exact absurd (hlater uid hin) (by omega)
    have hself : CallsFill [⟨.atConsole, u, 1⟩] u.toNat (u.toNat + 1) side := by
      apply callsFill_singleton rfl
      intro uid hfirst hlast
      obtain rfl : uid = u := UInt32.toNat_inj.mp (Nat.le_antisymm (Nat.le_of_lt_succ hlast) hfirst)
      exact (hside uid hnextu hu).trans (if_pos List.mem_cons_self)
    have hrest : CallsFill (policySystemCalls systemUidMax (u + 1) rest) (u.toNat + 1) (systemUidMax.toNat + 1) side := by
      rw [← hsucc]
      apply ih hsorted (fun w hw => hle w (List.mem_cons_of_mem u hw)) (by omega)
      · intro w hw
        rw [hsucc]
        exact hlater w hw
      · intro uid hfirst hlast
        rw [hside uid (by omega) hlast, sideOf, sideOf]
        have hne : uid ≠ u := fun heq => by
          rw [heq] at hfirst
          omega
        simp only [List.mem_cons, hne, false_or]
    exact (hbefore.append hself hnextu (Nat.le_succ _)).append hrest (by omega) (by omega)

/-- The calls have every user on its side, if the users at the console are in strictly increasing order. -/
theorem callsFill_policyConsoleCalls (hmax : systemUidMax.toNat + 1 < 2 ^ 32) {atConsoleUids : List UInt32}
    (hsorted : (policySystemConsoleUids systemUidMax atConsoleUids).Pairwise (·.toNat < ·.toNat))
    (hmem : ∀ u, u ∈ policySystemConsoleUids systemUidMax atConsoleUids ↔
      u ∈ atConsoleUids ∧ u.toNat ≤ systemUidMax.toNat) :
    CallsFill (policyConsoleCalls systemUidMax atConsoleUids) 0 (2 ^ 32)
      fun uid => if AtConsole systemUidMax atConsoleUids uid then .atConsole else .noConsole := by
  have hsucc := toNat_succ_of_lt hmax
  have hall : (-1 : UInt32).toNat = 2 ^ 32 - 1 := by decide
  obtain ⟨side, hside⟩ : ∃ side : UInt32 → ConsoleSide,
      side = fun uid => if AtConsole systemUidMax atConsoleUids uid then .atConsole else .noConsole := ⟨_, rfl⟩
  rw [← hside]
  have hsystem : CallsFill (policySystemCalls systemUidMax 0 (policySystemConsoleUids systemUidMax atConsoleUids)) 0
      (systemUidMax.toNat + 1) side := by
    apply callsFill_policySystemCalls hmax hsorted (fun u hu => ((hmem u).mp hu).2) (Nat.zero_le _) fun u _ => Nat.zero_le _
    intro uid _ hsystem
    have hconsole : AtConsole systemUidMax atConsoleUids uid ↔
        uid ∈ policySystemConsoleUids systemUidMax atConsoleUids := by
      rw [hmem, and_iff_left hsystem, AtConsole, UInt32.lt_iff_toNat_lt]
      exact or_iff_right (Nat.not_lt.mpr hsystem)
    rw [hside, sideOf]
    exact if_congr hconsole rfl rfl
  have hlast : CallsFill [⟨.atConsole, systemUidMax + 1, -1 - systemUidMax⟩] (systemUidMax.toNat + 1) (2 ^ 32) side := by
    rw [← hsucc]
    apply callsFill_singleton
    · rw [hsucc, toNat_sub_of_le (by omega), hall]
      omega
    · intro uid hfirst _
      rw [hsucc] at hfirst
      rw [hside]
      exact if_pos (.inl (UInt32.lt_iff_toNat_lt.mpr hfirst))
  exact hsystem.append hlast (Nat.zero_le _) (by omega)

/-- Calls that have every user on its side make a partition. -/
theorem CallsFill.partition {consoleUids atConsoleUids : List UInt32}
    (h : CallsFill (policyConsoleCalls systemUidMax atConsoleUids) 0 (2 ^ 32)
      fun uid => if AtConsole systemUidMax consoleUids uid then .atConsole else .noConsole) :
    ConsolePartition systemUidMax policy consoleUids atConsoleUids := by
  have hstop {call : ConsoleCall} (hcall : call ∈ policyConsoleCalls systemUidMax atConsoleUids) :
      call.stop ≤ 2 ^ 32 := (h.within call hcall).2
  have hranges {call : ConsoleCall} (hcall : call ∈ policyConsoleRanges systemUidMax policy atConsoleUids) :
      call ∈ policyConsoleCalls systemUidMax atConsoleUids ∧ call.nUid ≠ 0 := by
    obtain ⟨hmem, hemits⟩ := List.mem_filter.mp hcall
    rw [ConsoleCall.emits, Bool.and_eq_true, bne_iff_ne] at hemits
    exact ⟨hmem, hemits.1⟩
  have hcovers (side : ConsoleSide) (hentries : (policy.consoleEntries side).isEmpty = false) (uid : UInt32) :
      (∃ call ∈ policyConsoleRanges systemUidMax policy atConsoleUids, call.side = side ∧ call.Covers uid) ↔
        (if AtConsole systemUidMax consoleUids uid then ConsoleSide.atConsole else .noConsole) = side := by
    have hfilled := h.filled side uid
    rw [and_iff_right (Nat.zero_le _), and_iff_right uid.toNat_lt] at hfilled
    rw [← hfilled]
    constructor
    · intro hin
      obtain ⟨call, hcall, hside, hcover⟩ := hin
      obtain ⟨hmem, hpos⟩ := hranges hcall
      exact ⟨call, hmem, hside, (call.covers_iff (hstop hmem) hpos uid).mp hcover⟩
    · intro hin
      obtain ⟨call, hmem, hside, hcover⟩ := hin
      have hpos : call.nUid ≠ 0 := by
        intro hzero
        rw [ConsoleCall.stop, hzero] at hcover
        exact Nat.lt_irrefl _ (Nat.lt_of_le_of_lt hcover.1 hcover.2)
      refine ⟨call, List.mem_filter.mpr ⟨hmem, ?_⟩, hside, (call.covers_iff (hstop hmem) hpos uid).mpr hcover⟩
      rw [ConsoleCall.emits, hside, hentries, bne_iff_ne.mpr hpos]
      rfl
  exact {
    written := uidRanges_policyExport policy systemUidMax atConsoleUids
    asserts := fun call hcall => ConsoleCall.asserts_of_stop_le (hstop hcall)
    disjoint := by
      apply (h.ordered.filter _).imp_of_mem
      intro call other hcall hother hordered uid hboth
      obtain ⟨hmem, hpos⟩ := hranges hcall
      obtain ⟨hmem', hpos'⟩ := hranges hother
      have hin := (call.covers_iff (hstop hmem) hpos uid).mp hboth.1
      have hin' := (other.covers_iff (hstop hmem') hpos' uid).mp hboth.2
      omega
    atConsole := fun hentries uid => by
      rw [hcovers .atConsole hentries]
      by_cases hconsole : AtConsole systemUidMax consoleUids uid
      · rw [if_pos hconsole]
        exact iff_of_true rfl hconsole
      · rw [if_neg hconsole]
        exact iff_of_false (fun heq => by cases heq) hconsole
    noConsole := fun hentries uid => by
      rw [hcovers .noConsole hentries]
      by_cases hconsole : AtConsole systemUidMax consoleUids uid
      · rw [if_pos hconsole]
        exact iff_of_false (fun heq => by cases heq) (not_not_intro hconsole)
      · rw [if_neg hconsole]
        exact iff_of_true rfl hconsole }

end strict

/-! ## Users that come twice -/

section twice

variable {systemUidMax nextUid u : UInt32} {uids : List UInt32}

/-- In an ordered list a user that comes twice is next to itself. -/
theorem exists_adjacent {p : UInt32 → Bool} (hsorted : uids.Pairwise (·.toNat ≤ ·.toNat)) (h : ¬(uids.filter p).Nodup) :
    ∃ before u after, uids = before ++ u :: u :: after ∧ p u = true := by
  induction uids with
  | nil => exact absurd List.nodup_nil h
  | cons a rest ih =>
    obtain ⟨hle, hrest⟩ := List.pairwise_cons.mp hsorted
    by_cases hnodup : (rest.filter p).Nodup
    · by_cases hp : p a = true
      · rw [List.filter_cons, if_pos hp] at h
        have hmem : a ∈ rest := by
          by_contra hfresh
          exact h (List.nodup_cons.mpr ⟨fun hin => hfresh (List.mem_of_mem_filter hin), hnodup⟩)
        cases rest with
        | nil => cases hmem
        | cons b rest =>
          have hab := hle b List.mem_cons_self
          have hba : b.toNat ≤ a.toNat := by
            obtain rfl | hin := List.mem_cons.mp hmem
            · exact Nat.le_refl _
            · exact (List.pairwise_cons.mp hrest).1 a hin
          obtain rfl := UInt32.toNat_inj.mp (Nat.le_antisymm hab hba)
          exact ⟨[], a, rest, rfl, hp⟩
      · rw [List.filter_cons, if_neg hp] at h
        exact absurd hnodup h
    · obtain ⟨before, u, after, rfl, hp⟩ := ih hrest hnodup
      exact ⟨a :: before, u, after, rfl, hp⟩

/-- Between two users that follow each other there is a call for the ones in between. -/
theorem mem_policySystemCalls (before after : List UInt32) (a b : UInt32) :
    ⟨.noConsole, a + 1, b - (a + 1)⟩ ∈ policySystemCalls systemUidMax nextUid (before ++ a :: b :: after) := by
  induction before generalizing nextUid with
  | nil => exact List.mem_cons_of_mem _ (List.mem_cons_of_mem _ List.mem_cons_self)
  | cons u before ih => exact List.mem_cons_of_mem _ (List.mem_cons_of_mem _ ih)

/-- The assertion fails behind a user that comes twice, unless it is the first of all. -/
theorem ConsoleCall.not_asserts (hlt : u.toNat + 1 < 2 ^ 32) (hne : u ≠ 0) :
    ConsoleCall.asserts ⟨.noConsole, u + 1, u - (u + 1)⟩ = false := by
  have hpos : u.toNat ≠ 0 := fun hzero => hne (UInt32.toNat_inj.mp hzero)
  have hsucc := toNat_succ_of_lt hlt
  have hone : (1 : UInt32).toNat = 1 := rfl
  have hcount : (u - (u + 1)).toNat = 2 ^ 32 - 1 := by
    rw [UInt32.toNat_sub, hsucc]
    omega
  have hlast : (u + 1 + (u - (u + 1)) - 1).toNat = u.toNat - 1 := by
    rw [UInt32.toNat_sub, UInt32.toNat_add, hcount, hsucc, hone]
    omega
  rw [ConsoleCall.asserts, Bool.or_eq_false_iff, beq_eq_false_iff_ne, decide_eq_false_iff_not, UInt32.le_iff_toNat_le,
    hlast, hsucc]
  refine ⟨fun hzero => ?_, by omega⟩
  have hcount' := congrArg UInt32.toNat hzero
  rw [hcount] at hcount'
  cases hcount'

/-- The first user of all may come twice without the assertion failing. -/
theorem asserts_policySystemCalls (hmax : systemUidMax.toNat + 1 < 2 ^ 32) (hsorted : uids.Pairwise (·.toNat ≤ ·.toNat))
    (hle : ∀ u ∈ uids, u.toNat ≤ systemUidMax.toNat) (hnodup : (uids.filter (· != 0)).Nodup) (hnext : nextUid = 0 ∨ nextUid = 1) :
    ∀ call ∈ policySystemCalls systemUidMax nextUid uids, call.asserts = true := by
  have hstrict {uids : List UInt32} {nextUid : UInt32} (hsorted : uids.Pairwise (·.toNat ≤ ·.toNat))
      (hle : ∀ u ∈ uids, u.toNat ≤ systemUidMax.toNat) (hnodup : (uids.filter (· != 0)).Nodup)
      (hnext : nextUid = 0 ∨ nextUid = 1) (hpos : ∀ u ∈ uids, u ≠ 0) :
      ∀ call ∈ policySystemCalls systemUidMax nextUid uids, call.asserts = true := by
    have hsmall : nextUid.toNat ≤ 1 := by
      obtain rfl | rfl := hnext
      · exact Nat.zero_le _
      · exact Nat.le_refl _
    rw [List.filter_eq_self.mpr fun u hu => bne_iff_ne.mpr (hpos u hu)] at hnodup
    have hincreasing : uids.Pairwise (·.toNat < ·.toNat) := (hsorted.and (List.nodup_iff_pairwise_ne.mp hnodup)).imp
      fun {a b} hab => Nat.lt_of_le_of_ne hab.1 fun heq => hab.2 (UInt32.toNat_inj.mp heq)
    have hfill : CallsFill (policySystemCalls systemUidMax nextUid uids) nextUid.toNat (systemUidMax.toNat + 1)
        (sideOf uids) := by
      apply callsFill_policySystemCalls hmax hincreasing hle (by omega)
      · intro u hu
        have hne : u.toNat ≠ 0 := fun hzero => hpos u hu (UInt32.toNat_inj.mp hzero)
        omega
      · exact fun _ _ _ => rfl
    intro call hcall
    have hwithin := (hfill.within call hcall).2
    exact ConsoleCall.asserts_of_stop_le (by omega)
  induction uids generalizing nextUid with
  | nil => exact hstrict hsorted hle hnodup hnext fun u hu => absurd hu List.not_mem_nil
  | cons u rest ih =>
    obtain ⟨hfirst, hrest⟩ := List.pairwise_cons.mp hsorted
    by_cases hzero : u = 0
    · intro call hcall
      rw [hzero] at hcall hnodup
      obtain rfl | hcall := List.mem_cons.mp hcall
      · obtain rfl | rfl := hnext
        · decide
        · decide
      obtain rfl | hcall := List.mem_cons.mp hcall
      · decide
      · exact ih hrest (fun w hw => hle w (List.mem_cons_of_mem u hw)) hnodup (.inr rfl) call hcall
    · apply hstrict hsorted hle hnodup hnext
      intro w hw hwzero
      have hpos : u.toNat ≠ 0 := fun h => hzero (UInt32.toNat_inj.mp h)
      obtain rfl | hw := List.mem_cons.mp hw
      · exact hzero hwzero
      · have hle := hfirst w hw
        rw [hwzero] at hle
        exact hpos (Nat.le_zero.mp hle)

end twice

/-! ## When the ranges are a partition -/

section partition

variable {systemUidMax : UInt32} {policy : Policy} {uids : List UInt32}

/-- The system users among some. -/
def systemUsers (systemUidMax : UInt32) (uids : List UInt32) : List UInt32 :=
  uids.filter fun u => decide (u.toNat ≤ systemUidMax.toNat)

/-- The greatest system user is not the last user of all. -/
theorem toNat_succ_lt_of_ne (h : systemUidMax ≠ -1) : systemUidMax.toNat + 1 < 2 ^ 32 := by
  have hall : (-1 : UInt32).toNat = 2 ^ 32 - 1 := by decide
  have hne : systemUidMax.toNat ≠ (-1 : UInt32).toNat := fun heq => h (UInt32.toNat_inj.mp heq)
  have hlt := systemUidMax.toNat_lt
  omega

/-- Users at the console that are system users once at most. -/
theorem consolePartition_of_nodup (hmax : systemUidMax ≠ -1) (h : (systemUsers systemUidMax uids).Nodup) :
    ConsolePartition systemUidMax policy uids uids := by
  obtain ⟨hsorted, hmem⟩ := policySystemConsoleUids_spec systemUidMax h
  exact (callsFill_policyConsoleCalls (toNat_succ_lt_of_ne hmax) hsorted hmem).partition

/-- If the first user of all comes twice, it is in two ranges, and everyone is in the range of the others. -/
theorem not_consolePartition_of_zero (hmax : systemUidMax ≠ -1) {after : List UInt32}
    (h : policySystemConsoleUids systemUidMax uids = 0 :: 0 :: after)
    (hentries : policy.atConsoleEntries.isEmpty = false ∨ policy.noConsoleEntries.isEmpty = false) :
    ¬ConsolePartition systemUidMax policy uids uids := by
  obtain ⟨rest, hcalls⟩ : ∃ rest, policyConsoleCalls systemUidMax uids =
      ⟨.noConsole, 0, 0⟩ :: ⟨.atConsole, 0, 1⟩ :: ⟨.noConsole, 1, -1⟩ :: ⟨.atConsole, 0, 1⟩ :: rest := by
    rw [policyConsoleCalls, h]
    exact ⟨_, rfl⟩
  intro hpartition
  obtain hat | hno := hentries
  · have hemits : ConsoleCall.emits ⟨.atConsole, 0, 1⟩ policy = true := by
      rw [ConsoleCall.emits, Policy.consoleEntries, hat]
      rfl
    have htwice : [⟨.atConsole, 0, 1⟩, ⟨.atConsole, 0, 1⟩].Sublist (policyConsoleRanges systemUidMax policy uids) := by
      have hsublist : [⟨.atConsole, 0, 1⟩, ⟨.atConsole, 0, 1⟩].Sublist (policyConsoleCalls systemUidMax uids) := by
        rw [hcalls]
        exact .cons _ (.cons_cons _ (.cons _ (.cons_cons _ (List.nil_sublist rest))))
      have hfilter := hsublist.filter (·.emits policy)
      rw [List.filter_cons, if_pos hemits, List.filter_cons, if_pos hemits] at hfilter
      exact hfilter
    have hdisjoint := List.pairwise_pair.mp (hpartition.disjoint.sublist htwice)
    exact hdisjoint 0 ⟨⟨by decide, by decide⟩, by decide, by decide⟩
  · have hemits : ConsoleCall.emits ⟨.noConsole, 1, -1⟩ policy = true := by
      rw [ConsoleCall.emits, Policy.consoleEntries, hno]
      rfl
    have hcall : ⟨.noConsole, 1, -1⟩ ∈ policyConsoleCalls systemUidMax uids := by
      rw [hcalls]
      simp
    have hmem : ⟨.noConsole, 1, -1⟩ ∈ policyConsoleRanges systemUidMax policy uids :=
      List.mem_filter.mpr ⟨hcall, hemits⟩
    have hall : systemUidMax < -1 := by
      have hlt := toNat_succ_lt_of_ne hmax
      have hlast : (-1 : UInt32).toNat = 2 ^ 32 - 1 := by decide
      rw [UInt32.lt_iff_toNat_lt]
      omega
    exact (hpartition.noConsole hno (-1)).mp ⟨_, hmem, rfl, by decide, by decide⟩ (.inl hall)

/-- With the users at the console the ranges are a partition exactly if no system user comes twice, or only the
first one does and there is nothing to write. -/
theorem consolePartition_iff (hmax : systemUidMax ≠ -1) :
    ConsolePartition systemUidMax policy uids uids ↔
      (systemUsers systemUidMax uids).Nodup ∨
        (policy.atConsoleEntries.isEmpty = true ∧ policy.noConsoleEntries.isEmpty = true) ∧
          ((systemUsers systemUidMax uids).filter (· != 0)).Nodup := by
  obtain ⟨hsorted, hperm⟩ := policySystemConsoleUids_perm systemUidMax uids
  have hlt := toNat_succ_lt_of_ne hmax
  have hle : ∀ u ∈ policySystemConsoleUids systemUidMax uids, u.toNat ≤ systemUidMax.toNat := by
    intro u hu
    exact of_decide_eq_true (List.mem_filter.mp (hperm.mem_iff.mp hu)).2
  constructor
  · intro hpartition
    have hnonzero : ((policySystemConsoleUids systemUidMax uids).filter (· != 0)).Nodup := by
      by_contra htwice
      obtain ⟨before, u, after, hsplit, hne⟩ := exists_adjacent hsorted htwice
      have hu : u ∈ policySystemConsoleUids systemUidMax uids := by
        rw [hsplit]
        simp
      have hmem : ⟨.noConsole, u + 1, u - (u + 1)⟩ ∈ policyConsoleCalls systemUidMax uids := by
        rw [policyConsoleCalls, hsplit]
        exact List.mem_append_left _ (mem_policySystemCalls before after u u)
      have hasserts := hpartition.asserts _ hmem
      rw [ConsoleCall.not_asserts (Nat.lt_of_le_of_lt (Nat.succ_le_succ (hle u hu)) hlt) (bne_iff_ne.mp hne)] at hasserts
      cases hasserts
    by_cases hnodup : (systemUsers systemUidMax uids).Nodup
    · exact .inl hnodup
    · have htwice : ¬((policySystemConsoleUids systemUidMax uids).filter fun _ => true).Nodup := by
        rw [List.filter_true, hperm.nodup_iff]
        exact hnodup
      obtain ⟨before, u, after, hsplit, -⟩ := exists_adjacent hsorted htwice
      -- only the first user can come twice, and nothing is in front of it
      have hu : u = 0 := by
        by_contra hne
        rw [hsplit, List.filter_append, List.filter_cons, if_pos (bne_iff_ne.mpr hne), List.filter_cons,
          if_pos (bne_iff_ne.mpr hne)] at hnonzero
        exact (List.nodup_cons.mp (List.nodup_append.mp hnonzero).2.1).1 List.mem_cons_self
      have hfront : policySystemConsoleUids systemUidMax uids = 0 :: 0 :: (before ++ after) := by
        have hzeros : before ++ 0 :: 0 :: after = 0 :: 0 :: (before ++ after) := by
          have hbefore : ∀ w ∈ before, w = 0 := by
            intro w hw
            rw [hsplit, List.pairwise_append] at hsorted
            have hwu := hsorted.2.2 w hw u List.mem_cons_self
            rw [hu] at hwu
            exact UInt32.toNat_inj.mp (Nat.le_zero.mp hwu)
          rw [List.eq_replicate_of_mem hbefore]
          have hmove (n : ℕ) (l : List UInt32) : List.replicate n 0 ++ 0 :: l = 0 :: (List.replicate n 0 ++ l) := by
            rw [List.append_cons, ← List.replicate_succ', List.replicate_succ, List.cons_append]
          rw [hmove, hmove]
        rw [hsplit, hu, hzeros]
      refine .inr ⟨?_, ?_⟩
      · by_contra hentries
        rw [not_and_or, Bool.not_eq_true, Bool.not_eq_true] at hentries
        exact not_consolePartition_of_zero hmax hfront hentries hpartition
      · exact (hperm.filter _).nodup_iff.mp hnonzero
  · intro h
    obtain hnodup | ⟨⟨hat, hno⟩, hnonzero⟩ := h
    · exact consolePartition_of_nodup hmax hnodup
    · have hnone : policyConsoleRanges systemUidMax policy uids = [] := by
        apply List.filter_eq_nil_iff.mpr
        intro call _ hemits
        rw [ConsoleCall.emits, Bool.and_eq_true, Bool.not_eq_true'] at hemits
        cases hside : call.side with
        | atConsole =>
          rw [hside, Policy.consoleEntries, hat] at hemits
          cases hemits.2
        | noConsole =>
          rw [hside, Policy.consoleEntries, hno] at hemits
          cases hemits.2
      refine ⟨uidRanges_policyExport policy systemUidMax uids, fun call hcall => ?_, ?_, fun hentries => ?_,
        fun hentries => ?_⟩
      · obtain hcall | hcall := List.mem_append.mp hcall
        · exact asserts_policySystemCalls hlt hsorted hle ((hperm.filter _).nodup_iff.mpr hnonzero) (.inl rfl) call hcall
        · obtain rfl := List.mem_singleton.mp hcall
          apply ConsoleCall.asserts_of_stop_le
          have hall : (-1 : UInt32).toNat = 2 ^ 32 - 1 := by decide
          rw [ConsoleCall.stop, toNat_succ_of_lt hlt, toNat_sub_of_le (by omega), hall]
          omega
      · rw [hnone]
        exact List.Pairwise.nil
      · rw [hat] at hentries
        cases hentries
      · rw [hno] at hentries
        cases hentries

/-- Without the users at the console the ranges are a partition exactly if there is no system user among them, or
nothing to write. -/
theorem consolePartition_nil_iff (hmax : systemUidMax ≠ -1) (hat : policy.atConsoleEntries.isEmpty = true) :
    ConsolePartition systemUidMax policy uids [] ↔
      policy.noConsoleEntries.isEmpty = true ∨ systemUsers systemUidMax uids = [] := by
  have hnobody : ConsolePartition systemUidMax policy [] [] := consolePartition_of_nodup hmax List.nodup_nil
  constructor
  · intro hpartition
    by_contra hnone
    rw [not_or, Bool.not_eq_true] at hnone
    obtain ⟨u, hu⟩ := List.exists_mem_of_ne_nil _ hnone.2
    obtain ⟨hmem, hsystem⟩ := List.mem_filter.mp hu
    have hside := (hnobody.noConsole hnone.1 u).symm.trans (hpartition.noConsole hnone.1 u)
    refine hside.mp (fun hconsole => ?_) (.inr hmem)
    obtain hlt | hin := hconsole
    · exact absurd (UInt32.lt_iff_toNat_lt.mp hlt) (Nat.not_lt.mpr (of_decide_eq_true hsystem))
    · cases hin
  · intro h
    refine ⟨hnobody.written, hnobody.asserts, hnobody.disjoint, fun hentries => ?_, fun hentries uid => ?_⟩
    · rw [hat] at hentries
      cases hentries
    · have hnone := h.resolve_left (ne_true_of_eq_false hentries)
      rw [hnobody.noConsole hentries, not_iff_not, AtConsole, AtConsole]
      constructor
      · intro hconsole
        exact .inl (hconsole.resolve_right List.not_mem_nil)
      · intro hconsole
        refine .inl (Classical.byContradiction fun hsystem => ?_)
        have hmem : uid ∈ systemUsers systemUidMax uids := List.mem_filter.mpr ⟨hconsole.resolve_left hsystem,
          decide_eq_true (Nat.le_of_not_lt fun hlt => hsystem (UInt32.lt_iff_toNat_lt.mpr hlt))⟩
        rw [hnone] at hmem
        cases hmem

/-- Rules for users at the console make the launcher look them up. -/
theorem launcherAtConsole_of_entries (self : UInt32) (root : ConfigRoot)
    (h : (launcherLoadPolicy self root.nodes).atConsoleEntries.isEmpty = false) : launcherAtConsole root = true := by
  have hentries : (launcherLoadPolicy self root.nodes).atConsoleEntries =
      .ofRules (rulesAt (importedRules self root.nodes) .atConsole) :=
    entriesAt_policyImport self root.nodes .atConsole
  have hsome : rulesAt (importedRules self root.nodes) .atConsole ≠ [] := by
    intro hnone
    rw [hentries, hnone] at h
    cases h
  obtain ⟨rule, hrule⟩ := List.exists_mem_of_ne_nil _ hsome
  obtain ⟨hmem, hplace⟩ := List.mem_filter.mp hrule
  replace hplace := of_decide_eq_true hplace
  obtain rfl | hmem := List.mem_cons.mp hmem
  · cases hplace
  · obtain ⟨j, node, hnode, hrule⟩ := exists_of_mem_configRules hmem
    obtain ⟨isAllow, parent, attributes, rfl, hcontext⟩ : ∃ isAllow parent attributes,
        node = .allowDeny isAllow (some parent) attributes ∧ parent.context = .atConsole := by
      have htarget (parent : ConfigContext) (h : contextTarget parent = some .atConsole) : parent.context = .atConsole := by
        rw [contextTarget] at h
        cases hcontext : parent.context <;> rw [hcontext] at h <;> simp at h ⊢
      have hconnect (attributes : ConfigAllowDeny) : connectPlace attributes ≠ .atConsole := by
        rw [connectPlace]
        split_ifs <;> simp
      cases node with
      | other => cases hrule
      | allowDeny isAllow parent attributes =>
        cases parent with
        | none => cases hrule
        | some parent =>
          refine ⟨isAllow, parent, attributes, rfl, ?_⟩
          simp only [policyRule] at hrule
          split_ifs at hrule
          all_goals obtain rfl := Option.some.inj hrule
          · exact absurd (Option.some.inj hplace) (hconnect attributes)
          · exact htarget parent hplace
          · exact htarget parent hplace
          · exact htarget parent hplace
    have hlisted : .node (.allowDeny isAllow (some parent) attributes) ∈ root.nodeList := by
      obtain ⟨element, helement, hsame⟩ := List.mem_filterMap.mp hnode
      cases element with
      | policy context => cases hsame
      | node inner =>
        obtain rfl := Option.some.inj hsame
        exact helement
    exact List.any_eq_true.mpr ⟨_, root.parents isAllow parent attributes hlisted, beq_iff_eq.mpr hcontext⟩

/-- The users at the console are looked up if there are rules that need them, and no system user is among them twice;
the first of all may be if nothing is written. -/
def ConsoleUsersFit (systemUidMax : UInt32) (policy : Policy) (root : ConfigRoot) (uids : List UInt32) : Prop :=
  if launcherAtConsole root then
    (systemUsers systemUidMax uids).Nodup ∨
      (policy.atConsoleEntries.isEmpty = true ∧ policy.noConsoleEntries.isEmpty = true) ∧
        ((systemUsers systemUidMax uids).filter (· != 0)).Nodup
  else policy.noConsoleEntries.isEmpty = true ∨ systemUsers systemUidMax uids = []

/-- The ranges that a load or a reload writes are a partition of the users exactly if the users at the console fit. -/
theorem policyExport_consolePartition_iff (hmax : systemUidMax ≠ -1) (self : UInt32) (root : ConfigRoot)
    (database : NssDatabase) (cache : NssCache) (names : List Bytes)
    (hresolve : (nssCacheResolveNames database cache names).2 = .ok uids) :
    ∃ atConsoleUids, launcherConsoleUsers database cache root names = .ok atConsoleUids ∧
      (ConsolePartition systemUidMax (launcherLoadPolicy self root.nodes) uids atConsoleUids ↔
        ConsoleUsersFit systemUidMax (launcherLoadPolicy self root.nodes) root uids) := by
  rw [launcherConsoleUsers, ConsoleUsersFit]
  cases hconsole : launcherAtConsole root with
  | true =>
    rw [if_pos rfl, if_pos rfl]
    exact ⟨uids, hresolve, consolePartition_iff hmax⟩
  | false =>
    rw [if_neg Bool.false_ne_true, if_neg Bool.false_ne_true]
    refine ⟨[], rfl, consolePartition_nil_iff hmax ?_⟩
    by_contra hentries
    rw [launcherAtConsole_of_entries self root (Bool.eq_false_of_not_eq_true hentries)] at hconsole
    cases hconsole

/-- A system with two display managers, the first of which has two names. -/
def consoleDatabase : NssDatabase where
  users := nssTable [⟨⟨some (lit "gdm"), 42, 42⟩, rfl⟩, ⟨⟨some (lit "gdm-greeter"), 42, 42⟩, rfl⟩,
    ⟨⟨some (lit "sddm"), 43, 43⟩, rfl⟩]
  groups := nssTable []

/-- A policy element with one rule. -/
def consoleElements (context : ConfigContext) : List ConfigElement :=
  [.policy context, .node (.allowDeny true (some context) { own := some (lit "*") })]

/-- The policy element is around the rule. -/
theorem consoleElements_parents (context : ConfigContext) (isAllow : Bool) (parent : ConfigContext)
    (rule : ConfigAllowDeny)
    (h : ConfigElement.node (.allowDeny isAllow (some parent) rule) ∈ consoleElements context) :
    ConfigElement.policy parent ∈ consoleElements context := by
  simp only [consoleElements, List.mem_cons, reduceCtorEq, false_or, List.not_mem_nil, or_false,
    ConfigElement.node.injEq, ConfigNode.allowDeny.injEq, Option.some.injEq] at h
  rw [h.2.1]
  exact List.mem_cons_self

/-- A configuration with one rule of a context. -/
def consoleRoot (context : ConfigContext) : ConfigRoot where
  nodeList := consoleElements context
  parents := consoleElements_parents context

/-- Two users at the console. -/
theorem policyExport_consolePartition_two :
    (nssCacheResolveNames consoleDatabase nssCacheInit [lit "gdm", lit "sddm"]).2 = .ok [42, 43] ∧
      ∃ atConsoleUids, launcherConsoleUsers consoleDatabase nssCacheInit (consoleRoot ⟨.atConsole, 0⟩)
          [lit "gdm", lit "sddm"] = .ok atConsoleUids ∧
        (ConsolePartition 999 (launcherLoadPolicy 0 (consoleRoot ⟨.atConsole, 0⟩).nodes) [42, 43] atConsoleUids ↔
          ConsoleUsersFit 999 (launcherLoadPolicy 0 (consoleRoot ⟨.atConsole, 0⟩).nodes) (consoleRoot ⟨.atConsole, 0⟩)
            [42, 43]) :=
  ⟨rfl, policyExport_consolePartition_iff (by decide) 0 (consoleRoot ⟨.atConsole, 0⟩) consoleDatabase
    nssCacheInit [lit "gdm", lit "sddm"] rfl⟩

/-- A user at the console that has two names, and rules that are for all others only. -/
theorem not_consolePartition :
    (launcherConsoleUsers consoleDatabase nssCacheInit (consoleRoot ⟨.atConsole, 0⟩) [lit "gdm", lit "gdm-greeter"] =
        .ok [42, 42] ∧
      ¬ConsolePartition 999 (launcherLoadPolicy 0 (consoleRoot ⟨.atConsole, 0⟩).nodes) [42, 42] [42, 42]) ∧
    (nssCacheResolveNames consoleDatabase nssCacheInit [lit "gdm"]).2 = .ok [42] ∧
      launcherConsoleUsers consoleDatabase nssCacheInit (consoleRoot ⟨.noConsole, 0⟩) [lit "gdm"] = .ok [] ∧
      ¬ConsolePartition 999 (launcherLoadPolicy 0 (consoleRoot ⟨.noConsole, 0⟩).nodes) [42] [] := by
  refine ⟨⟨rfl, fun h => ?_⟩, rfl, rfl, fun h => ?_⟩
  · exact absurd ((consolePartition_iff (by decide)).mp h) (by decide)
  · exact absurd ((consolePartition_nil_iff (by decide) rfl).mp h) (by decide)

end partition

end DbusBroker.Launch
