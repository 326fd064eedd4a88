import DbusBroker.Bus.MatchIndex

/-!
# Runs of the match registries

Rules are linked, unlinked and flushed in any order and in any number of registries. The
naive counterpart remembers for each rule the registry and the tree it is linked in, and a
lookup scans all rules. Both yield the same destinations in every reachable state.
-/

namespace DbusBroker

open Std Machine Counted

/-- The operations on match registries. -/
inductive MatchOp (ρ ι : Type) where
  | link (rule : ι) (counted : Bool) (registry : ρ) (monitor : Bool)
  | unlink (rule : ι)
  | flush (registry : ρ)

section Scan

variable {ρ ι ο : Type} [DecidableEq ρ] [DecidableEq ι] [DecidableEq ο] {keys : ι → MatchKeys} {owner : ι → ο}
variable {w : MatchWorld ρ ι ο}

/-- Perform one operation on the registries. -/
def MatchWorld.step (keys : ι → MatchKeys) (owner : ι → ο) (w : MatchWorld ρ ι ο) :
    MatchOp ρ ι → MatchWorld ρ ι ο
  | .link rule counted registry monitor => matchRuleLink keys owner w rule counted registry monitor
  | .unlink rule => matchRuleUnlink keys owner w rule
  | .flush registry => matchRegistryFlush owner w registry

/-- Perform one operation on the naive record of where each rule is linked. -/
def scanStep (links : ι → Option (ρ × Bool)) : MatchOp ρ ι → ι → Option (ρ × Bool)
  | .link rule _ registry monitor =>
    if (links rule).isSome then links else Function.update links rule (some (registry, monitor))
  | .unlink rule => Function.update links rule none
  | .flush registry => fun rule => (links rule).filter fun l => l.1 ≠ registry

/-- A rule is linked in a tree of a registry. -/
def LinkedIn (link : ι → Option (MatchLink ρ)) (r : ρ) (m : Bool) (rule : ι) : Prop :=
  ∃ l, link rule = some l ∧ l.registry = r ∧ l.monitor = m

/-- The rules filed in the trees are the linked ones, each at the address of its keys. -/
structure MatchIndexed (keys : ι → MatchKeys) (w : MatchWorld ρ ι ο) : Prop where
  sound : ∀ r m, (pathLevel ι).Sound ((w.registries r).tree m)
  filed : ∀ r m a rule, rule ∈ (pathLevel ι).view ((w.registries r).tree m) a ↔
    a = matchRoute (keys rule) ∧ LinkedIn w.link r m rule

omit [DecidableEq ρ] [DecidableEq ι] in
/-- Replacing one tree of a registry leaves the other. -/
theorem MatchRegistry.tree_setTree (r : MatchRegistry ι) (m m' : Bool) (t : MatchTree ι) :
    (r.setTree m t).tree m' = if m' = m then t else r.tree m' := by
  cases m <;> cases m' <;> rfl

omit [DecidableEq ι] in
/-- Replacing one tree of one registry leaves all others. -/
theorem tree_update (registries : ρ → MatchRegistry ι) (r : ρ) (m : Bool) (t : MatchTree ι) (r' : ρ)
    (m' : Bool) :
    (Function.update registries r ((registries r).setTree m t) r').tree m' =
      if r' = r ∧ m' = m then t else (registries r').tree m' := by
  by_cases hr : r' = r
  · subst hr
    rw [Function.update_self, MatchRegistry.tree_setTree]
    simp
  · rw [Function.update_of_ne hr, if_neg fun h => hr h.1]

omit [DecidableEq ρ] in
/-- Where a rule is linked after its link is written. -/
theorem linkedIn_update_self (link : ι → Option (MatchLink ρ)) (rule : ι) (x : Option (MatchLink ρ)) (r : ρ)
    (m : Bool) :
    LinkedIn (Function.update link rule x) r m rule ↔ ∃ l, x = some l ∧ l.registry = r ∧ l.monitor = m := by
  rw [LinkedIn, Function.update_self]

omit [DecidableEq ρ] in
/-- Other rules stay where they are. -/
theorem linkedIn_update_of_ne (link : ι → Option (MatchLink ρ)) {rule rule' : ι} (h : rule' ≠ rule)
    (x : Option (MatchLink ρ)) (r : ρ) (m : Bool) :
    LinkedIn (Function.update link rule x) r m rule' ↔ LinkedIn link r m rule' := by
  rw [LinkedIn, LinkedIn, Function.update_of_ne h]

omit [DecidableEq ρ] [DecidableEq ι] [DecidableEq ο] in
/-- The counters do not matter to the index. -/
theorem MatchIndexed.congr {w' : MatchWorld ρ ι ο} (h : MatchIndexed keys w)
    (hregistries : w'.registries = w.registries) (hlink : w'.link = w.link) : MatchIndexed keys w' := by
  constructor
  · rw [hregistries]
    exact h.sound
  · rw [hregistries, hlink]
    exact h.filed

omit [DecidableEq ι] [DecidableEq ο] in
/-- Rewriting one tree keeps the index, if the tree and the links of the rules agree on it. -/
theorem MatchIndexed.setTree {w' : MatchWorld ρ ι ο} (h : MatchIndexed keys w) {r : ρ} {m : Bool}
    {t : MatchTree ι} (ht : (pathLevel ι).Sound t)
    (hregistries : w'.registries = Function.update w.registries r ((w.registries r).setTree m t))
    (hfiled : ∀ a rule, rule ∈ (pathLevel ι).view t a ↔ a = matchRoute (keys rule) ∧ LinkedIn w'.link r m rule)
    (hother : ∀ r' m', ¬(r' = r ∧ m' = m) → ∀ rule, LinkedIn w'.link r' m' rule ↔ LinkedIn w.link r' m' rule) :
    MatchIndexed keys w' := by
  constructor
  · intro r' m'
    rw [hregistries, tree_update]
    split
    · exact ht
    · exact h.sound r' m'
  · intro r' m' a rule
    rw [hregistries, tree_update]
    split
    · next htree =>
      obtain ⟨rfl, rfl⟩ := htree
      exact hfiled a rule
    · next htree => rw [h.filed, hother r' m' htree]

omit [DecidableEq ο] in
/-- Linking an unlinked rule files it. -/
theorem MatchIndexed.link {w' : MatchWorld ρ ι ο} (h : MatchIndexed keys w) {rule : ι}
    (hrule : w.link rule = none) (l : MatchLink ρ)
    (hregistries : w'.registries = Function.update w.registries l.registry
      ((w.registries l.registry).setTree l.monitor
        (matchTreeLink rule (keys rule) ((w.registries l.registry).tree l.monitor))))
    (hlink : w'.link = Function.update w.link rule (some l)) : MatchIndexed keys w' := by
  have hunlinked : ∀ r m, ¬LinkedIn w.link r m rule := by
    rintro r m ⟨l', hl', -⟩
    rw [hrule] at hl'
    cases hl'
  have hfresh : ∀ a, rule ∉ (pathLevel ι).view ((w.registries l.registry).tree l.monitor) a :=
    fun a hmem => hunlinked _ _ ((h.filed _ _ a rule).mp hmem).2
  obtain ⟨hsound, hview⟩ := matchTreeLink_spec (h.sound l.registry l.monitor) (hfresh (matchRoute (keys rule)))
  refine h.setTree hsound hregistries (fun a rule' => ?_) fun r m htree rule' => ?_
  · rw [hview, hlink]
    by_cases hsame : rule' = rule
    · subst hsame
      have hlinked : LinkedIn (Function.update w.link rule' (some l)) l.registry l.monitor rule' :=
        (linkedIn_update_self ..).mpr ⟨l, rfl, rfl, rfl⟩
      split
      · next ha => exact iff_of_true (List.mem_append_right _ List.mem_cons_self) ⟨ha, hlinked⟩
      · next ha => exact iff_of_false (hfresh a) fun hin => ha hin.1
    · rw [linkedIn_update_of_ne _ hsame, ← h.filed]
      split
      · rw [List.mem_append, List.mem_singleton, or_iff_left hsame]
      · rfl
  · rw [hlink]
    by_cases hsame : rule' = rule
    · subst hsame
      refine iff_of_false ?_ (hunlinked r m)
      rw [linkedIn_update_self]
      rintro ⟨l', hl', hr, hm⟩
      cases hl'
      exact htree ⟨hr.symm, hm.symm⟩
    · exact linkedIn_update_of_ne _ hsame _ r m

omit [DecidableEq ο] in
/-- Unlinking a rule takes it off its tree. -/
theorem MatchIndexed.unlink {w' : MatchWorld ρ ι ο} (h : MatchIndexed keys w) {rule : ι} {l : MatchLink ρ}
    (hrule : w.link rule = some l)
    (hregistries : w'.registries = Function.update w.registries l.registry
      ((w.registries l.registry).setTree l.monitor
        (matchTreeUnlink rule (keys rule) ((w.registries l.registry).tree l.monitor))))
    (hlink : w'.link = Function.update w.link rule none) : MatchIndexed keys w' := by
  have hmem := (h.filed l.registry l.monitor (matchRoute (keys rule)) rule).mpr ⟨rfl, l, hrule, rfl, rfl⟩
  obtain ⟨hsound, hview⟩ := matchTreeUnlink_spec (h.sound l.registry l.monitor) hmem
  have hcleared : ∀ r m, ¬LinkedIn (Function.update w.link rule none) r m rule := by
    intro r m hlinked
    obtain ⟨l', hl', -⟩ := (linkedIn_update_self ..).mp hlinked
    cases hl'
  refine h.setTree hsound hregistries (fun a rule' => ?_) fun r m htree rule' => ?_
  · rw [hview, hlink]
    by_cases hsame : rule' = rule
    · subst hsame
      refine iff_of_false ?_ fun hlinked => hcleared _ _ hlinked.2
      split
      · exact ((pathLevel ι).nodup_view (h.sound l.registry l.monitor)).not_mem_erase
      · next ha => exact fun hin => ha ((h.filed _ _ a rule').mp hin).1
    · rw [linkedIn_update_of_ne _ hsame, ← h.filed]
      split
      · rw [List.mem_erase_of_ne hsame]
      · rfl
  · rw [hlink]
    by_cases hsame : rule' = rule
    · subst hsame
      refine iff_of_false (hcleared r m) ?_
      rintro ⟨l', hl', hr, hm⟩
      rw [hrule] at hl'
      cases hl'
      exact htree ⟨hr.symm, hm.symm⟩
    · exact linkedIn_update_of_ne _ hsame _ r m

omit [DecidableEq ρ] in
/-- Clearing the link of a rule leaves the trees and all other links. -/
theorem matchLinkClear_spec (owner : ι → ο) (w : MatchWorld ρ ι ο) (rule : ι) :
    (matchLinkClear owner w rule).registries = w.registries ∧
      (matchLinkClear owner w rule).link = Function.update w.link rule none := by
  unfold matchLinkClear
  split
  · next hnone => exact ⟨rfl, by rw [← hnone, Function.update_eq_self]⟩
  · split
    · exact ⟨rfl, rfl⟩
    · exact ⟨rfl, rfl⟩

omit [DecidableEq ρ] in
/-- What clearing the links of some rules leaves. -/
theorem foldl_matchLinkClear (owner : ι → ο) (rules : List ι) (w : MatchWorld ρ ι ο) :
    (rules.foldl (matchLinkClear owner) w).registries = w.registries ∧
      ∀ rule, (rules.foldl (matchLinkClear owner) w).link rule = if rule ∈ rules then none else w.link rule := by
  induction rules generalizing w with
  | nil => simp
  | cons x rules ih =>
    obtain ⟨hregistries, hlink⟩ := ih (matchLinkClear owner w x)
    obtain ⟨hregistries', hlink'⟩ := matchLinkClear_spec owner w x
    rw [List.foldl_cons]
    refine ⟨hregistries.trans hregistries', fun rule => ?_⟩
    rw [hlink, hlink', Function.update_apply]
    by_cases hx : rule = x
    · simp [hx]
    · simp [hx]

omit [DecidableEq ρ] [DecidableEq ι] [DecidableEq ο] in
/-- The rules that a flush finds are those linked in the registry. -/
theorem MatchIndexed.mem_rules_iff (h : MatchIndexed keys w) (r : ρ) (rule : ι) :
    rule ∈ matchTreeRules (w.registries r).subscriptionTree ++ matchTreeRules (w.registries r).monitorTree ↔
      ∃ l, w.link rule = some l ∧ l.registry = r := by
  have htree : ∀ m, rule ∈ matchTreeRules ((w.registries r).tree m) ↔ LinkedIn w.link r m rule := by
    intro m
    rw [mem_matchTreeRules_iff]
    exact ⟨fun ⟨a, ha⟩ => ((h.filed r m a rule).mp ha).2, fun hl => ⟨_, (h.filed r m _ rule).mpr ⟨rfl, hl⟩⟩⟩
  have hsubscription : rule ∈ matchTreeRules (w.registries r).subscriptionTree ↔ LinkedIn w.link r false rule :=
    htree false
  have hmonitor : rule ∈ matchTreeRules (w.registries r).monitorTree ↔ LinkedIn w.link r true rule := htree true
  rw [List.mem_append, hsubscription, hmonitor]
  constructor
  · rintro (⟨l, hl, hr, -⟩ | ⟨l, hl, hr, -⟩)
    · exact ⟨l, hl, hr⟩
    · exact ⟨l, hl, hr⟩
  · rintro ⟨l, hl, hr⟩
    cases hm : l.monitor with
    | false => exact Or.inl ⟨l, hl, hr, hm⟩
    | true => exact Or.inr ⟨l, hl, hr, hm⟩

/-- A flush unlinks the rules of its registry. -/
theorem matchRegistryFlush_link (h : MatchIndexed keys w) (r : ρ) (rule : ι) :
    (matchRegistryFlush owner w r).link rule = (w.link rule).filter fun l => l.registry ≠ r := by
  have hlink := (foldl_matchLinkClear owner
    (matchTreeRules (w.registries r).subscriptionTree ++ matchTreeRules (w.registries r).monitorTree) w).2 rule
  rw [matchRegistryFlush]
  refine hlink.trans ?_
  simp only [h.mem_rules_iff]
  cases hrule : w.link rule with
  | none => simp
  | some l =>
    by_cases hr : l.registry = r
    · simp [Option.filter, hr]
    · simp [Option.filter, hr]

/-- A flush empties both trees of its registry and keeps the index. -/
theorem MatchIndexed.flush (h : MatchIndexed keys w) (r : ρ) :
    MatchIndexed keys (matchRegistryFlush owner w r) := by
  have hregistries : (matchRegistryFlush owner w r).registries =
      Function.update w.registries r matchRegistryInit := by
    have hclear := (foldl_matchLinkClear owner
      (matchTreeRules (w.registries r).subscriptionTree ++ matchTreeRules (w.registries r).monitorTree) w).1
    have hsubscription := matchTreeFlush_eq_empty (h.sound r false)
    have hmonitor := matchTreeFlush_eq_empty (h.sound r true)
    rw [MatchRegistry.tree] at hsubscription hmonitor
    simp only [matchRegistryFlush, hclear, matchRegistryInit]
    simp only [Bool.false_eq_true, if_false, if_true] at hsubscription hmonitor
    rw [hsubscription, hmonitor]
  have hlinked : ∀ r' m rule, LinkedIn (matchRegistryFlush owner w r).link r' m rule ↔
      r' ≠ r ∧ LinkedIn w.link r' m rule := by
    intro r' m rule
    simp only [LinkedIn, matchRegistryFlush_link h, Option.filter_eq_some_iff, decide_eq_true_eq]
    constructor
    · rintro ⟨l, ⟨hl, hne⟩, hr, hm⟩
      exact ⟨hr ▸ hne, l, hl, hr, hm⟩
    · rintro ⟨hne, l, hl, hr, hm⟩
      exact ⟨l, ⟨hl, hr ▸ hne⟩, hr, hm⟩
  have hempty : ∀ m, (matchRegistryInit : MatchRegistry ι).tree m = .empty := by
    intro m
    cases m <;> rfl
  constructor
  · intro r' m
    rw [hregistries]
    by_cases hr : r' = r
    · rw [hr, Function.update_self, hempty]
      exact Level.sound_empty _
    · rw [Function.update_of_ne hr]
      exact h.sound r' m
  · intro r' m a rule
    rw [hregistries, hlinked]
    by_cases hr : r' = r
    · rw [hr, Function.update_self, hempty]
      exact iff_of_false List.not_mem_nil fun hin => hin.2.1 rfl
    · rw [Function.update_of_ne hr, h.filed]
      simp [hr]

/-- Every operation keeps the index, and moves the links as the naive record says. -/
theorem matchIndexed_step (owner : ι → ο) (h : MatchIndexed keys w) (op : MatchOp ρ ι) :
    MatchIndexed keys (w.step keys owner op) ∧
      ∀ rule, ((w.step keys owner op).link rule).map (fun l => (l.registry, l.monitor)) =
        scanStep (fun rule => (w.link rule).map fun l => (l.registry, l.monitor)) op rule := by
  cases op with
  | link rule counted registry monitor =>
    rw [MatchWorld.step, matchRuleLink]
    cases hrule : w.link rule with
    | some l => exact ⟨h.congr rfl rfl, fun rule' => by simp [scanStep, hrule, MatchWorld.check]⟩
    | none =>
      have hindexed : MatchIndexed keys { w with
          registries := Function.update w.registries registry ((w.registries registry).setTree monitor
            (matchTreeLink rule (keys rule) ((w.registries registry).tree monitor)))
          link := Function.update w.link rule (some ⟨registry, monitor, counted⟩) } :=
        h.link hrule ⟨registry, monitor, counted⟩ rfl rfl
      have hmoved : ∀ rule', ((Function.update w.link rule (some ⟨registry, monitor, counted⟩) rule').map
          fun l => (l.registry, l.monitor)) = scanStep (fun rule => (w.link rule).map fun l =>
            (l.registry, l.monitor)) (.link rule counted registry monitor) rule' := by
        intro rule'
        by_cases hsame : rule' = rule
        · simp [scanStep, hrule, hsame]
        · simp [scanStep, hrule, hsame]
      cases counted with
      | true => exact ⟨hindexed.congr rfl rfl, hmoved⟩
      | false => exact ⟨hindexed, hmoved⟩
  | unlink rule =>
    rw [MatchWorld.step, matchRuleUnlink]
    cases hrule : w.link rule with
    | none =>
      refine ⟨h, fun rule' => ?_⟩
      by_cases hsame : rule' = rule
      · simp [scanStep, hrule, hsame]
      · simp [scanStep, hsame]
    | some l =>
      obtain ⟨hregistries, hlink⟩ := matchLinkClear_spec owner w rule
      refine ⟨h.unlink hrule (by simp only [hregistries]) hlink, fun rule' => ?_⟩
      simp only [hlink]
      by_cases hsame : rule' = rule
      · simp [scanStep, hsame]
      · simp [scanStep, hsame]
  | flush registry =>
    refine ⟨h.flush registry, fun rule => ?_⟩
    rw [MatchWorld.step, matchRegistryFlush_link h]
    cases hrule : w.link rule with
    | none => simp [scanStep, hrule]
    | some l =>
      by_cases hr : l.registry = registry
      · simp [scanStep, hrule, Option.filter, hr]
      · simp [scanStep, hrule, Option.filter, hr]

omit [DecidableEq ρ] [DecidableEq ι] [DecidableEq ο] in
/-- Nothing is linked at the start. -/
theorem matchIndexed_init (keys : ι → MatchKeys) : MatchIndexed keys (MatchWorld.init : MatchWorld ρ ι ο) := by
  have hempty : ∀ m, (matchRegistryInit : MatchRegistry ι).tree m = .empty := by
    intro m
    cases m <;> rfl
  constructor
  · intro r m
    simp only [MatchWorld.init, hempty]
    exact Level.sound_empty _
  · intro r m a rule
    simp only [MatchWorld.init, hempty]
    refine iff_of_false List.not_mem_nil ?_
    rintro ⟨-, l, hl, -⟩
    cases hl

/-- Every run keeps the index, and the links are those of the naive record. -/
theorem matchIndexed_run (keys : ι → MatchKeys) (owner : ι → ο) (ops : List (MatchOp ρ ι)) :
    MatchIndexed keys (run (MatchWorld.step keys owner) .init ops) ∧
      ∀ rule, ((run (MatchWorld.step keys owner) .init ops).link rule).map (fun l => (l.registry, l.monitor)) =
        run scanStep (fun _ => none) ops rule := by
  have hrun : ∀ (w : MatchWorld ρ ι ο) (links : ι → Option (ρ × Bool)), MatchIndexed keys w →
      (∀ rule, (w.link rule).map (fun l => (l.registry, l.monitor)) = links rule) →
      MatchIndexed keys (run (MatchWorld.step keys owner) w ops) ∧
        ∀ rule, ((run (MatchWorld.step keys owner) w ops).link rule).map (fun l => (l.registry, l.monitor)) =
          run scanStep links ops rule := by
    induction ops with
    | nil => exact fun w links h hlinks => ⟨h, hlinks⟩
    | cons op ops ih =>
      intro w links h hlinks
      obtain ⟨hstep, hmoved⟩ := matchIndexed_step owner h op
      rw [run_cons, run_cons]
      refine ih _ _ hstep fun rule => ?_
      rw [hmoved, funext hlinks]
  exact hrun _ _ (matchIndexed_init keys) fun _ => rfl

omit [DecidableEq ρ] [DecidableEq ι] in
/-- A lookup in an indexed tree yields the owners of the matching rules linked in it, each once. -/
theorem MatchIndexed.getDestinations (h : MatchIndexed keys w) (owner : ι → ο) (r : ρ) (m : Bool)
    (metadata : MessageMetadata) :
    (matchRegistryGetDestinations owner ((w.registries r).tree m) [] metadata).Nodup ∧
      ∀ o, o ∈ matchRegistryGetDestinations owner ((w.registries r).tree m) [] metadata ↔
        ∃ rule, LinkedIn w.link r m rule ∧ matchKeysMatchMetadata (keys rule) metadata = true ∧
          o = owner rule := by
  obtain ⟨hnodup, hmem⟩ := collects_matchRegistryGetDestinations owner ((w.registries r).tree m) metadata []
  refine ⟨hnodup List.nodup_nil, fun o => (hmem o).trans ?_⟩
  rw [or_iff_right List.not_mem_nil]
  constructor
  · rintro ⟨a, rule, hlooked, hrule, ho⟩
    obtain ⟨rfl, hlinked⟩ := (h.filed r m a rule).mp hrule
    exact ⟨rule, hlinked, (lookedUp_matchRoute_iff _ _).mp hlooked, ho⟩
  · rintro ⟨rule, hlinked, hmatch, ho⟩
    exact ⟨matchRoute (keys rule), rule, (lookedUp_matchRoute_iff _ _).mpr hmatch,
      (h.filed r m _ rule).mpr ⟨rfl, hlinked⟩, ho⟩

/-- In every reachable state, the destinations of a message are the owners of the rules that are
linked in the tree of its kind and match it, each of them once. -/
theorem getDestinations_run_eq_scan (keys : ι → MatchKeys) (owner : ι → ο) (ops : List (MatchOp ρ ι)) (r : ρ)
    (metadata : MessageMetadata) :
    let registry := (run (MatchWorld.step keys owner) .init ops).registries r
    let linked := run scanStep (fun _ => none) ops
    ((matchRegistryGetSubscribers owner registry [] metadata).Nodup ∧
      ∀ o, o ∈ matchRegistryGetSubscribers owner registry [] metadata ↔
        ∃ rule, linked rule = some (r, false) ∧ matchKeysMatchMetadata (keys rule) metadata = true ∧
          o = owner rule) ∧
    (matchRegistryGetMonitors owner registry [] metadata).Nodup ∧
      ∀ o, o ∈ matchRegistryGetMonitors owner registry [] metadata ↔
        ∃ rule, linked rule = some (r, true) ∧ matchKeysMatchMetadata (keys rule) metadata = true ∧
          o = owner rule := by
  intro registry linked
  obtain ⟨hindexed, hlinks⟩ := matchIndexed_run keys owner ops
  have hlinked : ∀ m rule, linked rule = some (r, m) ↔
      LinkedIn (run (MatchWorld.step keys owner) .init ops).link r m rule := by
    intro m rule
    change run scanStep (fun _ => none) ops rule = _ ↔ _
    rw [← hlinks rule, Option.map_eq_some_iff, LinkedIn]
    simp only [Prod.mk.injEq]
  simp only [hlinked]
  exact ⟨hindexed.getDestinations owner r false metadata, hindexed.getDestinations owner r true metadata⟩

end Scan

end DbusBroker
