import DbusBroker.Lib.Run
import DbusBroker.Bus.MatchRegistry

/-!
# The index equals a scan

A lookup in a match registry walks at most two nodes on each of the levels by path, by
interface and by member. In every reachable state it yields the owners of exactly those
linked rules that match the message, each of them once.

The trees are read as levels of a reference counted index: a rule is filed at the address
that its keys give, and nowhere else.
-/

namespace DbusBroker

open Std Machine Counted

section Levels

variable {ι : Type}

/-- The level of the nodes by keys. -/
abbrev keysLevel (ι : Type) := Level.tree matchKeysCompare (Level.leaf ι)

/-- The level of the nodes by member. -/
abbrev memberLevel (ι : Type) := Level.tree strcmp (keysLevel ι)

/-- The level of the nodes by interface. -/
abbrev interfaceLevel (ι : Type) := Level.tree strcmp (memberLevel ι)

/-- The level of the nodes by path. -/
abbrev pathLevel (ι : Type) := Level.tree strcmp (interfaceLevel ι)

/-- The address of a rule in a tree. -/
abbrev MatchAddress := Bytes × Bytes × Bytes × MatchKeys × Unit

/-- The address that a key set gives. -/
def matchRoute (keys : MatchKeys) : MatchAddress :=
  (keys.filter.path.getD [], keys.filter.interface.getD [], keys.filter.member.getD [], keys, ())

/-- Linking a rule to a node by keys appends it. -/
theorem files_matchRuleLinkByKeys (rule : ι) : (Level.leaf ι).Files () rule (matchRuleLinkByKeys rule) := by
  intro c hc hfresh
  refine ⟨⟨?_, ?_⟩, fun a => ?_⟩
  · have hcount : c.nRefs = c.content.length + 1 := hc.1
    change c.nRefs + 1 = (c.content ++ [rule]).length + 1
    rw [hcount, List.length_append, List.length_singleton]
  · exact List.nodup_append.mpr ⟨hc.2, List.nodup_singleton rule, fun x hx y hy hxy =>
      hfresh (List.mem_singleton.mp hy ▸ hxy ▸ hx)⟩
  · rw [if_pos rfl]
    rfl

/-- Linking a rule below a node by member files it. -/
theorem files_matchRuleLinkByMember (rule : ι) (keys : MatchKeys) :
    (keysLevel ι).Files (keys, ()) rule (matchRuleLinkByMember rule keys) :=
  Level.files_visitChild _ ⟨rfl, List.nodup_nil⟩ (files_matchRuleLinkByKeys rule)

/-- Linking a rule below a node by interface files it. -/
theorem files_matchRuleLinkByInterface (rule : ι) (keys : MatchKeys) :
    (memberLevel ι).Files (keys.filter.member.getD [], keys, ()) rule (matchRuleLinkByInterface rule keys) :=
  Level.files_visitChild _ ⟨rfl, Level.sound_empty _⟩ (files_matchRuleLinkByMember rule keys)

/-- Linking a rule below a node by path files it. -/
theorem files_matchRuleLinkByPath (rule : ι) (keys : MatchKeys) :
    (interfaceLevel ι).Files (keys.filter.interface.getD [], keys.filter.member.getD [], keys, ()) rule
      (matchRuleLinkByPath rule keys) :=
  Level.files_visitChild _ ⟨rfl, Level.sound_empty _⟩ (files_matchRuleLinkByInterface rule keys)

/-- Linking a rule files it at the address of its keys. -/
theorem matchTreeLink_spec {t : MatchTree ι} {rule : ι} {keys : MatchKeys} (ht : (pathLevel ι).Sound t)
    (hfresh : rule ∉ (pathLevel ι).view t (matchRoute keys)) :
    (pathLevel ι).Sound (matchTreeLink rule keys t) ∧
      ∀ a, (pathLevel ι).view (matchTreeLink rule keys t) a =
        if a = matchRoute keys then (pathLevel ι).view t a ++ [rule] else (pathLevel ι).view t a :=
  Level.visit_files _ ht ⟨rfl, Level.sound_empty _⟩ (files_matchRuleLinkByPath rule keys) hfresh

variable [DecidableEq ι]

/-- Unlinking a rule from a node by keys takes it off the list. -/
theorem unfiles_matchRuleUnlinkByKeys (rule : ι) :
    (Level.leaf ι).Unfiles () rule (matchRuleUnlinkByKeys rule) := by
  intro c hc hmem
  refine ⟨⟨?_, List.Nodup.erase rule hc.2⟩, fun a => ?_⟩
  · have hcount : c.nRefs = c.content.length + 0 := hc.1
    have hlength : (c.content.erase rule).length = c.content.length - 1 := List.length_erase_of_mem hmem
    change c.nRefs - 1 = (c.content.erase rule).length + 0
    rw [hcount, hlength]
    rfl
  · rw [if_pos rfl]
    rfl

/-- Unlinking a rule takes it off the address of its keys. -/
theorem matchTreeUnlink_spec {t : MatchTree ι} {rule : ι} {keys : MatchKeys} (ht : (pathLevel ι).Sound t)
    (hmem : rule ∈ (pathLevel ι).view t (matchRoute keys)) :
    (pathLevel ι).Sound (matchTreeUnlink rule keys t) ∧
      ∀ a, (pathLevel ι).view (matchTreeUnlink rule keys t) a =
        if a = matchRoute keys then ((pathLevel ι).view t a).erase rule else (pathLevel ι).view t a := by
  have hkeys : (keysLevel ι).Unfiles (keys, ()) rule fun c => dropChild c keys (matchRuleUnlinkByKeys rule) :=
    Level.unfiles_dropChild _ (unfiles_matchRuleUnlinkByKeys rule)
  have hmember : (memberLevel ι).Unfiles (keys.filter.member.getD [], keys, ()) rule fun c =>
      dropChild c (keys.filter.member.getD []) fun c => dropChild c keys (matchRuleUnlinkByKeys rule) :=
    Level.unfiles_dropChild _ hkeys
  exact Level.drop_unfiles _ ht (Level.unfiles_dropChild _ hmember) hmem

/-- Unlinking all rules of a node by keys empties it. -/
theorem empties_matchRegistryByKeysFlush : (Level.leaf ι).Empties matchRegistryByKeysFlush := by
  intro c hc
  have hfold : ∀ (l : List ι) (n : ℕ),
      l.foldl (fun c rule => matchRuleUnlinkByKeys rule c) (⟨n, l⟩ : MatchRegistryByKeys ι) =
        ⟨n - l.length, []⟩ := by
    intro l
    induction l with
    | nil => intro n; rfl
    | cons x l ih =>
      intro n
      have hhead : matchRuleUnlinkByKeys x (⟨n, x :: l⟩ : MatchRegistryByKeys ι) = ⟨n - 1, l⟩ := by
        rw [matchRuleUnlinkByKeys, List.erase_cons_head]
      rw [List.foldl_cons, hhead, ih, List.length_cons, Nat.sub_sub, Nat.add_comm]
  have hcount : c.nRefs = c.content.length + 1 := hc.1
  have hflush : matchRegistryByKeysFlush c = ⟨1, []⟩ := by
    rw [matchRegistryByKeysFlush, hfold c.content c.nRefs, hcount, Nat.add_sub_cancel_left]
  rw [hflush]
  exact ⟨⟨rfl, List.nodup_nil⟩, rfl⟩

/-- Flushing a node by member empties it. -/
theorem empties_matchRegistryByMemberFlush : (keysLevel ι).Empties matchRegistryByMemberFlush :=
  Level.empties_flushChildren _ ⟨rfl, List.nodup_nil⟩ empties_matchRegistryByKeysFlush

/-- Flushing a node by interface empties it. -/
theorem empties_matchRegistryByInterfaceFlush : (memberLevel ι).Empties matchRegistryByInterfaceFlush :=
  Level.empties_flushChildren _ ⟨rfl, Level.sound_empty _⟩ empties_matchRegistryByMemberFlush

/-- Flushing a node by path empties it. -/
theorem empties_matchRegistryByPathFlush : (interfaceLevel ι).Empties matchRegistryByPathFlush :=
  Level.empties_flushChildren _ ⟨rfl, Level.sound_empty _⟩ empties_matchRegistryByInterfaceFlush

/-- Flushing a sound tree empties it. -/
theorem matchTreeFlush_eq_empty {t : MatchTree ι} (ht : (pathLevel ι).Sound t) : matchTreeFlush t = .empty :=
  Level.flush_eq_empty _ ht ⟨rfl, Level.sound_empty _⟩ empties_matchRegistryByPathFlush

omit [DecidableEq ι] in
/-- The rules below the nodes of a tree are the rules filed in it. -/
theorem mem_flatMap_values_iff {κ α A : Type} {cmp : κ → κ → Ordering} [TransCmp cmp] [LawfulEqCmp cmp]
    (L : Level α A ι) (t : SearchTree cmp (Counted α)) (rules : α → List ι)
    (h : ∀ x rule, rule ∈ rules x ↔ ∃ a, rule ∈ L.view x a) (rule : ι) :
    rule ∈ (t.values.flatMap fun c => rules c.content) ↔ ∃ a, rule ∈ (Level.tree cmp L).view t a := by
  simp only [List.mem_flatMap, SearchTree.values, List.mem_map]
  constructor
  · rintro ⟨c, ⟨⟨k, c'⟩, hentry, rfl⟩, hmem⟩
    obtain ⟨a, ha⟩ := (h _ _).mp hmem
    refine ⟨(k, a), ?_⟩
    rw [L.view_of_find?_some ((t.find?_eq_some_iff k c').mpr hentry)]
    exact ha
  · rintro ⟨a, ha⟩
    obtain ⟨c, hfind, hmem⟩ := L.exists_of_mem_view ha
    exact ⟨c, ⟨(a.1, c), (t.find?_eq_some_iff a.1 c).mp hfind, rfl⟩, (h _ _).mpr ⟨a.2, hmem⟩⟩

omit [DecidableEq ι] in
/-- The rules of a tree are the rules filed in it. -/
theorem mem_matchTreeRules_iff (t : MatchTree ι) (rule : ι) :
    rule ∈ matchTreeRules t ↔ ∃ a, rule ∈ (pathLevel ι).view t a := by
  have hkeys : ∀ x r, r ∈ (x.values.flatMap fun c => c.content) ↔ ∃ a, r ∈ (keysLevel ι).view x a :=
    fun x => mem_flatMap_values_iff (Level.leaf ι) x (fun l => l) fun _ _ => ⟨fun h => ⟨(), h⟩, fun ⟨_, h⟩ => h⟩
  have hmember : ∀ x r, r ∈ (x.values.flatMap fun c => c.content.values.flatMap fun c => c.content) ↔
      ∃ a, r ∈ (memberLevel ι).view x a := fun x => mem_flatMap_values_iff (keysLevel ι) x _ hkeys
  have hinterface : ∀ x r, r ∈ (x.values.flatMap fun c => c.content.values.flatMap fun c =>
      c.content.values.flatMap fun c => c.content) ↔ ∃ a, r ∈ (interfaceLevel ι).view x a :=
    fun x => mem_flatMap_values_iff (memberLevel ι) x _ hmember
  exact mem_flatMap_values_iff (interfaceLevel ι) t _ hinterface rule

end Levels

section Lookup

variable {ι ο : Type} [DecidableEq ο] (owner : ι → ο)

/-- A function that adds a set of owners to a list of destinations, each once. -/
def Collects (f : List ο → List ο) (s : ο → Prop) : Prop :=
  ∀ destinations, (destinations.Nodup → (f destinations).Nodup) ∧
    ∀ o, o ∈ f destinations ↔ o ∈ destinations ∨ s o

omit [DecidableEq ο] in
/-- Adding nothing. -/
theorem collects_id : Collects (fun destinations : List ο => destinations) fun _ => False :=
  fun _ => ⟨id, fun _ => by rw [or_false]⟩

omit [DecidableEq ο] in
/-- Adding two sets one after the other. -/
theorem Collects.comp {f g : List ο → List ο} {s s' : ο → Prop} (hf : Collects f s) (hg : Collects g s') :
    Collects (fun destinations => g (f destinations)) fun o => s o ∨ s' o := by
  intro destinations
  refine ⟨fun h => (hg _).1 ((hf _).1 h), fun o => ?_⟩
  rw [(hg _).2, (hf _).2, or_assoc]

omit [DecidableEq ο] in
/-- The same set in other words. -/
theorem Collects.congr {f : List ο → List ο} {s s' : ο → Prop} (hf : Collects f s) (h : ∀ o, s o ↔ s' o) :
    Collects f s' :=
  fun destinations => ⟨(hf destinations).1, fun o => ((hf destinations).2 o).trans (or_congr_right (h o))⟩

omit [DecidableEq ο] in
/-- Adding a set for every entry of a list. -/
theorem collects_foldl {α : Type} (f : α → List ο → List ο) (s : α → ο → Prop) (l : List α)
    (h : ∀ x ∈ l, Collects (f x) (s x)) :
    Collects (fun destinations => l.foldl (fun destinations x => f x destinations) destinations)
      fun o => ∃ x ∈ l, s x o := by
  induction l with
  | nil => exact collects_id.congr fun o => by simp
  | cons x l ih =>
    have hrest := ih fun y hy => h y (List.mem_cons_of_mem x hy)
    refine ((h x List.mem_cons_self).comp hrest).congr fun o => ?_
    simp only [List.exists_mem_cons_iff]

/-- Adding one owner. -/
theorem collects_addDestination (o : ο) : Collects (fun destinations => addDestination destinations o) (· = o) := by
  intro destinations
  simp only [addDestination]
  split
  · next hmem =>
    refine ⟨id, fun o' => ⟨Or.inl, fun h => ?_⟩⟩
    rcases h with h | rfl
    · exact h
    · exact hmem
  · next hmem =>
    refine ⟨fun h => ?_, fun o' => by rw [List.mem_append, List.mem_singleton]⟩
    refine List.nodup_append.mpr ⟨h, List.nodup_singleton o, fun x hx y hy hxy => hmem ?_⟩
    exact List.mem_singleton.mp hy ▸ hxy ▸ hx

/-- A node by keys adds the owners of its rules. -/
theorem collects_byKeys (c : MatchRegistryByKeys ι) :
    Collects (matchRegistryByKeysGetDestinations owner c) fun o => ∃ rule ∈ c.content, o = owner rule :=
  collects_foldl (fun rule destinations => addDestination destinations (owner rule)) (fun rule o => o = owner rule)
    c.content fun rule _ => collects_addDestination (owner rule)

/-- A node by member adds the owners of the rules whose keys match. -/
theorem collects_byMember (c : MatchRegistryByMember ι) (metadata : MessageMetadata) :
    Collects (fun destinations => matchRegistryByMemberGetDestinations owner c destinations metadata) fun o =>
      ∃ keys rule, matchKeysMatchMetadata keys metadata = true ∧
        rule ∈ (keysLevel ι).view c.content (keys, ()) ∧ o = owner rule := by
  have hentry : ∀ e ∈ c.content.entries, Collects
      (fun destinations => if matchKeysMatchMetadata e.1 metadata then
        matchRegistryByKeysGetDestinations owner e.2 destinations else destinations)
      fun o => matchKeysMatchMetadata e.1 metadata = true ∧ ∃ rule ∈ e.2.content, o = owner rule := by
    intro e _
    by_cases hmatch : matchKeysMatchMetadata e.1 metadata = true
    · simp only [hmatch, if_true, true_and]
      exact collects_byKeys owner e.2
    · simp only [if_neg hmatch]
      exact collects_id.congr fun o => ⟨False.elim, fun h => hmatch h.1⟩
  refine (collects_foldl _ _ _ hentry).congr fun o => ⟨?_, ?_⟩
  · rintro ⟨⟨keys, node⟩, hmem, hmatch, rule, hrule, ho⟩
    refine ⟨keys, rule, hmatch, ?_, ho⟩
    rw [Level.view_of_find?_some _ ((c.content.find?_eq_some_iff keys node).mpr hmem)]
    exact hrule
  · rintro ⟨keys, rule, hmatch, hrule, ho⟩
    obtain ⟨node, hfind, hmem⟩ := Level.exists_of_mem_view _ hrule
    exact ⟨(keys, node), (c.content.find?_eq_some_iff keys node).mp hfind, hmatch, rule, hmem, ho⟩

omit [DecidableEq ο] in
/-- A lookup adds what the node without a key and the node of the message's key add. -/
theorem collects_lookup {α A : Type} (L : Level α A ι) (t : StringTree (Counted α)) (key : Option Bytes)
    (collect : Counted α → List ο → List ο) (s : A → ι → ο → Prop)
    (h : ∀ c, Collects (collect c) fun o => ∃ a rule, rule ∈ L.view c.content a ∧ s a rule o) :
    Collects (lookupDestinations t key collect) fun o =>
      ∃ k a rule, (k = [] ∨ key = some k) ∧ rule ∈ (Level.tree strcmp L).view t (k, a) ∧ s a rule o := by
  have hnode : ∀ k, Collects (collectFound collect (t.find? k)) fun o =>
      ∃ a rule, rule ∈ (Level.tree strcmp L).view t (k, a) ∧ s a rule o := by
    intro k
    cases hfind : t.find? k with
    | none => exact collects_id.congr fun o => by simp [L.view_of_find?_none hfind]
    | some c =>
      refine (h c).congr fun o => ?_
      simp only [L.view_of_find?_some hfind]
  have hkey : Collects (collectFound collect (key.bind t.find?)) fun o =>
      ∃ k a rule, key = some k ∧ rule ∈ (Level.tree strcmp L).view t (k, a) ∧ s a rule o := by
    cases key with
    | none => exact collects_id.congr fun o => by simp
    | some k => exact (hnode k).congr fun o => by simp
  refine ((hnode []).comp hkey).congr fun o => ⟨?_, ?_⟩
  · rintro (⟨a, rule, hrule⟩ | ⟨k, a, rule, hk, hrule⟩)
    · exact ⟨[], a, rule, Or.inl rfl, hrule⟩
    · exact ⟨k, a, rule, Or.inr hk, hrule⟩
  · rintro ⟨k, a, rule, rfl | hk, hrule⟩
    · exact Or.inl ⟨a, rule, hrule⟩
    · exact Or.inr ⟨k, a, rule, hk, hrule⟩

/-- The addresses that a lookup visits for a message. -/
def LookedUp (metadata : MessageMetadata) (a : MatchAddress) : Prop :=
  (a.1 = [] ∨ metadata.path = some a.1) ∧ (a.2.1 = [] ∨ metadata.interface = some a.2.1) ∧
    (a.2.2.1 = [] ∨ metadata.member = some a.2.2.1) ∧ matchKeysMatchMetadata a.2.2.2.1 metadata = true

/-- A lookup adds the owners of the rules filed at the visited addresses. -/
theorem collects_matchRegistryGetDestinations (t : MatchTree ι) (metadata : MessageMetadata) :
    Collects (fun destinations => matchRegistryGetDestinations owner t destinations metadata) fun o =>
      ∃ a rule, LookedUp metadata a ∧ rule ∈ (pathLevel ι).view t a ∧ o = owner rule := by
  have hmember : ∀ c : MatchRegistryByMember ι, Collects
      (fun destinations => matchRegistryByMemberGetDestinations owner c destinations metadata) fun o =>
      ∃ (a : MatchKeys × Unit) (rule : ι), rule ∈ (keysLevel ι).view c.content a ∧
        (matchKeysMatchMetadata a.1 metadata = true ∧ o = owner rule) := by
    intro c
    refine (collects_byMember owner c metadata).congr fun o => ⟨?_, ?_⟩
    · rintro ⟨keys, rule, hmatch, hrule, ho⟩
      exact ⟨(keys, ()), rule, hrule, hmatch, ho⟩
    · rintro ⟨a, rule, hrule, hmatch, ho⟩
      exact ⟨a.1, rule, hmatch, hrule, ho⟩
  have hinterface : ∀ c : MatchRegistryByInterface ι, Collects
      (fun destinations => matchRegistryByInterfaceGetDestinations owner c destinations metadata) fun o =>
      ∃ (a : Bytes × MatchKeys × Unit) (rule : ι), rule ∈ (memberLevel ι).view c.content a ∧
        ((a.1 = [] ∨ metadata.member = some a.1) ∧ matchKeysMatchMetadata a.2.1 metadata = true ∧
          o = owner rule) := by
    intro c
    refine (collects_lookup (keysLevel ι) c.content metadata.member _ _ hmember).congr fun o => ⟨?_, ?_⟩
    · rintro ⟨k, a, rule, hk, hrule, hmatch, ho⟩
      exact ⟨(k, a), rule, hrule, hk, hmatch, ho⟩
    · rintro ⟨⟨k, a⟩, rule, hrule, hk, hmatch, ho⟩
      exact ⟨k, a, rule, hk, hrule, hmatch, ho⟩
  have hpath : ∀ c : MatchRegistryByPath ι, Collects
      (fun destinations => matchRegistryByPathGetDestinations owner c destinations metadata) fun o =>
      ∃ (a : Bytes × Bytes × MatchKeys × Unit) (rule : ι), rule ∈ (interfaceLevel ι).view c.content a ∧
        ((a.1 = [] ∨ metadata.interface = some a.1) ∧ (a.2.1 = [] ∨ metadata.member = some a.2.1) ∧
          matchKeysMatchMetadata a.2.2.1 metadata = true ∧ o = owner rule) := by
    intro c
    refine (collects_lookup (memberLevel ι) c.content metadata.interface _ _ hinterface).congr
      fun o => ⟨?_, ?_⟩
    · rintro ⟨k, a, rule, hk, hrule, hrest⟩
      exact ⟨(k, a), rule, hrule, hk, hrest⟩
    · rintro ⟨⟨k, a⟩, rule, hrule, hk, hrest⟩
      exact ⟨k, a, rule, hk, hrule, hrest⟩
  refine (collects_lookup (interfaceLevel ι) t metadata.path _ _ hpath).congr fun o => ⟨?_, ?_⟩
  · rintro ⟨k, a, rule, hk, hrule, hinterface', hmember', hmatch, ho⟩
    exact ⟨(k, a), rule, ⟨hk, hinterface', hmember', hmatch⟩, hrule, ho⟩
  · rintro ⟨⟨k, a⟩, rule, ⟨hk, hinterface', hmember', hmatch⟩, hrule, ho⟩
    exact ⟨k, a, rule, hk, hrule, hinterface', hmember', hmatch, ho⟩

/-- A key that must equal the one of the message is looked up. -/
theorem lookedUp_key {key value : Option Bytes} (h : (key.isNone || stringEqual key value) = true) :
    key.getD [] = [] ∨ value = some (key.getD []) := by
  cases key with
  | none => exact Or.inl rfl
  | some k =>
    rw [Option.isNone_some, Bool.false_or, stringEqual_iff] at h
    exact Or.inr h.symm

/-- The address of keys that match a message is visited. -/
theorem lookedUp_matchRoute_iff (keys : MatchKeys) (metadata : MessageMetadata) :
    LookedUp metadata (matchRoute keys) ↔ matchKeysMatchMetadata keys metadata = true := by
  refine ⟨fun h => h.2.2.2, fun h => ?_⟩
  have hmatch := h
  simp only [matchKeysMatchMetadata, Bool.and_eq_true] at h
  exact ⟨lookedUp_key h.2, lookedUp_key h.1.1.2, lookedUp_key h.1.2, hmatch⟩

end Lookup

end DbusBroker
