import DbusBroker.Launch.ConfigFlatten
import DbusBroker.Lib.Worklist

/-!
# Chains of inclusion

The parser passes an include over if the path of its file is one of those that the include comes from. As long as
this finds every file that is included again in its own chain of inclusion, the list of includes runs dry, however
long it grows in between. A file that is included by another path is not found.
-/

namespace DbusBroker.Config

open Forest

/-- The state that `config_parser_read` starts with. -/
def State.start (path : Bytes) : State :=
  ⟨[mainInclude path], [0], [0], configPathNew none none path, 0, 0, 0, 0, none, false⟩

/-- The states in which `config_parser_read` looks for the next include. -/
inductive Reached (files : Files) (path : Bytes) : State → Prop
  | start : Reached files path (.start path)
  | next {s s' : State} {a : ℕ} {rest : List ℕ} (h : Reached files path s) (hlist : s.includeList = a :: rest)
      (hok : configParserInclude files { s with includeList := rest } a = .ok s') : Reached files path s'

/-- There is a document. -/
def FileContent.isDocument : FileContent → Bool
  | .document _ => true
  | _ => false

/-- The file that `config_parser_include` parses. -/
def parsedFile (files : Files) (label : Label) : Option Path :=
  label.target.filter fun target => !label.disabled files && !target.recurs && (files.file target.path).isDocument

/-- The next include parses a file of its own chain of inclusion. -/
def State.Reparses (s : State) (files : Files) : Prop :=
  ∃ a rest q label target, s.includeList = a :: rest ∧ s.node a = some (q, label) ∧
    parsedFile files label = some target ∧ files.realpath target.path ∈ target.chain files

/-- If the file of the next include is in its own chain of inclusion, its path is, too. -/
def State.Identifies (s : State) (files : Files) : Prop :=
  ∀ a rest q label, s.includeList = a :: rest → s.node a = some (q, label) → label.Identified files

/-- The handlers are called for a file that an include names. -/
def State.parse (s : State) (files : Files) (a : ℕ) (target : Path) (document : XmlDocument) : Except Error State :=
  let s := document.run files (s.open a target)
  s.error.elim (.ok { s with assertFailed := s.assertFailed || s.nDepth != 0 || s.nFailed != 0 }) .error

section chains

variable {files : Files} {path : Bytes} {s s' : State} {a : ℕ} {rest : List ℕ} {label : Label} {target : Path}

/-- A file is parsed if its include is enabled, it is not recursive by its path, and the file is there. -/
theorem parsedFile_eq_some_iff : parsedFile files label = some target ↔ label.target = some target ∧
    label.disabled files = false ∧ target.recurs = false ∧ ∃ document, files.file target.path = .document document := by
  have hdocument : (files.file target.path).isDocument = true ↔ ∃ document, files.file target.path = .document document := by
    cases files.file target.path with
    | document document => exact ⟨fun _ => ⟨document, rfl⟩, fun _ => rfl⟩
    | missing => exact ⟨fun h => absurd h Bool.false_ne_true, fun h => by obtain ⟨_, h⟩ := h; cases h⟩
    | denied => exact ⟨fun h => absurd h Bool.false_ne_true, fun h => by obtain ⟨_, h⟩ := h; cases h⟩
    | failed => exact ⟨fun h => absurd h Bool.false_ne_true, fun h => by obtain ⟨_, h⟩ := h; cases h⟩
    | invalid => exact ⟨fun h => absurd h Bool.false_ne_true, fun h => by obtain ⟨_, h⟩ := h; cases h⟩
  rw [parsedFile, Option.filter_eq_some_iff, Bool.and_eq_true, Bool.and_eq_true, Bool.not_eq_true', Bool.not_eq_true',
    hdocument, and_assoc]

/-- `config_parser_include` hands the elements of the parsed file to the handlers. -/
theorem configParserInclude_of_parsedFile {q : Option ℕ} (hnode : s.node a = some (q, label))
    (hparsed : parsedFile files label = some target) : ∃ document, files.file target.path = .document document ∧
      configParserInclude files s a = s.parse files a target document := by
  obtain ⟨htarget, henabled, hcycle, document, hfile⟩ := parsedFile_eq_some_iff.mp hparsed
  obtain ⟨node, hget, hlabel⟩ := Option.map_eq_some_iff.mp hnode
  have hnodeLabel : node.label = label := congrArg Prod.snd hlabel
  have hnodeTarget : node.target = some target := (congrArg Label.target hnodeLabel).trans htarget
  have hattrs : node.attrs = label.attrs := congrArg Label.attrs hnodeLabel
  have hfind : ((s.nodes[a]?).bind fun node => node.target.map fun target => (node, target)) = some (node, target) := by
    rw [hget, Option.bind_some, hnodeTarget]
    rfl
  refine ⟨document, hfile, ?_⟩
  rw [Label.disabled] at henabled
  rw [configParserInclude, hfind]
  dsimp only
  rw [hattrs, henabled, if_neg Bool.false_ne_true, hcycle, if_neg Bool.false_ne_true, hfile, State.parse, State.open]
  dsimp only
  generalize document.run files _ = result
  cases result.error with
  | none => rfl
  | some error => rfl

/-- An include is identified if it does not parse a file of its own chain of inclusion. -/
theorem Label.identified_iff : label.Identified files ↔
    ∀ target, parsedFile files label = some target → files.realpath target.path ∉ target.chain files := by
  constructor
  · intro h target hparsed hmem
    obtain ⟨htarget, henabled, hcycle, document, hfile⟩ := parsedFile_eq_some_iff.mp hparsed
    rw [h target document htarget henabled hfile hmem] at hcycle
    cases hcycle
  · intro h target document htarget henabled hfile hmem
    cases hcycle : target.recurs with
    | true => rfl
    | false => exact absurd hmem (h target (parsedFile_eq_some_iff.mpr ⟨htarget, henabled, hcycle, document, hfile⟩))

/-- The queue has includes with a target only. -/
structure State.Queues (s : State) : Prop where
  sound : s.Sound
  mem : ∀ a ∈ s.includeList, a ∈ s.nodeList
  targets : ∀ a ∈ s.includeList, ∃ q label target, s.node a = some (q, label) ∧ label.opens = true ∧
    label.target = some target

/-- The parser starts with the include of the main file. -/
theorem queues_start (path : Bytes) : (State.start path).Queues where
  sound := by
    refine ⟨List.Perm.refl _, fun a node hnode => ?_, fun node hnode p hp => ?_, List.mem_cons_self, Nat.one_pos⟩
    · have hmem := List.mem_singleton.mp (List.mem_of_getElem? hnode)
      rw [hmem]
      rfl
    · rw [List.mem_singleton.mp hnode] at hp
      cases hp
  mem _ ha := ha
  targets a ha := by
    rw [List.mem_singleton.mp ha]
    exact ⟨none, (mainInclude path).label, _, rfl, rfl, rfl⟩

/-- An include leaves the elements so far as they are, and queues includes of its file. -/
theorem State.Queues.next (h : s.Queues) (hlist : s.includeList = a :: rest)
    (hok : configParserInclude files { s with includeList := rest } a = .ok s') :
    s'.Queues ∧ ∃ q label more, s.node a = some (q, label) ∧ s'.includeList = rest ++ more ∧
      (∀ b ∈ s.nodeList, s'.node b = s.node b) ∧
      ∀ b ∈ more, ∃ q' e, s'.node b = some (q', e) ∧ e.opens = true ∧ e ∈ (includedForest files label).labels := by
  have hwait : a ∈ s.includeList := hlist ▸ List.mem_cons_self
  have ha : a ∈ s.nodeList := h.mem a hwait
  obtain ⟨q, label, target, hnode, hopens, htarget⟩ := h.targets a hwait
  obtain ⟨before, after, hnodes⟩ := List.append_of_mem ha
  have hsound : State.Sound { s with includeList := rest } :=
    ⟨h.sound.perm, h.sound.counted, h.sound.parents, h.sound.last, h.sound.current⟩
  have hincludes : State.Includes { s with includeList := rest } a target before after (included files label)
      (configParserInclude files { s with includeList := rest } a) := hsound.includes hnodes hnode hopens htarget
  cases hincluded : included files label with
  | none =>
    rw [hincluded] at hincludes
    obtain ⟨error, herror⟩ := hincludes
    rw [herror] at hok
    cases hok
  | some forest =>
    rw [hincluded] at hincludes
    obtain ⟨result, new, hresult, hlaid⟩ := hincludes
    rw [hresult] at hok
    cases hok
    have hforest : includedForest files label = forest := by rw [includedForest, hincluded, Option.getD_some]
    obtain ⟨more, hqueue, hperm⟩ := hlaid.queued
    have hqueue : s'.includeList = rest ++ more := hqueue
    have hold (b : ℕ) (hb : b ∈ s.nodeList) : s'.node b = s.node b := by
      by_cases hba : b = a
      · rw [hba, hlaid.self]
        exact Option.map_id_fun' ▸ rfl
      · exact hlaid.old b ((h.sound.mem_iff b).mp hb) hba
    have hmore (b : ℕ) (hb : b ∈ more) : b ∈ new ∧ ∃ q' e, s'.node b = some (q', e) ∧ e.opens = true ∧
        e ∈ (includedForest files label).labels := by
      rw [hperm.mem_iff, List.nil_append, List.mem_filter] at hb
      obtain ⟨q', e, hb', he⟩ := hlaid.lays.exists_label b hb.1
      have hany := hb.2
      rw [hb'] at hany
      rw [hforest]
      exact ⟨hb.1, q', e, hb', hany, he⟩
    have hnodes' : s'.nodeList = before ++ a :: (new ++ after) := by
      rw [hlaid.stands.nodeList]
      simp
    have hrest (b : ℕ) (hb : b ∈ rest) : b ∈ s.includeList := hlist ▸ List.mem_cons_of_mem a hb
    refine ⟨⟨hlaid.stands.sound, fun b hb => ?_, fun b hb => ?_⟩, q, label, more, hnode, hqueue, hold,
      fun b hb => (hmore b hb).2⟩
    · rw [hqueue] at hb
      rw [hnodes']
      obtain hb | hb := List.mem_append.mp hb
      · have hmem := h.mem b (hrest b hb)
        rw [hnodes] at hmem
        simp only [List.mem_append, List.mem_cons] at hmem ⊢
        exact hmem.imp_right fun hmem => hmem.imp_right .inr
      · exact List.mem_append_right _ (List.mem_cons_of_mem _ (List.mem_append_left _ (hmore b hb).1))
    · rw [hqueue] at hb
      obtain hb | hb := List.mem_append.mp hb
      · obtain ⟨q', e, target', hb', hopens', htarget'⟩ := h.targets b (hrest b hb)
        exact ⟨q', e, target', (hold b (h.mem b (hrest b hb))).trans hb', hopens', htarget'⟩
      · obtain ⟨-, q', e, hb', hopens', he⟩ := hmore b hb
        obtain ⟨target', htarget'⟩ :=
          Option.isSome_iff_exists.mp (isSome_target_of_mem_includedForest files label e he hopens')
        exact ⟨q', e, target', hb', hopens', htarget'⟩

/-- The queue of a state that the parser reaches. -/
theorem Reached.queues (h : Reached files path s) : s.Queues := by
  induction h with
  | start => exact queues_start path
  | next _ hlist hok ih => exact (ih.next hlist hok).1

/-- The ranks of the queued includes. -/
def State.ranks (files : Files) (s : State) : List ℕ :=
  s.includeList.map fun a => (s.node a).elim 0 fun node => includeRank files node.2

/-- If the next include is identified, its rank is replaced by smaller ones. -/
theorem State.Queues.shrinks (h : s.Queues) (hidentifies : s.Identifies files) (hlist : s.includeList = a :: rest)
    (hok : configParserInclude files { s with includeList := rest } a = .ok s') :
    Worklist.Shrinks (s'.ranks files) (s.ranks files) := by
  obtain ⟨-, q, label, more, hnode, hqueue, hold, hmore⟩ := h.next hlist hok
  refine ⟨includeRank files label, rest.map fun b => (s.node b).elim 0 fun node => includeRank files node.2,
    more.map fun b => (s'.node b).elim 0 fun node => includeRank files node.2, ?_, ?_, fun rank hrank => ?_⟩
  · rw [State.ranks, hlist, List.map_cons, hnode]
    rfl
  · rw [State.ranks, hqueue, List.map_append]
    congr 1
    apply List.map_congr_left
    intro b hb
    rw [hold b (h.mem b (hlist ▸ List.mem_cons_of_mem a hb))]
  · obtain ⟨b, hb, hrank⟩ := List.mem_map.mp hrank
    obtain ⟨q', e, hb', hopens, he⟩ := hmore b hb
    rw [← hrank, hb', Option.elim_some]
    exact (hidentifies a rest q label hlist hnode).includeRank_lt e he hopens

/-- The parser gets to the end of its queue if it identifies all includes on the way. -/
theorem Reached.terminates (hidentifies : ∀ s, Reached files path s → s.Identifies files) (h : Reached files path s) :
    ∃ n, ∀ fuel, n ≤ fuel → (configParserReadLoop files fuel s).isSome := by
  induction s using Worklist.induction (State.ranks files) with
  | step s ih =>
    cases hlist : s.includeList with
    | nil =>
      refine ⟨1, fun fuel hfuel => ?_⟩
      obtain ⟨fuel, rfl⟩ := Nat.exists_eq_add_of_le' hfuel
      rw [configParserReadLoop, hlist]
      rfl
    | cons a rest =>
      cases hinclude : configParserInclude files { s with includeList := rest } a with
      | error error =>
        refine ⟨1, fun fuel hfuel => ?_⟩
        obtain ⟨fuel, rfl⟩ := Nat.exists_eq_add_of_le' hfuel
        rw [configParserReadLoop, hlist]
        dsimp only
        rw [hinclude]
        rfl
      | ok s' =>
        obtain ⟨n, hn⟩ := ih s' (h.queues.shrinks (hidentifies s h) hlist hinclude) (h.next hlist hinclude)
        refine ⟨n + 1, fun fuel hfuel => ?_⟩
        obtain ⟨fuel, rfl⟩ := Nat.exists_eq_add_of_le' (Nat.le_of_add_left_le hfuel)
        rw [configParserReadLoop, hlist]
        dsimp only
        rw [hinclude]
        exact hn fuel (Nat.le_of_succ_le_succ hfuel)

/-- The next include is identified unless it parses a file of its own chain of inclusion. -/
theorem State.identifies_iff : s.Identifies files ↔ ¬ s.Reparses files := by
  constructor
  · intro h hreparses
    obtain ⟨a, rest, q, label, target, hlist, hnode, hparsed, hmem⟩ := hreparses
    exact Label.identified_iff.mp (h a rest q label hlist hnode) target hparsed hmem
  · intro h a rest q label hlist hnode
    rw [Label.identified_iff]
    exact fun target hparsed hmem => h ⟨a, rest, q, label, target, hlist, hnode, hparsed, hmem⟩

/-- An include that parses a file of its own chain of inclusion hands the elements of the file to the handlers again. -/
theorem State.Reparses.parses (h : s.Reparses files) : ∃ a rest target document, s.includeList = a :: rest ∧
    files.realpath target.path ∈ target.chain files ∧ files.file target.path = .document document ∧
    configParserInclude files { s with includeList := rest } a =
      State.parse { s with includeList := rest } files a target document := by
  obtain ⟨a, rest, q, label, target, hlist, hnode, hparsed, hmem⟩ := h
  have hnode : State.node { s with includeList := rest } a = some (q, label) := hnode
  obtain ⟨document, hfile, hparse⟩ := configParserInclude_of_parsedFile hnode hparsed
  exact ⟨a, rest, target, document, hlist, hmem, hfile, hparse⟩

/-- The parser ends and parses no file again in its own chain of inclusion, if and only if on the way the comparison
of paths finds every file that an enabled include names again. -/
theorem configParserRead_terminates_iff (files : Files) (path : Bytes) :
    ((∃ n, ∀ fuel, n ≤ fuel → (configParserRead files fuel path).isSome) ∧
        ∀ s, Reached files path s → ¬ s.Reparses files) ↔
      ∀ s, Reached files path s → s.Identifies files := by
  constructor
  · exact fun h s hs => State.identifies_iff.mpr (h.2 s hs)
  · exact fun h => ⟨Reached.terminates h .start, fun s hs => State.identifies_iff.mp (h s hs)⟩

/-- The includes that the parser queues are some of those of the configuration. -/
theorem Reached.reaches (h : Reached files path s) :
    ∀ a ∈ s.includeList, ∃ q label, s.node a = some (q, label) ∧ Reaches files path label := by
  induction h with
  | start =>
    intro a ha
    rw [List.mem_singleton.mp ha]
    exact ⟨none, (mainInclude path).label, rfl, .main⟩
  | @next s s' a rest h hlist hok ih =>
    obtain ⟨-, q, label, more, hnode, hqueue, hold, hmore⟩ := h.queues.next hlist hok
    intro b hb
    rw [hqueue] at hb
    obtain hb | hb := List.mem_append.mp hb
    · have hwaits : b ∈ s.includeList := hlist ▸ List.mem_cons_of_mem a hb
      obtain ⟨q', e, hb', he⟩ := ih b hwaits
      exact ⟨q', e, (hold b (h.queues.mem b hwaits)).trans hb', he⟩
    · obtain ⟨q', e, hb', hopens, he⟩ := hmore b hb
      obtain ⟨q'', label', hnode', hreaches⟩ := ih a (hlist ▸ List.mem_cons_self)
      have hlabel : label' = label := congrArg Prod.snd (Option.some.inj (hnode'.symm.trans hnode))
      exact ⟨q', e, hb', .step (hlabel ▸ hreaches) he hopens⟩

/-- If the includes of the configuration have no cycle, the parser ends and parses no file again in its own chain of
inclusion. -/
theorem NoCycle.configParserRead_terminates (hcycle : NoCycle files path) :
    (∃ n, ∀ fuel, n ≤ fuel → (configParserRead files fuel path).isSome) ∧
      ∀ s, Reached files path s → ¬ s.Reparses files := by
  have hidentifies (s : State) (hs : Reached files path s) : s.Identifies files := by
    intro a rest q label hlist hnode
    obtain ⟨q', label', hnode', hreaches⟩ := hs.reaches a (hlist ▸ List.mem_cons_self)
    have hlabel : label' = label := congrArg Prod.snd (Option.some.inj (hnode'.symm.trans hnode))
    exact hcycle label (hlabel ▸ hreaches)
  exact ⟨Reached.terminates hidentifies .start, fun s hs => State.identifies_iff.mp (hidentifies s hs)⟩

end chains

/-! ## Spellings -/

/-- A path without the components that are a dot. -/
def dropDots : Bytes → Bytes
  | a :: b :: c :: rest =>
    if a = byte '/' ∧ b = byte '.' ∧ c = byte '/' then dropDots (c :: rest) else a :: dropDots (b :: c :: rest)
  | path => path

/-- A file that includes itself by another path. -/
def dotContents (name : Bytes) : FileContent :=
  if name = lit "/etc/a" then
    .document ⟨lit "busconfig", [], .element (lit "include") [] (.text (lit "./a") .nil) .nil⟩
  else .missing

/-- There is one file. -/
theorem dotContents_finite (name : Bytes) (document : XmlDocument) (h : dotContents name = .document document) :
    name ∈ [lit "/etc/a"] := by
  rw [List.mem_singleton]
  rw [dotContents] at h
  by_cases ha : name = lit "/etc/a"
  · exact ha
  · rw [if_neg ha] at h
    cases h

/-- One file, to which many paths lead. -/
def dotFiles : Files where
  realpath := dropDots
  content := dotContents
  dir _ := .missing
  selinuxEnabled := false
  selinuxPolicyRoot := none
  documents := [lit "/etc/a"]
  finite := dotContents_finite

/-- The file that includes itself is parsed in its own chain of inclusion. -/
theorem not_terminates_dotFiles : ¬ ((∃ n, ∀ fuel, n ≤ fuel → (configParserRead dotFiles fuel (lit "/etc/a")).isSome) ∧
    ∀ s, Reached dotFiles (lit "/etc/a") s → ¬ s.Reparses dotFiles) := by
  intro h
  have hsecond : (configParserInclude dotFiles { State.start (lit "/etc/a") with includeList := [] } 0).toOption.any
      (fun s => s.includeList = [2] && (s.node 2).any fun node => (parsedFile dotFiles node.2).any fun target =>
        (target.chain dotFiles).contains (dotFiles.realpath target.path)) = true := by
    rfl
  obtain ⟨s, hok, hs⟩ := (Option.any_eq_true _ _).mp hsecond
  rw [Bool.and_eq_true, decide_eq_true_eq] at hs
  obtain ⟨hlist, hnode⟩ := hs
  obtain ⟨node, hnode, hparsed⟩ := (Option.any_eq_true _ _).mp hnode
  obtain ⟨target, hparsed, hmem⟩ := (Option.any_eq_true _ _).mp hparsed
  have hreached : Reached dotFiles (lit "/etc/a") s := by
    have hstart : (State.start (lit "/etc/a")).includeList = [0] := rfl
    apply Reached.next .start hstart
    cases hinclude : configParserInclude dotFiles { State.start (lit "/etc/a") with includeList := [] } 0 with
    | error error =>
      rw [hinclude] at hok
      cases hok
    | ok s' =>
      rw [hinclude] at hok
      exact congrArg Except.ok (Option.some.inj hok)
  exact h.2 s hreached ⟨2, [], node.1, node.2, target, hlist, hnode, hparsed, List.contains_iff_mem.mp hmem⟩

end DbusBroker.Config
