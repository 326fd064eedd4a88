import DbusBroker.Launch.ConfigForest
import Mathlib.Data.List.Induction

/-!
# What the parser makes of a configuration

The includes of a configuration are parsed one after the other, long after the elements around them.
Still the list of nodes ends up in document order: it is the preorder of the main file with what every
include includes below it, and it can be freed from its end.
-/

namespace DbusBroker.Config

open Forest

/-! ## Includes -/

/-- The elements of a file. -/
def XmlDocument.forest (files : Files) (file : Path) (document : XmlDocument) : Forest Label :=
  (Xml.element document.name document.attrs document.content .nil).forest files file .include true

/-- A directory that a file includes cannot be listed. -/
def XmlDocument.fails (files : Files) (file : Path) (document : XmlDocument) : Bool :=
  (Xml.element document.name document.attrs document.content .nil).fails files file .include true

/-- What an include includes, if it can be read. An include that is passed over includes nothing: it depends on
SELinux, is recursive, or may be missing. -/
def included (files : Files) (label : Label) : Option (Forest Label) :=
  match label.target with
  | none => some .nil
  | some target =>
    let flags := configParserAttrsInclude label.attrs
    if flags.ifSelinuxEnabled && !files.selinuxEnabled then some .nil
    else if target.recurs then some .nil
    else
      match files.file target.path with
      | .missing => if flags.ignoreMissing then some .nil else none
      | .document document => if document.fails files target then none else some (document.forest files target)
      | _ => none

/-- What is below an include. -/
def includedForest (files : Files) (label : Label) : Forest Label := (included files label).getD .nil

/-- No element belongs into an include. -/
theorem Xml.forest_include (files : Files) (file : Path) (xml : Xml) : xml.forest files file .include false = .nil := by
  induction xml with
  | nil => rfl
  | text data rest ih => exact ih
  | element name attrs content rest _ ih =>
    have hreject : nodeAccepts name .include false = none := by
      rw [nodeAccepts, Option.filter_eq_none_iff]
      intro type _
      cases type <;> decide
    rw [Xml.forest, hreject]
    exact ih

/-- There is nothing below an include in one file. -/
theorem Xml.leavesOpen_forest (files : Files) (file : Path) (parent : NodeType) (outermost : Bool) (xml : Xml) :
    (xml.forest files file parent outermost).LeavesOpen Label.opens := by
  induction xml generalizing parent outermost with
  | nil => trivial
  | text data rest ih => exact ih parent outermost
  | element name attrs content rest ihc ihs =>
    rw [Xml.forest]
    cases nodeAccepts name parent outermost with
    | none => exact ihs parent outermost
    | some type =>
      refine ⟨fun hopens => ?_, (ihc type false).append (leavesOpen_ofList _ _), ihs parent outermost⟩
      have htype : type = .include := beq_iff_eq.mp hopens
      rw [htype, Xml.forest_include]
      rfl

/-- Every include of a file knows that it comes from it. -/
theorem Xml.target_of_mem_forest (files : Files) (file : Path) (parent : NodeType) (outermost : Bool) (xml : Xml) :
    ∀ e ∈ (xml.forest files file parent outermost).labels, e.opens = true →
      ∃ target, e.target = some target ∧ file.path :: file.parents ⊆ target.parents := by
  induction xml generalizing parent outermost with
  | nil => exact fun e he => absurd he List.not_mem_nil
  | text data rest ih => exact ih parent outermost
  | element name attrs content rest ihc ihs =>
    rw [Xml.forest]
    cases nodeAccepts name parent outermost with
    | none => exact ihs parent outermost
    | some type =>
      intro e he hopens
      rw [labels, labels_append, labels_ofList, List.mem_cons, List.mem_append, List.mem_append] at he
      obtain rfl | (he | he) | he := he
      · have htype : type = .include := beq_iff_eq.mp hopens
        subst htype
        exact ⟨_, rfl, List.Subset.refl _⟩
      · exact ihc type false e he hopens
      · rw [listedIncludes.eq_def] at he
        cases type with
        | includedir =>
          dsimp only at he
          cases hdir : files.dir (configPathNewDir (some file) content.texts).path with
          | missing => rw [hdir] at he; cases he
          | failed => rw [hdir] at he; cases he
          | entries names =>
            rw [hdir] at he
            obtain ⟨entry, -, rfl⟩ := List.mem_map.mp he
            exact ⟨_, rfl, List.subset_cons_self _ _⟩
        | _ => cases he
      · exact ihs parent outermost e he hopens

/-- An include depends on SELinux, which is off. -/
def Label.disabled (files : Files) (label : Label) : Bool :=
  (configParserAttrsInclude label.attrs).ifSelinuxEnabled && !files.selinuxEnabled

/-- An include that includes something is enabled and not recursive, and its file is there. -/
theorem includedForest_cases (files : Files) (label : Label) : includedForest files label = .nil ∨
    ∃ target document, label.target = some target ∧ label.disabled files = false ∧ target.recurs = false ∧
      files.file target.path = .document document ∧ includedForest files label = document.forest files target := by
  rw [includedForest, included]
  cases label.target with
  | none => exact .inl rfl
  | some target =>
    dsimp only
    by_cases hselinux : ((configParserAttrsInclude label.attrs).ifSelinuxEnabled && !files.selinuxEnabled) = true
    · rw [if_pos hselinux]
      exact .inl rfl
    · rw [if_neg hselinux]
      by_cases hcycle : target.recurs = true
      · rw [if_pos hcycle]
        exact .inl rfl
      · rw [if_neg hcycle]
        cases hfile : files.file target.path with
        | missing =>
          dsimp only
          split <;> exact .inl rfl
        | denied => exact .inl rfl
        | failed => exact .inl rfl
        | invalid => exact .inl rfl
        | document document =>
          dsimp only
          by_cases hfails : document.fails files target = true
          · rw [if_pos hfails]
            exact .inl rfl
          · rw [if_neg hfails]
            exact .inr ⟨target, document, rfl, Bool.eq_false_iff.mpr hselinux, Bool.eq_false_iff.mpr hcycle, hfile, rfl⟩

/-- Every include knows what it includes. -/
theorem isSome_target_of_mem_includedForest (files : Files) (label : Label) :
    ∀ e ∈ (includedForest files label).labels, e.opens = true → e.target.isSome := by
  obtain hnil | ⟨target, document, -, -, -, -, hforest⟩ := includedForest_cases files label
  · rw [hnil]
    exact fun e he => absurd he List.not_mem_nil
  · rw [hforest]
    intro e he hopens
    obtain ⟨target', htarget', -⟩ := Xml.target_of_mem_forest files target .include true _ e he hopens
    rw [htarget']
    rfl

/-- There is nothing below an include in what is included. -/
theorem leavesOpen_includedForest (files : Files) (label : Label) : (includedForest files label).LeavesOpen Label.opens := by
  obtain hnil | ⟨target, document, -, -, -, -, hforest⟩ := includedForest_cases files label
  · rw [hnil]
    trivial
  · rw [hforest]
    exact Xml.leavesOpen_forest files target .include true _

/-- The file of an include is not one of those that it comes from, unless it is so by its path. -/
def Label.Identified (files : Files) (label : Label) : Prop :=
  ∀ target document, label.target = some target → label.disabled files = false →
    files.file target.path = .document document → files.realpath target.path ∈ target.chain files → target.recurs = true

/-- The files that an include may still include. -/
def includeRank (files : Files) (label : Label) : ℕ :=
  match label.target with
  | none => 0
  | some target => (files.documents.filter fun name => !(target.chain files).contains name).length

/-- An include in what is included may include fewer files. -/
theorem Label.Identified.includeRank_lt {files : Files} {label : Label} (h : label.Identified files) :
    ∀ e ∈ (includedForest files label).labels, e.opens = true → includeRank files e < includeRank files label := by
  obtain hnil | ⟨target, document, htarget, henabled, hcycle, hfile, hforest⟩ := includedForest_cases files label
  · rw [hnil]
    exact fun e he => absurd he List.not_mem_nil
  · rw [hforest]
    intro e he hopens
    obtain ⟨target', htarget', hsubset⟩ := Xml.target_of_mem_forest files target .include true _ e he hopens
    have hchain : files.realpath target.path :: target.chain files ⊆ target'.chain files := by
      rw [Path.chain, Path.chain, ← List.map_cons]
      exact List.map_subset files.realpath hsubset
    have hfresh : files.realpath target.path ∉ target.chain files := by
      intro hmem
      rw [h target document htarget henabled hfile hmem] at hcycle
      cases hcycle
    rw [includeRank, includeRank, htarget, htarget']
    dsimp only
    have hfilter : (files.documents.filter fun name => !(target'.chain files).contains name) =
        (files.documents.filter fun name => !(target.chain files).contains name).filter
          fun name => !(target'.chain files).contains name := by
      rw [List.filter_filter]
      apply List.filter_congr
      intro name _
      by_cases hname : name ∈ target.chain files
      · simp [hchain (List.mem_cons_of_mem _ hname)]
      · simp [hname]
    rw [hfilter, List.length_filter_lt_length_iff_exists]
    refine ⟨files.realpath target.path, List.mem_filter.mpr ⟨files.finite _ _ hfile, ?_⟩, ?_⟩
    · simpa using hfresh
    · simpa using hchain List.mem_cons_self

/-- The includes of a configuration. -/
inductive Reaches (files : Files) (path : Bytes) : Label → Prop
  | main : Reaches files path (mainInclude path).label
  | step {label e : Label} (h : Reaches files path label) (hmem : e ∈ (includedForest files label).labels)
      (hopens : e.opens = true) : Reaches files path e

/-- No file of a configuration includes one that it comes from, unless the parser passes it over. -/
def NoCycle (files : Files) (path : Bytes) : Prop := ∀ label, Reaches files path label → label.Identified files

/-- A path is compared with those that it comes from. -/
theorem Path.recurs_iff (file : Path) : file.recurs = true ↔ file.path ∈ file.parents := by
  rw [Path.recurs, List.any_eq_true]
  constructor
  · intro h
    obtain ⟨parent, hmem, heq⟩ := h
    rw [beq_iff_eq.mp heq]
    exact hmem
  · exact fun h => ⟨file.path, h, beq_self_eq_true file.path⟩

/-- Every include is identified if one path at most leads to each file. -/
theorem Label.identified_of_injective {files : Files} (h : Function.Injective files.realpath) (label : Label) :
    label.Identified files := by
  intro target document _ _ _ hmem
  obtain ⟨parent, hparent, heq⟩ := List.mem_map.mp hmem
  rw [Path.recurs_iff, ← h heq]
  exact hparent

/-- There are no cycles if one path at most leads to each file. -/
theorem noCycle_of_injective {files : Files} (h : Function.Injective files.realpath) (path : Bytes) : NoCycle files path :=
  fun label _ => label.identified_of_injective h

/-- A configuration with everything that is included. -/
theorem NoCycle.exists_grows {files : Files} {path : Bytes} (h : NoCycle files path) :
    ∃ T, Grows Label.opens (includedForest files) (.cons (mainInclude path).label .nil .nil) T := by
  apply Forest.exists_grows (includeRank files) (Reaches files path)
  · exact fun label hlabel _ e he hopens => ⟨.step hlabel he hopens, (h label hlabel).includeRank_lt e he hopens⟩
  · intro label hlabel _
    rw [List.mem_singleton.mp hlabel]
    exact .main

/-! ## One include -/

section oneInclude

variable {files : Files} {s s' : State} {a : ℕ} {before after : List ℕ} {T : Forest Label}

/-- The parser starts with an include. -/
def State.open (s : State) (a : ℕ) (target : Path) : State :=
  { s with file := target, current := a, last := a, nDepth := 0, nFailed := 0, error := none }

/-- The parser is at the include. -/
theorem State.Sound.open (h : s.Sound) (hlist : s.nodeList = before ++ a :: after) (target : Path) :
    (s.open a target).At a (before ++ [a]) after := by
  have hmem : a ∈ s.nodeList := by
    rw [hlist]
    exact List.mem_append_right _ List.mem_cons_self
  refine ⟨⟨h.perm, h.counted, h.parents, hmem, (h.mem_iff a).mp hmem⟩, rfl, rfl, rfl, ?_, List.getLast?_concat⟩
  rw [List.append_assoc]
  exact hlist

/-- The result of an include: an error if it cannot be read, or what it includes is laid out behind it. -/
def State.Includes (s : State) (a : ℕ) (target : Path) (before after : List ℕ) (content : Option (Forest Label))
    (result : Except Error State) : Prop :=
  match content with
  | none => ∃ error, result = .error error
  | some forest => ∃ s' new, result = .ok s' ∧ Laid (s.open a target) s' a (before ++ [a]) after id [] forest new

/-- An include that is passed over includes nothing. -/
theorem State.At.includes_nil {target : Path} (h : (s.open a target).At a (before ++ [a]) after) :
    s.Includes a target before after (some .nil) (.ok (s.open a target)) :=
  ⟨_, [], rfl, .refl h⟩

/-- A file is laid out behind its include, unless a directory cannot be listed. -/
theorem State.At.includes_document {target : Path} (h : (s.open a target).At a (before ++ [a]) after) {q : Option ℕ}
    {label : Label} (hnode : s.node a = some (q, label)) (hopens : label.opens = true) (document : XmlDocument) :
    s.Includes a target before after (if document.fails files target then none else some (document.forest files target))
      (match (document.run files (s.open a target)).error with
      | some error => .error error
      | none => .ok { document.run files (s.open a target) with
          assertFailed := (document.run files (s.open a target)).assertFailed ||
            (document.run files (s.open a target)).nDepth != 0 || (document.run files (s.open a target)).nFailed != 0 }) := by
  have htype : label.type = .include := beq_iff_eq.mp hopens
  obtain ⟨hfail, hlaid⟩ := Xml.run_laid files (.element document.name document.attrs document.content .nil) h hnode
  rw [htype] at hfail hlaid
  by_cases hfails : document.fails files target = true
  · rw [if_pos hfails]
    have herror : (document.run files (s.open a target)).error = some .failed := hfail hfails
    rw [herror]
    exact ⟨_, rfl⟩
  · rw [if_neg hfails]
    obtain ⟨new, hdone⟩ := hlaid (Bool.eq_false_iff.mpr hfails)
    have hid : Label.addText (Xml.texts (.element document.name document.attrs document.content .nil)) = id := by
      funext label
      rw [Label.addText, Xml.texts, Xml.texts, List.append_nil]
      rfl
    rw [hid] at hdone
    obtain ⟨s', hs'⟩ : ∃ s', document.run files (s.open a target) = s' := ⟨_, rfl⟩
    have hdone' : Laid (s.open a target) s' a (before ++ [a]) after id [] (document.forest files target) new := by
      rw [← hs']
      exact hdone
    have hdepth : s'.nDepth = 0 := hdone'.nDepth
    have hasserts : (s'.assertFailed || s'.nDepth != 0 || s'.nFailed != 0) = s'.assertFailed := by
      rw [hdepth, hdone'.stands.nFailed]
      simp
    rw [hs', hdone'.stands.error]
    refine ⟨_, new, rfl, ?_⟩
    rw [hasserts]
    exact hdone'

/-- An include lays out what it includes, if it can be read. -/
theorem State.Sound.includes (h : s.Sound) (hlist : s.nodeList = before ++ a :: after) {q : Option ℕ} {label : Label}
    (hnode : s.node a = some (q, label)) (hopens : label.opens = true) {target : Path}
    (htarget : label.target = some target) :
    s.Includes a target before after (included files label) (configParserInclude files s a) := by
  obtain ⟨node, hget, hlabel⟩ := Option.map_eq_some_iff.mp hnode
  have hnodeLabel : node.label = label := congrArg Prod.snd hlabel
  have hnodeTarget : node.target = some target := (congrArg Label.target hnodeLabel).trans htarget
  have hattrs : node.attrs = label.attrs := congrArg Label.attrs hnodeLabel
  have hstands := h.open hlist target
  have hfind : ((s.nodes[a]?).bind fun node => node.target.map fun target => (node, target)) = some (node, target) := by
    rw [hget, Option.bind_some, hnodeTarget]
    rfl
  rw [configParserInclude, hfind, included, htarget]
  dsimp only
  rw [hattrs]
  by_cases hselinux : ((configParserAttrsInclude label.attrs).ifSelinuxEnabled && !files.selinuxEnabled) = true
  · rw [if_pos hselinux, if_pos hselinux]
    exact hstands.includes_nil
  rw [if_neg hselinux, if_neg hselinux]
  by_cases hcycle : target.recurs = true
  · rw [if_pos hcycle, if_pos hcycle]
    exact hstands.includes_nil
  rw [if_neg hcycle, if_neg hcycle]
  cases files.file target.path with
  | missing =>
    by_cases hmissing : (configParserAttrsInclude label.attrs).ignoreMissing = true
    · dsimp only
      rw [if_pos hmissing, if_pos hmissing]
      exact hstands.includes_nil
    · dsimp only
      rw [if_neg hmissing, if_neg hmissing]
      exact ⟨_, rfl⟩
  | denied => exact ⟨_, rfl⟩
  | failed => exact ⟨_, rfl⟩
  | invalid => exact ⟨_, rfl⟩
  | document document => exact hstands.includes_document hnode hopens document

end oneInclude

/-! ## All includes -/

section flatten

variable {files : Files} {s s' : State} {a : ℕ} {rest : List ℕ} {T : Forest Label}

/-- The nodes so far are the preorder of the configuration, but for what the queued includes include. -/
structure State.Flattens (files : Files) (T : Forest Label) (s : State) : Prop where
  sound : s.Sound
  assertFailed : s.assertFailed = false
  queued : s.includeList.Nodup
  waiting : ∀ a ∈ s.includeList, a ∈ s.nodeList
  lays : Forest.Lays Label.opens (includedForest files) s.node (· ∈ s.includeList) none T s.nodeList
  done : ∀ a ∈ s.nodeList, a ∉ s.includeList → ∀ q e, s.node a = some (q, e) → e.opens = true → (included files e).isSome

/-- The number of includes so far. -/
def State.includes (s : State) : ℕ := s.nodeList.countP fun a => (s.node a).any (·.2.opens)

/-- What an include lays out is added to the configuration. -/
theorem State.Flattens.include_laid (h : s.Flattens files T) (hlist : s.includeList = a :: rest) {before after new : List ℕ}
    (hnodes : s.nodeList = before ++ a :: after) {q : Option ℕ} {label : Label} (hnode : s.node a = some (q, label))
    {target : Path} {forest : Forest Label} (hincluded : included files label = some forest)
    (hlaid : Laid (State.open { s with includeList := rest } a target) s' a (before ++ [a]) after id [] forest new) :
    s'.Flattens files T ∧ s'.includes + s.includeList.length = s.includes + s'.includeList.length + 1 := by
  obtain ⟨includes, hincludes, hperm⟩ := hlaid.queued
  have hqueue : s'.includeList = rest ++ includes := hincludes
  have hlength (b : ℕ) (hb : b ∈ s.nodeList) : b < s.nodes.length := (h.sound.mem_iff b).mp hb
  have hnodup : (a :: rest).Nodup := hlist ▸ h.queued
  have hself : s'.node a = s.node a := by
    rw [hlaid.self]
    show (s.node a).map _ = _
    rw [hnode]
    rfl
  have hsame (b : ℕ) (hb : b ∈ s.nodeList) : s'.node b = s.node b := by
    by_cases hba : b = a
    · rw [hba, hself]
    · exact hlaid.old b (hlength b hb) hba
  have hfresh (b : ℕ) (hb : b ∈ new) : b ∉ s.nodeList := fun hmem => absurd (hlaid.fresh b hb) (Nat.not_le.mpr (hlength b hmem))
  have hrest (b : ℕ) (hb : b ∈ rest) : b ∈ s.nodeList := h.waiting b (hlist ▸ List.mem_cons_of_mem a hb)
  have hnewQueued (b : ℕ) : b ∈ includes ↔ b ∈ new ∧ (s'.node b).any (·.2.opens) = true := by
    rw [hperm.mem_iff, List.nil_append, List.mem_filter]
  have hnodes' : s'.nodeList = before ++ a :: (new ++ after) := by
    rw [hlaid.stands.nodeList]
    simp
  have hold (b : ℕ) (hb : b ∈ s.nodeList) : b ∈ s'.nodeList := by
    rw [hnodes] at hb
    rw [hnodes']
    simp only [List.mem_append, List.mem_cons] at hb ⊢
    exact hb.imp_right fun hb => hb.imp_right .inr
  have hnew (b : ℕ) (hb : b ∈ new) : b ∈ s'.nodeList := by
    rw [hnodes']
    exact List.mem_append_right _ (List.mem_cons_of_mem _ (List.mem_append_left _ hb))
  have hmem (b : ℕ) (hb : b ∈ s'.nodeList) : b ∈ new ∨ b ∈ s.nodeList := by
    rw [hnodes', List.mem_append, List.mem_cons, List.mem_append] at hb
    rw [hnodes, List.mem_append, List.mem_cons]
    obtain hb | hb | hb | hb := hb
    · exact .inr (.inl hb)
    · exact .inr (.inr (.inl hb))
    · exact .inl hb
    · exact .inr (.inr (.inr hb))
  have hwaits (b : ℕ) (hb : b ∈ s.nodeList) (hba : b ≠ a) : b ∈ s'.includeList ↔ b ∈ s.includeList := by
    rw [hqueue, hlist, List.mem_append, List.mem_cons]
    constructor
    · exact fun hmem => .inr (hmem.resolve_right fun hin => hfresh b ((hnewQueued b).mp hin).1 hb)
    · exact fun hmem => .inl (hmem.resolve_left hba)
  have ha : a ∈ s.nodeList := h.waiting a (hlist ▸ List.mem_cons_self)
  have hdone : a ∉ s'.includeList := by
    rw [hqueue, List.mem_append, not_or]
    exact ⟨(List.nodup_cons.mp hnodup).1, fun hin => hfresh a ((hnewQueued a).mp hin).1 ha⟩
  have hforest : includedForest files label = forest := by rw [includedForest, hincluded, Option.getD_some]
  have hnewNodup : new.Nodup := by
    have hall := hlaid.stands.sound.nodup
    rw [hnodes'] at hall
    exact (List.nodup_append.mp (List.nodup_cons.mp (List.nodup_append.mp hall).2.1).2).1
  refine ⟨⟨hlaid.stands.sound, hlaid.assertFailed.trans h.assertFailed, ?_, ?_, ?_, ?_⟩, ?_⟩
  · rw [hqueue]
    refine List.nodup_append.mpr ⟨(List.nodup_cons.mp hnodup).2, hperm.nodup_iff.mpr (hnewNodup.filter _), ?_⟩
    intro b hb b' hin heq
    exact hfresh b' ((hnewQueued b').mp hin).1 (heq ▸ hrest b hb)
  · intro b hb
    rw [hqueue] at hb
    exact (List.mem_append.mp hb).elim (fun hb => hold b (hrest b hb)) fun hin => hnew b ((hnewQueued b).mp hin).1
  · have hgraft : s'.nodeList = Forest.graft a new s.nodeList := by
      rw [hnodes', hnodes, graft_of_nodup new (hnodes ▸ h.sound.nodup)]
    rw [hgraft]
    refine h.lays.graft hnode (hlist ▸ List.mem_cons_self) hdone hsame hwaits fun c hc => ?_
    rw [hforest] at hc
    refine Forest.Lays.fill hlaid.lays (hforest ▸ leavesOpen_includedForest files label) hc fun b hb q' e hb' => ?_
    have hany : (s'.node b).any (·.2.opens) = e.opens := by rw [hb']; rfl
    constructor
    · intro hpend
      rw [hqueue] at hpend
      have hin := (List.mem_append.mp hpend).resolve_left fun hmem => hfresh b hb (hrest b hmem)
      rw [← hany]
      exact ((hnewQueued b).mp hin).2
    · intro hopens
      rw [hqueue]
      exact List.mem_append_right _ ((hnewQueued b).mpr ⟨hb, hany.trans hopens⟩)
  · intro b hb hnot q' e hb' hopens
    obtain hb | hb := hmem b hb
    · have hany : (s'.node b).any (·.2.opens) = true := by rw [hb']; exact hopens
      refine absurd ?_ hnot
      rw [hqueue]
      exact List.mem_append_right _ ((hnewQueued b).mpr ⟨hb, hany⟩)
    · rw [hsame b hb] at hb'
      by_cases hba : b = a
      · rw [hba, hnode] at hb'
        have hlabel : label = e := congrArg Prod.snd (Option.some.inj hb')
        rw [← hlabel, hincluded]
        rfl
      · exact h.done b hb (fun hwait => hnot ((hwaits b hb hba).mpr hwait)) q' e hb' hopens
  · have hincludesLength : includes.length = new.countP fun b => (s'.node b).any (·.2.opens) := by
      rw [hperm.length_eq, List.nil_append, List.countP_eq_length_filter]
    have hcount (l : List ℕ) (hl : ∀ b ∈ l, b ∈ s.nodeList) :
        l.countP (fun b => (s'.node b).any (·.2.opens)) = l.countP fun b => (s.node b).any (·.2.opens) :=
      List.countP_congr fun b hb => by rw [hsame b (hl b hb)]
    have hbefore := hcount before fun b hb => by rw [hnodes]; exact List.mem_append_left _ hb
    have hafter := hcount (a :: after) fun b hb => by rw [hnodes]; exact List.mem_append_right _ hb
    rw [List.countP_cons, List.countP_cons] at hafter
    rw [State.includes, State.includes, hnodes', hnodes, hqueue, hlist, List.countP_append, List.countP_cons,
      List.countP_append, List.countP_append, List.countP_cons, List.length_cons, List.length_append, hincludesLength]
    omega

/-- An include cannot be read, or what it includes is added to the configuration. -/
theorem State.Flattens.include_next (h : s.Flattens files T) (htargets : ∀ e ∈ T.labels, e.opens = true → e.target.isSome)
    (hlist : s.includeList = a :: rest) :
    (∃ error, configParserInclude files { s with includeList := rest } a = .error error ∧
      ∃ e ∈ T.labels, e.opens = true ∧ included files e = none) ∨
    ∃ s', configParserInclude files { s with includeList := rest } a = .ok s' ∧ s'.Flattens files T ∧
      s'.includes + s.includeList.length = s.includes + s'.includeList.length + 1 := by
  have hwait : a ∈ s.includeList := hlist ▸ List.mem_cons_self
  have ha : a ∈ s.nodeList := h.waiting a hwait
  obtain ⟨before, after, hnodes⟩ := List.append_of_mem ha
  obtain ⟨q, label, hnode, hlabel⟩ := h.lays.exists_label a ha
  have hopens : label.opens = true := h.lays.opens_of_pending a ha hwait q label hnode
  obtain ⟨target, htarget⟩ := Option.isSome_iff_exists.mp (htargets label hlabel hopens)
  have hsound : State.Sound { s with includeList := rest } :=
    ⟨h.sound.perm, h.sound.counted, h.sound.parents, h.sound.last, h.sound.current⟩
  have hincludes : State.Includes { s with includeList := rest } a target before after (included files label)
      (configParserInclude files { s with includeList := rest } a) := hsound.includes hnodes hnode hopens htarget
  cases hincluded : included files label with
  | none =>
    rw [hincluded] at hincludes
    obtain ⟨error, herror⟩ := hincludes
    exact .inl ⟨error, herror, label, hlabel, hopens, hincluded⟩
  | some forest =>
    rw [hincluded] at hincludes
    obtain ⟨s', new, hok, hlaid⟩ := hincludes
    obtain ⟨hflattens, hmeasure⟩ := h.include_laid hlist hnodes hnode hincluded hlaid
    exact .inr ⟨s', hok, hflattens, hmeasure⟩

/-- There are no more includes than in the whole configuration. -/
theorem State.Flattens.includes_le (h : s.Flattens files T) : s.includes ≤ T.labels.countP Label.opens :=
  h.lays.countP_le Label.opens

/-- All includes are read, unless one of them cannot be. -/
theorem State.Flattens.readLoop (h : s.Flattens files T) (htargets : ∀ e ∈ T.labels, e.opens = true → e.target.isSome)
    {n : ℕ} (hn : T.labels.countP Label.opens + s.includeList.length ≤ s.includes + n) {fuel : ℕ} (hfuel : n < fuel) :
    (∃ error, configParserReadLoop files fuel s = some (.error error) ∧
      ∃ e ∈ T.labels, e.opens = true ∧ included files e = none) ∨
    ∃ s', configParserReadLoop files fuel s = some (.ok s') ∧ s'.Flattens files T ∧ s'.includeList = [] := by
  induction n generalizing s fuel with
  | zero =>
    obtain ⟨fuel, rfl⟩ := Nat.exists_eq_succ_of_ne_zero (Nat.ne_of_gt hfuel)
    have hle := h.includes_le
    have hnil : s.includeList = [] := List.length_eq_zero_iff.mp (by omega)
    refine .inr ⟨s, ?_, h, hnil⟩
    rw [configParserReadLoop, hnil]
  | succ n ih =>
    obtain ⟨fuel, rfl⟩ := Nat.exists_eq_succ_of_ne_zero (Nat.ne_of_gt (Nat.lt_of_le_of_lt (Nat.zero_le _) hfuel))
    cases hlist : s.includeList with
    | nil =>
      refine .inr ⟨s, ?_, h, hlist⟩
      rw [configParserReadLoop, hlist]
    | cons a rest =>
      rw [configParserReadLoop, hlist]
      dsimp only
      obtain ⟨error, herror, hfails⟩ | ⟨s', hok, hflattens, hmeasure⟩ := h.include_next htargets hlist
      · rw [herror]
        exact .inl ⟨error, rfl, hfails⟩
      · rw [hok]
        exact ih hflattens (by omega) (by omega)

end flatten

/-! ## Freeing a configuration -/

section teardown

variable {s : State} {t : Teardown} {l : List ℕ} {a : ℕ}

/-- The parent of a node. -/
def State.parent (s : State) (a : ℕ) : Option ℕ := (s.nodes[a]?).bind Node.parent

/-- Some nodes are left, and count those of their children that are. -/
structure Teardown.Leaves (t : Teardown) (s : State) (l : List ℕ) : Prop where
  nodeList : t.nodeList = l
  includeList : t.includeList = []
  asserts : t.asserts = true
  parents : ∀ a : ℕ, (t.nodes[a]?).map Node.parent = (s.nodes[a]?).map Node.parent
  counted : ∀ (a : ℕ) (node : Node), t.nodes[a]? = some node → node.nChildren = l.countP fun b => s.parent b == some a

/-- Every node stands behind its parent. -/
structure State.Ordered (s : State) (l : List ℕ) : Prop where
  nodup : l.Nodup
  lt : ∀ a ∈ l, a < s.nodes.length
  parents : ∀ before a after, l = before ++ a :: after → ∀ p, s.parent a = some p → p ∈ before

/-- A part of the nodes is ordered. -/
theorem State.Ordered.of_append {l' : List ℕ} (h : s.Ordered (l ++ l')) : s.Ordered l where
  nodup := (List.nodup_append.mp h.nodup).1
  lt a ha := h.lt a (List.mem_append_left _ ha)
  parents before a after hl := h.parents before a (after ++ l') (by rw [hl, List.append_assoc, List.cons_append])

/-- The last node has no children. -/
theorem State.Ordered.countP_last (h : s.Ordered (l ++ [a])) : (l ++ [a]).countP (fun b => s.parent b == some a) = 0 := by
  apply List.countP_eq_zero.mpr
  intro b hb hparent
  obtain ⟨before, after, hl⟩ := List.append_of_mem hb
  have hbefore : a ∈ before := h.parents before b after hl a (beq_iff_eq.mp hparent)
  have hlast : (b :: after).getLast? = some a := by
    have hall : (l ++ [a]).getLast? = some a := List.getLast?_concat
    rw [hl, List.getLast?_append_of_ne_nil _ (List.cons_ne_nil _ _)] at hall
    exact hall
  have hnodup := h.nodup
  rw [hl] at hnodup
  exact (List.nodup_append.mp hnodup).2.2 a hbefore a (List.mem_of_getLast? hlast) rfl

/-- The last node is freed. -/
theorem Teardown.Leaves.free (h : t.Leaves s (l ++ [a])) (hs : s.Ordered (l ++ [a])) : (configNodeFree t a).Leaves s l := by
  have hlt : a < s.nodes.length := hs.lt a (List.mem_append_right _ List.mem_cons_self)
  have hparent := h.parents a
  rw [List.getElem?_eq_getElem hlt, Option.map_some] at hparent
  obtain ⟨node, hnode, hsame⟩ := Option.map_eq_some_iff.mp hparent
  have hparentOf : s.parent a = node.parent := by
    rw [State.parent, List.getElem?_eq_getElem hlt, Option.bind_some, hsame]
  have hnone : node.nChildren = 0 := (h.counted a node hnode).trans hs.countP_last
  have hnotin : a ∉ l := fun ha => (List.nodup_append.mp hs.nodup).2.2 a ha a List.mem_cons_self rfl
  have hnodes (b : ℕ) : (configNodeFree t a).nodes[b]? = (t.nodes[b]?).map fun other =>
      if node.parent = some b then { other with nChildren := other.nChildren - 1 } else other := by
    rw [configNodeFree, hnode]
    dsimp only
    cases node.parent with
    | none => simp
    | some p =>
      rw [Option.elim_some, List.getElem?_modify, Option.map_eq_map]
      simp only [Option.some.injEq]
  refine ⟨?_, ?_, ?_, fun b => ?_, fun b other hb => ?_⟩
  · rw [configNodeFree, hnode]
    dsimp only
    rw [h.nodeList, List.erase_append_right _ hnotin, List.erase_cons_head, List.append_nil]
  · rw [configNodeFree, hnode]
    dsimp only
    rw [h.includeList]
    rfl
  · rw [configNodeFree, hnode]
    dsimp only
    rw [h.asserts, hnone]
    rfl
  · rw [← h.parents b, hnodes, Option.map_map]
    congr 1
    funext other
    rw [Function.comp_apply]
    split <;> rfl
  · rw [hnodes] at hb
    obtain ⟨old, hold, hsame⟩ := Option.map_eq_some_iff.mp hb
    have hcounted := h.counted b old hold
    rw [List.countP_append, List.countP_singleton, hparentOf] at hcounted
    by_cases hp : node.parent = some b
    · rw [if_pos hp] at hsame
      rw [if_pos (beq_iff_eq.mpr hp)] at hcounted
      rw [← hsame, hcounted]
      rfl
    · rw [if_neg hp] at hsame
      rw [if_neg (by simpa using hp)] at hcounted
      rw [← hsame, hcounted]
      rfl

/-- All nodes are freed, from the last to the first. -/
theorem Teardown.Leaves.freeAll (h : t.Leaves s l) (hs : s.Ordered l) :
    (l.reverse.foldl configNodeFree t).Leaves s [] := by
  induction l using List.reverseRecOn generalizing t with
  | nil => exact h
  | append_singleton l a ih =>
    rw [List.reverse_append, List.reverse_singleton, List.singleton_append, List.foldl_cons]
    exact ih (h.free hs) hs.of_append

/-- A sound configuration counts its children by the list of nodes. -/
theorem State.Sound.countP_parent (h : s.Sound) (a : ℕ) :
    s.nodeList.countP (fun b => s.parent b == some a) = s.nodes.countP fun node => node.parent == some a := by
  have hall : (List.range s.nodes.length).map s.parent = s.nodes.map Node.parent := by
    apply List.ext_getElem?
    intro i
    rw [List.getElem?_map, List.getElem?_map]
    by_cases hi : i < s.nodes.length
    · rw [List.getElem?_range hi, Option.map_some, State.parent, List.getElem?_eq_getElem hi]
      rfl
    · rw [List.getElem?_eq_none (by simpa using hi), List.getElem?_eq_none (by simpa using hi)]
      rfl
  have hcount := congrArg (List.countP fun parent => parent == some a) hall
  rw [List.countP_map, List.countP_map] at hcount
  rw [h.perm.countP_eq]
  exact hcount

/-- The assertions of `config_root_free` hold. -/
theorem State.Sound.asserts_configRootFree (h : s.Sound) (hs : s.Ordered s.nodeList) (hincludes : s.includeList = []) :
    (configRootFree s).asserts = true := by
  have hstart : Teardown.Leaves ⟨s.nodes, s.nodeList, s.includeList, true⟩ s s.nodeList :=
    ⟨rfl, hincludes, rfl, fun _ => rfl, fun a node hnode => (h.counted a node hnode).trans (h.countP_parent a).symm⟩
  have hend := hstart.freeAll hs
  rw [configRootFree]
  dsimp only
  rw [hend.asserts, hend.nodeList, hend.includeList]
  rfl

end teardown

/-! ## The main file -/

/-- A whole configuration: its nodes are its preorder, each once and behind its parent, and no assertion failed or
fails when it is freed. -/
structure State.Flattened (s : State) (files : Files) (T : Forest Label) : Prop where
  preorder : s.nodeList.map (fun a => (s.node a).map Prod.snd) = T.labels.map some
  tree : Forest.Lays Label.opens (includedForest files) s.node (fun _ => False) none T s.nodeList
  once : s.nodeList.Perm (List.range s.nodes.length)
  ordered : s.Ordered s.nodeList
  assertFailed : s.assertFailed = false
  teardown : (configRootFree s).asserts = true

section main

variable {files : Files} {s : State} {T : Forest Label}

/-- When all includes are read, the configuration is whole. -/
theorem State.Flattens.flattened (h : s.Flattens files T) (hnil : s.includeList = []) : s.Flattened files T := by
  have htree : Forest.Lays Label.opens (includedForest files) s.node (fun _ => False) none T s.nodeList :=
    h.lays.congr (fun _ _ => rfl) fun a _ => by rw [hnil]; exact (iff_false_intro List.not_mem_nil).symm
  have hordered : s.Ordered s.nodeList := by
    refine ⟨h.sound.nodup, fun a ha => (h.sound.mem_iff a).mp ha, fun before a after hl p hp => ?_⟩
    obtain ⟨q, e, hnode, hparent⟩ := htree.parent_mem hl
    obtain ⟨node, hget, hlabel⟩ := Option.map_eq_some_iff.mp hnode
    have hq : q = some p := by
      rw [← hp, State.parent, hget]
      exact (congrArg Prod.fst hlabel).symm
    obtain hnone | ⟨b, hb, hqb⟩ := hparent
    · rw [hq] at hnone
      cases hnone
    · rw [hq] at hqb
      cases hqb
      exact hb
  exact {
    preorder := htree.labels_eq fun _ _ => not_false
    tree := htree
    once := h.sound.perm
    ordered := hordered
    assertFailed := h.assertFailed
    teardown := h.sound.asserts_configRootFree hordered hnil }

/-- When all includes are read, each of them can be read. -/
theorem State.Flattens.isSome_included (h : s.Flattens files T) (hnil : s.includeList = []) :
    ∀ e ∈ T.labels, e.opens = true → (included files e).isSome := by
  intro e he hopens
  have hmem : some e ∈ s.nodeList.map fun a => (s.node a).map Prod.snd := by
    rw [(h.flattened hnil).preorder]
    exact List.mem_map_of_mem he
  obtain ⟨a, ha, hlabel⟩ := List.mem_map.mp hmem
  obtain ⟨pair, hnode, hsnd⟩ := Option.map_eq_some_iff.mp hlabel
  refine h.done a ha (by rw [hnil]; exact List.not_mem_nil) pair.1 e ?_ hopens
  rw [hnode, ← hsnd]

/-- The state that `config_parser_read` starts with. -/
theorem flattens_mainInclude {path : Bytes}
    (hT : Grows Label.opens (includedForest files) (.cons (mainInclude path).label .nil .nil) T) :
    State.Flattens files T ⟨[mainInclude path], [0], [0], configPathNew none none path, 0, 0, 0, 0, none, false⟩ where
  sound := by
    refine ⟨List.Perm.refl _, fun a node hnode => ?_, fun node hnode p hp => ?_, List.mem_cons_self, Nat.one_pos⟩
    · have hmem := List.mem_singleton.mp (List.mem_of_getElem? hnode)
      rw [hmem]
      rfl
    · rw [List.mem_singleton.mp hnode] at hp
      cases hp
  assertFailed := rfl
  queued := List.nodup_cons.mpr ⟨List.not_mem_nil, List.nodup_nil⟩
  waiting a ha := ha
  lays := by
    cases hT with
    | keep hopen _ _ => cases hopen
    | fill hopen hchildren hsiblings =>
      cases hsiblings
      exact .leaf rfl List.mem_cons_self hopen hchildren (.nil none)
  done a ha hnot := absurd ha hnot

/-- A configuration is read if all its includes can be, and the list of its nodes then is the preorder of the main
file with what every include includes below it. -/
theorem configParserRead_flattened (files : Files) (path : Bytes) (hcycle : NoCycle files path) :
    ∃ T, Grows Label.opens (includedForest files) (.cons (mainInclude path).label .nil .nil) T ∧
      ∃ n, ∀ fuel, n ≤ fuel → ∃ result, configParserRead files fuel path = some result ∧
        ((∃ s, result = .ok s) ↔ ∀ e ∈ T.labels, e.opens = true → (included files e).isSome) ∧
        ∀ s, result = .ok s → s.Flattened files T := by
  obtain ⟨T, hT⟩ := hcycle.exists_grows
  refine ⟨T, hT, T.labels.countP Label.opens + 2, fun fuel hfuel => ?_⟩
  have htargets : ∀ e ∈ T.labels, e.opens = true → e.target.isSome := by
    refine hT.forall_labels ?_ fun label _ => isSome_target_of_mem_includedForest files label
    intro e he _
    rw [List.mem_singleton.mp he]
    rfl
  have hstart := flattens_mainInclude hT
  obtain ⟨error, herror, e, he, hopens, hfails⟩ | ⟨s, hok, hflattens, hnil⟩ :=
    hstart.readLoop htargets (n := T.labels.countP Label.opens + 1) (by rw [List.length_singleton]; omega) hfuel
  · refine ⟨_, herror, ⟨fun hex => ?_, fun hall => ?_⟩, fun s hs => by cases hs⟩
    · obtain ⟨s, hs⟩ := hex
      cases hs
    · have hsome := hall e he hopens
      rw [hfails] at hsome
      cases hsome
  · refine ⟨_, hok, ⟨fun _ => hflattens.isSome_included hnil, fun _ => ⟨s, rfl⟩⟩, fun s' hs' => ?_⟩
    cases hs'
    exact hflattens.flattened hnil

/-- A main file that includes a file and a directory; the file includes a third one, and the directory has two. -/
def nestedDocuments : List (Bytes × XmlDocument) :=
  [(lit "/etc/a", ⟨lit "busconfig", [], .element (lit "include") [] (.text (lit "b") .nil)
      (.element (lit "includedir") [] (.text (lit "d") .nil) (.element (lit "fork") [] .nil .nil))⟩),
    (lit "/etc/b", ⟨lit "busconfig", [], .element (lit "syslog") [] .nil
      (.element (lit "include") [] (.text (lit "c") .nil) (.element (lit "auth") [] .nil .nil))⟩),
    (lit "/etc/c", ⟨lit "busconfig", [], .element (lit "keep_umask") [] .nil .nil⟩),
    (lit "/etc/d/x.conf", ⟨lit "busconfig", [], .element (lit "listen") [] .nil .nil⟩),
    (lit "/etc/d/y.conf", ⟨lit "busconfig", [], .element (lit "limit") [] .nil .nil⟩)]

/-- What there is at a path. -/
def nestedContents (path : Bytes) : FileContent := (nestedDocuments.lookup path).elim .missing .document

/-- Only the files have a content. -/
theorem nestedContents_finite (path : Bytes) (document : XmlDocument) (h : nestedContents path = .document document) :
    path ∈ nestedDocuments.map Prod.fst := by
  rw [nestedContents] at h
  cases hlookup : nestedDocuments.lookup path with
  | none =>
    rw [hlookup] at h
    cases h
  | some found =>
    obtain ⟨before, after, hsplit, -⟩ := List.lookup_eq_some_iff.mp hlookup
    rw [hsplit, List.map_append, List.map_cons]
    exact List.mem_append_right _ List.mem_cons_self

/-- Files at one path each, and a directory that lists two of them. -/
def nestedFiles : Files where
  realpath := id
  content := nestedContents
  dir path := if path = lit "/etc/d" then .entries [lit "x.conf", lit "readme", lit "y.conf"] else .missing
  selinuxEnabled := false
  selinuxPolicyRoot := none
  documents := nestedDocuments.map Prod.fst
  finite := nestedContents_finite

/-- The main file is read with the files that it includes in their places. -/
theorem configParserRead_flattened_nestedFiles :
    ∃ T, Grows Label.opens (includedForest nestedFiles) (.cons (mainInclude (lit "/etc/a")).label .nil .nil) T ∧
      ∃ n, ∀ fuel, n ≤ fuel → ∃ result, configParserRead nestedFiles fuel (lit "/etc/a") = some result ∧
        ((∃ s, result = .ok s) ↔ ∀ e ∈ T.labels, e.opens = true → (included nestedFiles e).isSome) ∧
        ∀ s, result = .ok s → s.Flattened nestedFiles T :=
  configParserRead_flattened nestedFiles (lit "/etc/a") (noCycle_of_injective Function.injective_id _)

example : (configParserRead nestedFiles 6 (lit "/etc/a")).bind
    (fun result => result.toOption.map fun s => s.nodeList.map fun a => (s.node a).map (·.2.type)) =
      some ([.include, .busconfig, .include, .busconfig, .syslog, .include, .busconfig, .keepUmask, .auth, .includedir,
        .include, .busconfig, .listen, .include, .busconfig, .limit, .fork].map some) := by
  decide +kernel

end main

end DbusBroker.Config
