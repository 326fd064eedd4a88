import DbusBroker.Launch.ConfigParser

/-!
# What the parser makes of one file

A file stands for a forest of elements: those that the parser knows and that stand where they belong,
with the includes of a directory below its element. The handlers lay this forest out behind the node of
the include that is parsed, and queue the includes among the new nodes.
-/

namespace DbusBroker.Config

open Forest

/-! ## Files as forests -/

/-- What there is to know of an element. -/
structure Label where
  type : NodeType
  attrs : List (Bytes × Bytes)
  cdata : Bytes
  path : Option Path
  target : Option Path
  deriving DecidableEq, Repr

/-- The element that a node stands for. -/
def Node.label (node : Node) : Label := ⟨node.type, node.attrs, node.cdata, node.path, node.target⟩

/-- The element is an include. -/
def Label.opens (label : Label) : Bool := label.type == .include

/-- The parent and the element of a node. -/
def State.node (s : State) (a : ℕ) : Option (Option ℕ × Label) := (s.nodes[a]?).map fun node => (node.parent, node.label)

/-- The text of an element, without that of the elements in it. -/
def Xml.texts : Xml → Bytes
  | .nil => []
  | .text data rest => data ++ rest.texts
  | .element _ _ _ rest => rest.texts

/-- The file or directory that an element of a file includes. -/
def targetOf (files : Files) (file : Path) (type : NodeType) (attrs : List (Bytes × Bytes)) (cdata : Bytes) : Option Path :=
  match type with
  | .includedir => some (configPathNewDir (some file) cdata)
  | .include =>
    let base := if (configParserAttrsInclude attrs).selinuxRootRelative then files.selinuxPolicyRoot else none
    some (configPathNew (some file) base cdata)
  | _ => none

/-- The include of a file of a directory. -/
def includeLabel (dir : Path) (name : Bytes) : Label := ⟨.include, [], [], none, some (configPathNew (some dir) none name)⟩

/-- The includes of a directory, as they are listed. -/
def listedIncludes (files : Files) (file : Path) (type : NodeType) (cdata : Bytes) : List Label :=
  match type with
  | .includedir =>
    let dir := configPathNewDir (some file) cdata
    match files.dir dir.path with
    | .entries names => (names.filter isConfName).map (includeLabel dir)
    | _ => []
  | _ => []

/-- The directory that is included cannot be listed. -/
def listFails (files : Files) (file : Path) (type : NodeType) (cdata : Bytes) : Bool :=
  match type with
  | .includedir =>
    match files.dir (configPathNewDir (some file) cdata).path with
    | .failed => true
    | _ => false
  | _ => false

/-- The elements of a file below an element of a type. -/
def Xml.forest (files : Files) (file : Path) (parent : NodeType) (outermost : Bool) : Xml → Forest Label
  | .nil => .nil
  | .text _ rest => rest.forest files file parent outermost
  | .element name attrs content rest =>
    match nodeAccepts name parent outermost with
    | none => rest.forest files file parent outermost
    | some type =>
      .cons ⟨type, attrs, content.texts, some file, targetOf files file type attrs content.texts⟩
        ((content.forest files file type false).append (.ofList (listedIncludes files file type content.texts)))
        (rest.forest files file parent outermost)

/-- A directory that the elements of a file include cannot be listed. -/
def Xml.fails (files : Files) (file : Path) (parent : NodeType) (outermost : Bool) : Xml → Bool
  | .nil => false
  | .text _ rest => rest.fails files file parent outermost
  | .element name _ content rest =>
    match nodeAccepts name parent outermost with
    | none => rest.fails files file parent outermost
    | some type =>
      content.fails files file type false || listFails files file type content.texts ||
        rest.fails files file parent outermost

/-! ## States of the parser -/

/-- Every node is in the list once and counts its children. -/
structure State.Sound (s : State) : Prop where
  perm : s.nodeList.Perm (List.range s.nodes.length)
  counted : ∀ a node, s.nodes[a]? = some node → node.nChildren = s.nodes.countP fun child => child.parent == some a
  parents : ∀ node ∈ s.nodes, ∀ p, node.parent = some p → p < s.nodes.length
  last : s.last ∈ s.nodeList
  current : s.current < s.nodes.length

/-- The parser is at a node, and puts the next ones between two parts of the list. -/
structure State.At (s : State) (p : ℕ) (before after : List ℕ) : Prop where
  sound : s.Sound
  error : s.error = none
  nFailed : s.nFailed = 0
  current : s.current = p
  nodeList : s.nodeList = before ++ after
  last : before.getLast? = some s.last

section states

variable {s s' s'' : State} {p a : ℕ} {before after : List ℕ}

/-- A node behind the last one of a part of a list. -/
theorem linkAfter_append {last : ℕ} (new : ℕ) (h : before.getLast? = some last) (hnodup : (before ++ after).Nodup) :
    linkAfter last new (before ++ after) = before ++ new :: after := by
  induction before with
  | nil => cases h
  | cons b rest ih =>
    obtain ⟨hfresh, hnodup⟩ := List.nodup_cons.mp hnodup
    rw [List.cons_append, linkAfter]
    cases rest with
    | nil =>
      have hb : b = last := Option.some.inj h
      rw [if_pos hb]
      rfl
    | cons c rest =>
      have hlast : (c :: rest).getLast? = some last := by
        rw [← h, List.getLast?_cons_cons]
      have hne : b ≠ last := by
        intro heq
        rw [heq] at hfresh
        exact hfresh (List.mem_append_left _ (List.mem_of_getLast? hlast))
      rw [if_neg hne, ih hlast hnodup]
      rfl

/-- Linking a node adds it. -/
theorem linkAfter_perm {last new : ℕ} {l : List ℕ} (h : last ∈ l) : (linkAfter last new l).Perm (new :: l) := by
  induction l with
  | nil => cases h
  | cons b rest ih =>
    rw [linkAfter]
    by_cases hb : b = last
    · rw [if_pos hb]
      exact List.Perm.swap _ _ _
    · rw [if_neg hb]
      exact ((ih ((List.mem_cons.mp h).resolve_left (Ne.symm hb))).cons b).trans (List.Perm.swap _ _ _)

/-- No node is in the list twice. -/
theorem State.Sound.nodup (h : s.Sound) : s.nodeList.Nodup := h.perm.nodup_iff.mpr List.nodup_range

/-- The nodes in the list. -/
theorem State.Sound.mem_iff (h : s.Sound) (a : ℕ) : a ∈ s.nodeList ↔ a < s.nodes.length := by
  rw [h.perm.mem_iff, List.mem_range]

/-- The nodes after one was added: the new one, and the others with one child more of the current one. -/
theorem State.addNode_nodes (s : State) (type : NodeType) (attrs : List (Bytes × Bytes)) (path target : Option Path)
    (a : ℕ) : (s.addNode type attrs path target).nodes[a]? =
      if a = s.nodes.length then some ⟨some s.current, 0, type, attrs, [], path, target⟩
      else (s.nodes[a]?).map fun node => if a = s.current then { node with nChildren := node.nChildren + 1 } else node := by
  rw [State.addNode]
  dsimp only
  by_cases hnew : a = s.nodes.length
  · have hlength : (s.nodes.modify s.current fun node => { node with nChildren := node.nChildren + 1 }).length =
        s.nodes.length := List.length_modify ..
    rw [if_pos hnew, hnew, List.getElem?_append_right (Nat.le_of_eq hlength), hlength, Nat.sub_self]
    rfl
  · rw [if_neg hnew]
    by_cases hlt : a < s.nodes.length
    · rw [List.getElem?_append_left (by rwa [List.length_modify]), List.getElem?_modify, Option.map_eq_map]
      congr 1
      funext node
      exact if_congr eq_comm rfl rfl
    · have hout : s.nodes.length < a := by omega
      rw [List.getElem?_eq_none (by simp; omega), List.getElem?_eq_none (by omega)]
      rfl

/-- Adding a node keeps the state sound. -/
theorem State.Sound.addNode (h : s.Sound) (type : NodeType) (attrs : List (Bytes × Bytes)) (path target : Option Path) :
    (s.addNode type attrs path target).Sound := by
  have hlength : (s.addNode type attrs path target).nodes.length = s.nodes.length + 1 := by simp [State.addNode]
  have hcount (b : ℕ) : (s.addNode type attrs path target).nodes.countP (fun child => child.parent == some b) =
      s.nodes.countP (fun child => child.parent == some b) + if b = s.current then 1 else 0 := by
    have hmodify : (s.nodes.modify s.current fun node => { node with nChildren := node.nChildren + 1 }).countP
        (fun child => child.parent == some b) = s.nodes.countP fun child => child.parent == some b := by
      obtain ⟨node, hnode⟩ : ∃ node, s.nodes[s.current]? = some node := ⟨_, List.getElem?_eq_getElem h.current⟩
      have hmap : (s.nodes.modify s.current fun node => { node with nChildren := node.nChildren + 1 }).map Node.parent =
          s.nodes.map Node.parent := by
        apply List.ext_getElem?
        intro i
        rw [List.getElem?_map, List.getElem?_map, List.getElem?_modify]
        cases s.nodes[i]? with
        | none => rfl
        | some node => by_cases hi : s.current = i <;> simp [hi]
      have hparents := congrArg (List.countP fun parent => parent == some b) hmap
      rw [List.countP_map, List.countP_map] at hparents
      exact hparents
    rw [State.addNode]
    dsimp only
    rw [List.countP_append, hmodify, List.countP_singleton]
    simp only [beq_iff_eq, Option.some.injEq]
    rw [if_congr eq_comm rfl rfl]
  refine ⟨?_, ?_, ?_, ?_, ?_⟩
  · rw [hlength, List.range_succ]
    have hlinked : (linkAfter s.last s.nodes.length s.nodeList).Perm (s.nodes.length :: s.nodeList) := linkAfter_perm h.last
    exact hlinked.trans ((h.perm.cons _).trans (List.perm_append_singleton _ _).symm)
  · intro b node hb
    rw [hcount]
    rw [State.addNode_nodes] at hb
    by_cases hnew : b = s.nodes.length
    · rw [if_pos hnew] at hb
      cases hb
      have hnone : s.nodes.countP (fun child => child.parent == some b) = 0 := by
        apply List.countP_eq_zero.mpr
        intro child hchild hparent
        exact absurd (h.parents child hchild b (beq_iff_eq.mp hparent)) (by omega)
      have hcurrent := h.current
      rw [hnone, if_neg (by omega)]
    · rw [if_neg hnew] at hb
      obtain ⟨old, hold, hsame⟩ := Option.map_eq_some_iff.mp hb
      have hcounted := h.counted b old hold
      by_cases hcurrent : b = s.current
      · rw [if_pos hcurrent] at hsame ⊢
        rw [← hsame]
        exact congrArg (· + 1) hcounted
      · rw [if_neg hcurrent] at hsame ⊢
        rw [← hsame]
        exact hcounted
  · intro node hnode q hq
    rw [hlength]
    obtain ⟨i, hi⟩ := List.mem_iff_getElem?.mp hnode
    rw [State.addNode_nodes] at hi
    by_cases hnew : i = s.nodes.length
    · rw [if_pos hnew] at hi
      cases hi
      have hcurrent := h.current
      have hparent : some s.current = some q := hq
      rw [← Option.some.inj hparent]
      omega
    · rw [if_neg hnew] at hi
      obtain ⟨old, hold, hsame⟩ := Option.map_eq_some_iff.mp hi
      have hparent : old.parent = some q := by
        rw [← hq, ← hsame]
        split <;> rfl
      exact Nat.lt_succ_of_lt (h.parents old (List.mem_of_getElem? hold) q hparent)
  · have hlinked : (linkAfter s.last s.nodes.length s.nodeList).Perm (s.nodes.length :: s.nodeList) := linkAfter_perm h.last
    exact hlinked.mem_iff.mpr List.mem_cons_self
  · rw [hlength]
    exact Nat.lt_succ_of_lt h.current

/-- Changing a node otherwise than in its parent and its children keeps the state sound. -/
theorem State.Sound.modify (h : s.Sound) {f : Node → Node} (hparent : ∀ node, (f node).parent = node.parent)
    (hchildren : ∀ node, (f node).nChildren = node.nChildren) (hnodes : s'.nodes = s.nodes.modify a f)
    (hlist : s'.nodeList = s.nodeList) (hlast : s'.last = s.last) (hcurrent : s'.current < s.nodes.length) : s'.Sound := by
  have hlength : s'.nodes.length = s.nodes.length := by rw [hnodes, List.length_modify]
  have hmap : s'.nodes.map Node.parent = s.nodes.map Node.parent := by
    apply List.ext_getElem?
    intro i
    rw [hnodes, List.getElem?_map, List.getElem?_map, List.getElem?_modify]
    cases s.nodes[i]? with
    | none => rfl
    | some node => by_cases hi : a = i <;> simp [hi, hparent]
  refine ⟨?_, fun b node hb => ?_, fun node hnode p hp => ?_, ?_, ?_⟩
  · rw [hlist, hlength]
    exact h.perm
  · have hcount := congrArg (List.countP fun parent => parent == some b) hmap
    rw [List.countP_map, List.countP_map] at hcount
    rw [hnodes, List.getElem?_modify] at hb
    obtain ⟨old, hold, hsame⟩ := Option.map_eq_some_iff.mp hb
    have hold' := h.counted b old hold
    have hnew : node.nChildren = old.nChildren := by
      rw [← hsame]
      split
      · exact hchildren old
      · rfl
    rw [hnew, hold']
    exact hcount.symm
  · rw [hlength]
    have hmem : node.parent ∈ s.nodes.map Node.parent := hmap ▸ List.mem_map_of_mem hnode
    obtain ⟨old, hold, hsame⟩ := List.mem_map.mp hmem
    exact h.parents old hold p (hsame.trans hp)
  · rw [hlist, hlast]
    exact h.last
  · rw [hlength]
    exact hcurrent

/-- The parent and the element of a node after another was added. -/
theorem State.node_addNode (s : State) (type : NodeType) (attrs : List (Bytes × Bytes)) (path target : Option Path)
    (a : ℕ) : (s.addNode type attrs path target).node a =
      if a = s.nodes.length then some (some s.current, ⟨type, attrs, [], path, target⟩) else s.node a := by
  rw [State.node, State.addNode_nodes]
  by_cases hnew : a = s.nodes.length
  · rw [if_pos hnew, if_pos hnew]
    rfl
  · rw [if_neg hnew, if_neg hnew, Option.map_map, State.node]
    congr 1
    funext node
    by_cases hcurrent : a = s.current
    · simp only [Function.comp_apply, if_pos hcurrent]
      rfl
    · simp only [Function.comp_apply, if_neg hcurrent]

/-- The parent and the element of a node after one was changed. -/
theorem State.node_modify {f : Node → Node} (hnodes : s'.nodes = s.nodes.modify a f) (b : ℕ) :
    s'.node b = if b = a then (s.nodes[b]?).map fun node => ((f node).parent, (f node).label) else s.node b := by
  rw [State.node, hnodes, List.getElem?_modify, Option.map_eq_map, Option.map_map]
  by_cases hb : b = a
  · rw [if_pos hb, hb]
    simp only [Function.comp_def, if_true]
  · rw [if_neg hb, State.node]
    simp only [Function.comp_def, Ne.symm hb, if_false]

end states

/-! ## Laying out elements -/

/-- What is below an open label is not laid out: nothing is to be filled in one file. -/
def Lays (s : State) (p : ℕ) (forest : Forest Label) (l : List ℕ) : Prop :=
  Forest.Lays Label.opens (fun _ => .nil) s.node (fun _ => False) (some p) forest l

/-- From one state to another, the current node was changed and maybe queued, and some nodes were laid out below it. -/
structure Laid (s s' : State) (p : ℕ) (before after : List ℕ) (update : Label → Label) (own : List ℕ)
    (forest : Forest Label) (new : List ℕ) : Prop where
  stands : s'.At p (before ++ new) after
  length : s.nodes.length ≤ s'.nodes.length
  fresh : ∀ a ∈ new, s.nodes.length ≤ a
  old : ∀ a, a < s.nodes.length → a ≠ p → s'.node a = s.node a
  self : s'.node p = (s.node p).map fun node => (node.1, update node.2)
  lays : Lays s' p forest new
  queued : ∃ includes, s'.includeList = s.includeList ++ includes ∧
    includes.Perm (own ++ new.filter fun a => (s'.node a).any (·.2.opens))
  file : s'.file = s.file
  nDepth : s'.nDepth = s.nDepth
  assertFailed : s'.assertFailed = s.assertFailed

/-- Text is added to an element. -/
def Label.addText (data : Bytes) (label : Label) : Label := { label with cdata := label.cdata ++ data }

/-- An element gets what it includes. -/
def Label.withTarget (target : Option Path) (label : Label) : Label := { label with target := target }

section laid

variable {s s' s'' : State} {p : ℕ} {before after new new' own own' : List ℕ} {update update' : Label → Label}
  {forest forest' : Forest Label}

/-- Nothing happened. -/
theorem Laid.refl (h : s.At p before after) : Laid s s p before after id [] .nil [] where
  stands := by rwa [List.append_nil]
  length := Nat.le_refl _
  fresh a ha := absurd ha List.not_mem_nil
  old a _ _ := rfl
  self := by simp
  lays := .nil _
  queued := ⟨[], (List.append_nil _).symm, List.Perm.nil⟩
  file := rfl
  nDepth := rfl
  assertFailed := rfl

/-- One thing after another. -/
theorem Laid.trans (h : Laid s s' p before after update own forest new)
    (h' : Laid s' s'' p (before ++ new) after update' own' forest' new') (hp : p < s.nodes.length) :
    Laid s s'' p before after (update' ∘ update) (own ++ own') (forest.append forest') (new ++ new') := by
  have hsame : ∀ a ∈ new, s''.node a = s'.node a := by
    intro a ha
    have hmem : a ∈ s'.nodeList := by
      rw [h.stands.nodeList]
      exact List.mem_append_left _ (List.mem_append_right _ ha)
    exact h'.old a ((h.stands.sound.mem_iff a).mp hmem) fun heq => absurd (h.fresh a ha) (by omega)
  have hfresh' : ∀ a ∈ new', s.nodes.length ≤ a := fun a ha => Nat.le_trans h.length (h'.fresh a ha)
  obtain ⟨i, hi, hperm⟩ := h.queued
  obtain ⟨i', hi', hperm'⟩ := h'.queued
  exact {
    stands := by
      rw [← List.append_assoc]
      exact h'.stands
    length := Nat.le_trans h.length h'.length
    fresh := fun a ha => (List.mem_append.mp ha).elim (h.fresh a) (hfresh' a)
    old := fun a ha hne => (h'.old a (Nat.lt_of_lt_of_le ha h.length) hne).trans (h.old a ha hne)
    self := by
      rw [h'.self, h.self, Option.map_map]
      rfl
    lays := (h.lays.congr hsame fun _ _ => Iff.rfl).append h'.lays
    queued := by
      refine ⟨i ++ i', by rw [hi', hi, List.append_assoc], ?_⟩
      have hfilter : (new.filter fun a => (s''.node a).any (·.2.opens)) = new.filter fun a => (s'.node a).any (·.2.opens) :=
        List.filter_congr fun a ha => by rw [hsame a ha]
      rw [List.filter_append, hfilter]
      have hall := hperm.append hperm'
      refine hall.trans ?_
      rw [List.append_assoc, List.append_assoc, ← List.append_assoc _ own', ← List.append_assoc own']
      exact (List.perm_append_comm.append_right _).append_left own
    file := h'.file.trans h.file
    nDepth := h'.nDepth.trans h.nDepth
    assertFailed := h'.assertFailed.trans h.assertFailed }

/-- One thing after another, where the first one made no nodes. -/
theorem Laid.next (h : Laid s s' p before after update own .nil []) (h' : Laid s' s'' p before after update' own' forest new)
    (hp : p < s.nodes.length) : Laid s s'' p before after (update' ∘ update) (own ++ own') forest new := by
  rw [← List.append_nil before] at h'
  exact h.trans h' hp

/-- Where the parser stands when it made no nodes. -/
theorem Laid.stays (h : Laid s s' p before after update own forest []) : s'.At p before after := by
  have hstands := h.stands
  rwa [List.append_nil] at hstands

/-- The current node was not made anew. -/
theorem State.At.lt_length (h : s.At p before after) : p < s.nodes.length := h.current ▸ h.sound.current

/-- A new node is put behind the last one. -/
theorem State.At.addNode (h : s.At p before after) (type : NodeType) (attrs : List (Bytes × Bytes))
    (path target : Option Path) : (s.addNode type attrs path target).At p (before ++ [s.nodes.length]) after where
  sound := h.sound.addNode type attrs path target
  error := h.error
  nFailed := h.nFailed
  current := h.current
  nodeList := by
    have hnodup := h.sound.nodup
    rw [h.nodeList] at hnodup
    have hlink := linkAfter_append s.nodes.length h.last hnodup
    rw [← h.nodeList] at hlink
    rw [List.append_assoc, List.singleton_append]
    exact hlink
  last := List.getLast?_concat

/-- There is one node more. -/
theorem State.length_addNode (s : State) (type : NodeType) (attrs : List (Bytes × Bytes)) (path target : Option Path) :
    (s.addNode type attrs path target).nodes.length = s.nodes.length + 1 := by simp [State.addNode]

/-- An include of a directory is laid out. -/
theorem State.At.addInclude (h : s.At p before after) (dir : Path) (name : Bytes) :
    Laid s (s.addInclude dir name) p before after id [] (.ofList [includeLabel dir name]) [s.nodes.length] := by
  have hadd := h.addNode .include [] none (some (configPathNew (some dir) none name))
  have hnode (a : ℕ) : (s.addInclude dir name).node a =
      if a = s.nodes.length then some (some s.current, includeLabel dir name) else s.node a :=
    s.node_addNode .include [] none (some (configPathNew (some dir) none name)) a
  have hnew : (s.addInclude dir name).node s.nodes.length = some (some p, includeLabel dir name) := by
    rw [hnode, if_pos rfl, h.current]
  exact {
    stands := ⟨⟨hadd.sound.perm, hadd.sound.counted, hadd.sound.parents, hadd.sound.last, hadd.sound.current⟩, hadd.error,
      hadd.nFailed, hadd.current, hadd.nodeList, hadd.last⟩
    length := Nat.le_trans (Nat.le_succ _) (Nat.le_of_eq (s.length_addNode .include [] none _).symm)
    fresh := fun a ha => Nat.le_of_eq (List.mem_singleton.mp ha).symm
    old := fun a ha _ => (hnode a).trans (if_neg (Nat.ne_of_lt ha))
    self := by
      rw [hnode, if_neg (Nat.ne_of_lt h.lt_length)]
      simp
    lays := .cons hnew not_false (.nil _) (.nil _)
    queued := ⟨[s.nodes.length], rfl, by
      rw [List.filter_singleton, hnew]
      exact List.Perm.refl _⟩
    file := rfl
    nDepth := rfl
    assertFailed := rfl }

/-- The includes of a directory are laid out. -/
theorem State.At.addIncludes (h : s.At p before after) (dir : Path) (names : List Bytes) :
    ∃ new, Laid s (names.foldl (·.addInclude dir ·) s) p before after id [] (.ofList (names.map (includeLabel dir))) new := by
  induction names generalizing s before with
  | nil => exact ⟨[], .refl h⟩
  | cons name names ih =>
    have hfirst := h.addInclude dir name
    obtain ⟨new, hrest⟩ := ih hfirst.stands
    exact ⟨_, hfirst.trans hrest h.lt_length⟩

/-- The current node is changed, otherwise than in its parent and its children. -/
theorem State.At.modify (h : s.At p before after) {f : Node → Node} (hparent : ∀ node, (f node).parent = node.parent)
    (hchildren : ∀ node, (f node).nChildren = node.nChildren) (hlabel : ∀ node, (f node).label = update node.label) :
    Laid s { s with nodes := s.nodes.modify s.current f } p before after update [] .nil [] := by
  have hsound : State.Sound { s with nodes := s.nodes.modify s.current f } :=
    h.sound.modify hparent hchildren rfl rfl rfl h.sound.current
  have hnode (b : ℕ) : State.node { s with nodes := s.nodes.modify s.current f } b =
      if b = s.current then (s.nodes[b]?).map fun node => ((f node).parent, (f node).label) else s.node b :=
    State.node_modify rfl b
  exact {
    stands := by
      rw [List.append_nil]
      exact ⟨hsound, h.error, h.nFailed, h.current, h.nodeList, h.last⟩
    length := Nat.le_of_eq (List.length_modify ..).symm
    fresh := fun a ha => absurd ha List.not_mem_nil
    old := fun a _ hne => (hnode a).trans (if_neg (h.current ▸ hne))
    self := by
      rw [hnode, if_pos h.current.symm, State.node, Option.map_map]
      simp only [hparent, hlabel]
      rfl
    lays := .nil _
    queued := ⟨[], (List.append_nil _).symm, List.Perm.nil⟩
    file := rfl
    nDepth := rfl
    assertFailed := rfl }

/-- Text is added. -/
theorem State.At.blob (h : s.At p before after) (data : Bytes) :
    Laid s (configParserBlob s data) p before after (Label.addText data) [] .nil [] := by
  have hblob : configParserBlob s data =
      { s with nodes := s.nodes.modify s.current fun node => { node with cdata := node.cdata ++ data } } := by
    rw [configParserBlob, h.error, h.nFailed]
    rfl
  rw [hblob]
  exact h.modify (fun _ => rfl) (fun _ => rfl) fun _ => rfl

/-- What is included is set. -/
theorem State.At.setTarget (h : s.At p before after) (target : Path) :
    Laid s (s.setTarget target) p before after (Label.withTarget (some target)) [] .nil [] :=
  h.modify (fun _ => rfl) (fun _ => rfl) fun _ => rfl

/-- The current node is queued. -/
theorem State.At.queue (h : s.At p before after) : Laid s (s.queue p) p before after id [p] .nil [] where
  stands := by
    rw [List.append_nil]
    exact ⟨⟨h.sound.perm, h.sound.counted, h.sound.parents, h.sound.last, h.sound.current⟩, h.error, h.nFailed, h.current,
      h.nodeList, h.last⟩
  length := Nat.le_refl _
  fresh a ha := absurd ha List.not_mem_nil
  old a _ _ := rfl
  self := by
    rw [State.node, State.node, Option.map_map]
    rfl
  lays := .nil _
  queued := ⟨[p], rfl, List.Perm.refl _⟩
  file := rfl
  nDepth := rfl
  assertFailed := rfl

/-- The end of an element sets what it includes, lays out the includes of a directory and queues an include. -/
theorem State.At.endNode (h : s.At p before after) (files : Files) {node : Node} (hnode : s.nodes[p]? = some node)
    (htarget : node.target = none) :
    (listFails files s.file node.type node.cdata = true → configParserEndNode files s node = .error .failed) ∧
      (listFails files s.file node.type node.cdata = false → ∃ s' new, configParserEndNode files s node = .ok s' ∧
        Laid s s' p before after (Label.withTarget (targetOf files s.file node.type node.attrs node.cdata))
          (if node.label.opens then [p] else []) (.ofList (listedIncludes files s.file node.type node.cdata)) new) := by
  have hlabel : s.node p = some (node.parent, node.label) := by rw [State.node, hnode]; rfl
  have hother (hinclude : node.type ≠ .include) (hdir : node.type ≠ .includedir) :
      listFails files s.file node.type node.cdata = false ∧ configParserEndNode files s node = .ok s ∧
        targetOf files s.file node.type node.attrs node.cdata = none ∧ node.label.opens = false ∧
        listedIncludes files s.file node.type node.cdata = [] := by
    have hopens : node.label.opens = false := beq_eq_false_iff_ne.mpr hinclude
    refine ⟨?_, ?_, ?_, hopens, ?_⟩
    · rw [listFails.eq_def]
      cases htype : node.type <;> first | rfl | exact absurd htype hdir
    · rw [configParserEndNode.eq_def]
      cases htype : node.type <;> first | rfl | exact absurd htype hdir | exact absurd htype hinclude
    · rw [targetOf.eq_def]
      cases htype : node.type <;> first | rfl | exact absurd htype hdir | exact absurd htype hinclude
    · rw [listedIncludes.eq_def]
      cases htype : node.type <;> first | rfl | exact absurd htype hdir
  by_cases hinclude : node.type = .include
  · have hfails : listFails files s.file node.type node.cdata = false := by rw [hinclude]; rfl
    refine ⟨fun h => absurd (hfails.symm.trans h) Bool.false_ne_true, fun _ => ?_⟩
    obtain ⟨target, htarget'⟩ : ∃ target, configPathNew (some s.file)
      (if (configParserAttrsInclude node.attrs).selinuxRootRelative then files.selinuxPolicyRoot else none) node.cdata =
        target := ⟨_, rfl⟩
    have hset := h.setTarget target
    have hall := hset.next hset.stays.queue h.lt_length
    refine ⟨(s.setTarget target).queue p, [], ?_, ?_⟩
    · rw [configParserEndNode, hinclude, ← htarget', h.current]
    · have hopens : node.label.opens = true := beq_iff_eq.mpr hinclude
      rw [hopens, hinclude, targetOf, htarget']
      exact hall
  · by_cases hdir : node.type = .includedir
    · have hopens : node.label.opens = false := beq_eq_false_iff_ne.mpr hinclude
      have hset := h.setTarget (configPathNewDir (some s.file) node.cdata)
      rw [hopens, hdir, listFails, listedIncludes, targetOf, configParserEndNode, hdir]
      dsimp only
      cases hlist : files.dir (configPathNewDir (some s.file) node.cdata).path with
      | missing => exact ⟨fun hfalse => absurd hfalse Bool.false_ne_true, fun _ => ⟨_, [], rfl, hset⟩⟩
      | failed => exact ⟨fun _ => rfl, fun htrue => absurd htrue.symm Bool.false_ne_true⟩
      | entries names =>
        refine ⟨fun hfalse => absurd hfalse Bool.false_ne_true, fun _ => ?_⟩
        obtain ⟨new, hadd⟩ := hset.stays.addIncludes (configPathNewDir (some s.file) node.cdata) (names.filter isConfName)
        exact ⟨_, _, rfl, hset.next hadd h.lt_length⟩
    · obtain ⟨hfails, hend, htargetOf, hopens, hlisted⟩ := hother hinclude hdir
      refine ⟨fun h => absurd (hfails.symm.trans h) Bool.false_ne_true, fun _ => ⟨s, [], hend, ?_⟩⟩
      rw [htargetOf, hopens, hlisted]
      have hrefl := Laid.refl h
      have hsame : s.node p = (s.node p).map fun node => (node.1, Label.withTarget none node.2) := by
        rw [hlabel]
        have hnone : Label.withTarget none node.label = node.label := by
          rw [Label.withTarget, Node.label, htarget]
        rw [Option.map_some, hnone]
      exact { hrefl with self := hsame }

/-! ## Elements -/

/-- A new node becomes the current one. -/
def State.enter (s : State) (type : NodeType) (attrs : List (Bytes × Bytes)) : State :=
  { s.addNode type attrs (some s.file) none with current := s.nodes.length, nDepth := s.nDepth + 1 }

/-- The parent of a node becomes the current one. -/
def State.leave (s : State) (parent : Option ℕ) : State :=
  { s with
    assertFailed := s.assertFailed || s.nDepth == 0 || parent.isNone
    nDepth := s.nDepth - 1
    current := parent.getD s.current }

/-- The parser is at the new node. -/
theorem State.At.enter (h : s.At p before after) (type : NodeType) (attrs : List (Bytes × Bytes)) :
    (s.enter type attrs).At s.nodes.length (before ++ [s.nodes.length]) after := by
  have hadd := h.addNode type attrs (some s.file) none
  have hlt : s.nodes.length < (s.addNode type attrs (some s.file) none).nodes.length := by
    rw [State.length_addNode]
    exact Nat.lt_succ_self _
  exact ⟨⟨hadd.sound.perm, hadd.sound.counted, hadd.sound.parents, hadd.sound.last, hlt⟩, hadd.error, hadd.nFailed, rfl,
    hadd.nodeList, hadd.last⟩

/-- The parent and the element of a node after another became the current one. -/
theorem State.node_enter (s : State) (type : NodeType) (attrs : List (Bytes × Bytes)) (a : ℕ) :
    (s.enter type attrs).node a =
      if a = s.nodes.length then some (some s.current, ⟨type, attrs, [], some s.file, none⟩) else s.node a :=
  s.node_addNode type attrs (some s.file) none a

/-- An element is laid out when everything in it is. -/
theorem State.At.enclose (h : s.At p before after) {type : NodeType} {attrs : List (Bytes × Bytes)} {label : Label}
    (hin : Laid (s.enter type attrs) s' s.nodes.length (before ++ [s.nodes.length]) after update own forest new)
    (hlabel : update ⟨type, attrs, [], some s.file, none⟩ = label)
    (hown : own = if label.opens then [s.nodes.length] else []) :
    Laid s (s'.leave (some p)) p before after id [] (.cons label forest .nil) (s.nodes.length :: new) := by
  have hlength : (s.enter type attrs).nodes.length = s.nodes.length + 1 := s.length_addNode type attrs (some s.file) none
  have hself : s'.node s.nodes.length = some (some p, label) := by
    rw [hin.self, State.node_enter, if_pos rfl, Option.map_some, hlabel, h.current]
  have hold (a : ℕ) (ha : a < s.nodes.length) : s'.node a = s.node a := by
    rw [hin.old a (by omega) (Nat.ne_of_lt ha), State.node_enter, if_neg (Nat.ne_of_lt ha)]
  have hp : p < s'.nodes.length := by
    have hgrown := hin.length
    have hlt := h.lt_length
    omega
  have hs' := hin.stands
  obtain ⟨includes, hincludes, hperm⟩ := hin.queued
  exact {
    stands := by
      refine ⟨⟨hs'.sound.perm, hs'.sound.counted, hs'.sound.parents, hs'.sound.last, hp⟩, hs'.error, hs'.nFailed, rfl, ?_, ?_⟩
      · have hlist := hs'.nodeList
        rw [List.append_assoc before] at hlist
        exact hlist
      · have hlast := hs'.last
        rw [List.append_assoc] at hlast
        exact hlast
    length := by
      have hgrown := hin.length
      exact Nat.le_trans (by omega) hgrown
    fresh := by
      intro a ha
      obtain rfl | ha := List.mem_cons.mp ha
      · exact Nat.le_refl _
      · have hfresh := hin.fresh a ha
        omega
    old := fun a ha _ => hold a ha
    self := by
      have hsame : (s'.leave (some p)).node p = s.node p := hold p h.lt_length
      rw [hsame]
      simp
    lays := by
      have hcons : Forest.Lays Label.opens (fun _ => .nil) s'.node (fun _ => False) (some p) (.cons label forest .nil)
          (s.nodes.length :: (new ++ [])) := .cons hself not_false hin.lays (.nil (some p))
      rw [List.append_nil] at hcons
      exact hcons
    queued := by
      refine ⟨includes, hincludes, hperm.trans ?_⟩
      have hfilter : (s.nodes.length :: new).filter (fun a => (s'.node a).any (·.2.opens)) =
          own ++ new.filter fun a => (s'.node a).any (·.2.opens) := by
        rw [List.filter_cons, hself, hown]
        by_cases hopens : label.opens = true
        · rw [if_pos hopens, if_pos (by simpa using hopens)]
          rfl
        · rw [if_neg hopens, if_neg (by simpa using hopens)]
          rfl
      exact List.Perm.of_eq hfilter.symm
    file := hin.file
    nDepth := by
      have hdepth : s'.nDepth = s.nDepth + 1 := hin.nDepth
      exact congrArg (· - 1) hdepth
    assertFailed := by
      have hdepth : s'.nDepth = s.nDepth + 1 := hin.nDepth
      have hassert : s'.assertFailed = s.assertFailed := hin.assertFailed
      rw [State.leave, hdepth, hassert]
      simp }

/-! ## Files -/

/-- Nothing happens after an error. -/
theorem Xml.run_of_error (files : Files) (xml : Xml) (h : s.error.isSome) : xml.run files s = s := by
  induction xml generalizing s with
  | nil => rfl
  | text data rest ih =>
    rw [Xml.run, configParserBlob, h]
    exact ih h
  | element name attrs content rest ihc ihs =>
    rw [Xml.run, configParserBegin, if_pos h, ihc h, configParserEnd, if_pos h, ihs h]

/-- Nothing happens in an element that was not accepted. -/
theorem Xml.run_of_failed (files : Files) (xml : Xml) (h : 0 < s.nFailed) : xml.run files s = s := by
  by_cases herror : s.error.isSome
  · exact xml.run_of_error files herror
  induction xml generalizing s with
  | nil => rfl
  | text data rest ih =>
    rw [Xml.run, configParserBlob, decide_eq_true h, Bool.or_true, if_pos rfl]
    exact ih h herror
  | element name attrs content rest ihc ihs =>
    have hcontent : content.run files { s with nFailed := s.nFailed + 1 } = { s with nFailed := s.nFailed + 1 } :=
      ihc (Nat.succ_pos _) herror
    rw [Xml.run, configParserBegin, if_neg herror, if_pos h, hcontent, configParserEnd, if_neg herror,
      if_pos (Nat.succ_pos _)]
    exact ihs h herror

/-- An element that is not accepted is passed over. -/
theorem State.At.skip (h : s.At p before after) (files : Files) {node : Node} (hnode : s.nodes[p]? = some node)
    {name : Bytes} (hreject : nodeAccepts name node.type (s.nDepth == 0) = none) (attrs : List (Bytes × Bytes))
    (content : Xml) : configParserEnd files (content.run files (configParserBegin s name attrs)) = s := by
  have hbegin : configParserBegin s name attrs = { s with nFailed := 1 } := by
    rw [configParserBegin, h.error, h.nFailed, h.current, hnode]
    dsimp only
    rw [hreject]
    rfl
  have hnone : ¬({ s with nFailed := 1 } : State).error.isSome := by
    rw [h.error]
    exact Bool.false_ne_true
  rw [hbegin, content.run_of_failed files Nat.one_pos, configParserEnd, if_neg hnone, if_pos Nat.one_pos]
  have hback : { s with nFailed := 0 } = s := by rw [← h.nFailed]
  exact hback

/-- An element that is accepted becomes the current one. -/
theorem State.At.begin (h : s.At p before after) {node : Node} (hnode : s.nodes[p]? = some node) {name : Bytes}
    {type : NodeType} (haccepts : nodeAccepts name node.type (s.nDepth == 0) = some type) (attrs : List (Bytes × Bytes)) :
    configParserBegin s name attrs = s.enter type attrs := by
  rw [configParserBegin, h.error, h.nFailed, h.current, hnode]
  dsimp only
  rw [haccepts]
  rfl

/-- An element that is accepted is laid out if its content is, unless its directory cannot be listed. -/
theorem State.At.element (h : s.At p before after) (files : Files) {node : Node} (hnode : s.nodes[p]? = some node)
    {name : Bytes} {type : NodeType} (haccepts : nodeAccepts name node.type (s.nDepth == 0) = some type)
    {attrs : List (Bytes × Bytes)} {content : Xml}
    (hin : Laid (s.enter type attrs) (content.run files (s.enter type attrs)) s.nodes.length (before ++ [s.nodes.length])
      after (Label.addText content.texts) [] forest new) :
    (listFails files s.file type content.texts = true →
      (configParserEnd files (content.run files (configParserBegin s name attrs))).error = some .failed) ∧
    (listFails files s.file type content.texts = false → ∃ new',
      Laid s (configParserEnd files (content.run files (configParserBegin s name attrs))) p before after id []
        (.cons ⟨type, attrs, content.texts, some s.file, targetOf files s.file type attrs content.texts⟩
          (forest.append (.ofList (listedIncludes files s.file type content.texts))) .nil) new') := by
  have hbegin := h.begin hnode haccepts attrs
  obtain ⟨s₁, hs₁⟩ : ∃ s₁, content.run files (s.enter type attrs) = s₁ := ⟨_, rfl⟩
  rw [hs₁] at hin
  rw [hbegin, hs₁]
  have hself : s₁.node s.nodes.length = some (some p, ⟨type, attrs, content.texts, some s.file, none⟩) := by
    rw [hin.self, State.node_enter, if_pos rfl, h.current]
    rfl
  obtain ⟨inner, hinner, hlabel⟩ := Option.map_eq_some_iff.mp hself
  have hparent : inner.parent = some p := congrArg Prod.fst hlabel
  have hinnerLabel : inner.label = ⟨type, attrs, content.texts, some s.file, none⟩ := congrArg Prod.snd hlabel
  have htype : inner.type = type := congrArg Label.type hinnerLabel
  have hattrs : inner.attrs = attrs := congrArg Label.attrs hinnerLabel
  have hcdata : inner.cdata = content.texts := congrArg Label.cdata hinnerLabel
  have hfile : s₁.file = s.file := hin.file
  have hnone : ¬s₁.error.isSome := by rw [hin.stands.error]; exact Bool.false_ne_true
  have hpos : ¬0 < s₁.nFailed := by rw [hin.stands.nFailed]; exact Nat.lt_irrefl 0
  obtain ⟨hfail, hlaid⟩ := hin.stands.endNode files hinner (congrArg Label.target hinnerLabel)
  rw [hfile, htype, hcdata] at hfail hlaid
  rw [configParserEnd, if_neg hnone, if_neg hpos, hin.stands.current, hinner]
  dsimp only
  refine ⟨fun hfails => by rw [hfail hfails], fun hlists => ?_⟩
  obtain ⟨s₂, new₂, hend, hlaid₂⟩ := hlaid hlists
  rw [hattrs] at hlaid₂
  have hall := hin.trans hlaid₂ (State.At.lt_length (h.enter type attrs))
  have hopens : inner.label.opens =
      Label.opens ⟨type, attrs, content.texts, some s.file, targetOf files s.file type attrs content.texts⟩ := by
    rw [hinnerLabel]
    rfl
  have hleave := h.enclose hall rfl (by rw [hopens]; rfl)
  rw [hend, hparent]
  exact ⟨_, hleave⟩

/-- The content of an element is laid out behind the last node, unless a directory cannot be listed. -/
theorem Xml.run_laid (files : Files) (xml : Xml) (h : s.At p before after) {q : Option ℕ} {label : Label}
    (hnode : s.node p = some (q, label)) :
    (xml.fails files s.file label.type (s.nDepth == 0) = true → (xml.run files s).error = some .failed) ∧
      (xml.fails files s.file label.type (s.nDepth == 0) = false → ∃ new, Laid s (xml.run files s) p before after
        (Label.addText xml.texts) [] (xml.forest files s.file label.type (s.nDepth == 0)) new) := by
  induction xml generalizing s p before q label with
  | nil =>
    refine ⟨fun hfalse => absurd hfalse.symm (by simp [Xml.fails]), fun _ => ⟨[], ?_⟩⟩
    have hid : Label.addText (Xml.texts .nil) = id := by
      funext label
      rw [Label.addText, Xml.texts, List.append_nil]
      rfl
    rw [hid]
    exact .refl h
  | text data rest ih =>
    have hblob := h.blob data
    have hself : (configParserBlob s data).node p = some (q, label.addText data) := by rw [hblob.self, hnode]; rfl
    obtain ⟨hfail, hlaid⟩ := ih hblob.stays hself
    rw [hblob.file, hblob.nDepth] at hfail hlaid
    refine ⟨hfail, fun hok => ?_⟩
    obtain ⟨new, hrest⟩ := hlaid hok
    have hall := hblob.next hrest h.lt_length
    have hupdate : Label.addText rest.texts ∘ Label.addText data = Label.addText (Xml.text data rest).texts := by
      funext label
      simp [Label.addText, Xml.texts]
    rw [hupdate] at hall
    exact ⟨new, hall⟩
  | element name attrs content rest ihc ihs =>
    obtain ⟨node, hget, hlabel⟩ := Option.map_eq_some_iff.mp hnode
    have htype : node.type = label.type := congrArg (fun pair => pair.2.type) hlabel
    rw [Xml.fails, Xml.forest, Xml.run, Xml.texts]
    cases haccepts : nodeAccepts name label.type (s.nDepth == 0) with
    | none =>
      rw [← htype] at haccepts
      rw [h.skip files hget haccepts attrs content]
      exact ihs h hnode
    | some type =>
      rw [← htype] at haccepts
      have henter := h.enter type attrs
      have hself : (s.enter type attrs).node s.nodes.length = some (some s.current, ⟨type, attrs, [], some s.file, none⟩) := by
        rw [State.node_enter, if_pos rfl]
      have hdepth : ((s.enter type attrs).nDepth == 0) = false := rfl
      obtain ⟨hfailc, hlaidc⟩ := ihc henter hself
      rw [hdepth] at hfailc hlaidc
      have hfile : (s.enter type attrs).file = s.file := rfl
      rw [hfile] at hfailc hlaidc
      dsimp only at hfailc hlaidc ⊢
      obtain ⟨s₁, hs₁⟩ : ∃ s₁, configParserEnd files (content.run files (configParserBegin s name attrs)) = s₁ := ⟨_, rfl⟩
      -- An error in the element or at its end is that of the whole content.
      have hstop (herror : s₁.error = some .failed) : (rest.run files s₁).error = some .failed := by
        rw [rest.run_of_error files (by rw [herror]; rfl), herror]
      cases hcontent : content.fails files s.file type false with
      | true =>
        have hset := hfailc hcontent
        have hend : configParserEnd files (content.run files (configParserBegin s name attrs)) =
            content.run files (s.enter type attrs) := by
          rw [h.begin hget haccepts attrs, configParserEnd, if_pos (by rw [hset]; rfl)]
        rw [hs₁]
        refine ⟨fun _ => hstop ?_, fun hfalse => absurd hfalse (by simp)⟩
        rw [← hs₁, hend, hset]
      | false =>
        obtain ⟨new, hin⟩ := hlaidc hcontent
        obtain ⟨hfail, hlaid⟩ := h.element files hget haccepts hin
        rw [hs₁] at hfail hlaid ⊢
        cases hlists : listFails files s.file type content.texts with
        | true => exact ⟨fun _ => hstop (hfail hlists), fun hfalse => absurd hfalse (by simp)⟩
        | false =>
          obtain ⟨new', hfirst⟩ := hlaid hlists
          have hself₁ : s₁.node p = some (q, label) := by rw [hfirst.self, hnode]; rfl
          obtain ⟨hfail', hlaid'⟩ := ihs hfirst.stands hself₁
          rw [hfirst.file, hfirst.nDepth] at hfail' hlaid'
          rw [Bool.false_or, Bool.false_or]
          refine ⟨hfail', fun hok => ?_⟩
          obtain ⟨new'', hrest⟩ := hlaid' hok
          exact ⟨new' ++ new'', hfirst.trans hrest h.lt_length⟩

end laid

end DbusBroker.Config
