import DbusBroker.Bus.NameBooks

/-!
# Queues of owners

What the D-Bus specification says about names: every name has a queue of the peers that want
it, each with the flags of its latest request, and the first one is the primary owner. The
name registry refines this queue, and the record it returns about a change of ownership says
how the primary owner of the name changed.
-/

namespace DbusBroker

open Std

/-- Who wants a name, with the flags of the latest request. The first one is the primary owner. -/
abbrev OwnerQueue (ο : Type) := List (ο × UInt32)

namespace OwnerQueue

variable {ο : Type}

/-- The primary owner. -/
def primary (q : OwnerQueue ο) : Option ο := q.head?.map Prod.fst

/-- Those who own the name or wait for it. -/
def owners (q : OwnerQueue ο) : List ο := q.map Prod.fst

variable [DecidableEq ο]

/-- Everybody but one. -/
def without (q : OwnerQueue ο) (o : ο) : OwnerQueue ο := q.filter fun e => e.1 ≠ o

/-- The same queue with other flags for one owner. -/
def reflag (q : OwnerQueue ο) (o : ο) (flags : UInt32) : OwnerQueue ο :=
  q.map fun e => if e.1 = o then (o, flags) else e

/-- A request for the name. -/
def request (q : OwnerQueue ο) (o : ο) (flags : UInt32) : OwnerQueue ο × NameResult :=
  match q with
  | [] => ([(o, flags)], .success)
  | (p, pflags) :: rest =>
    if p = o then ((o, flags) :: rest, .alreadyOwner)
    else if hasFlag flags nameFlagReplaceExisting && hasFlag pflags nameFlagAllowReplacement then
      if hasFlag pflags nameFlagDoNotQueue then ((o, flags) :: without rest o, .success)
      else ((o, flags) :: (p, pflags) :: without rest o, .success)
    else if !hasFlag flags nameFlagDoNotQueue then
      if o ∈ owners rest then ((p, pflags) :: reflag rest o flags, .inQueue)
      else ((p, pflags) :: rest ++ [(o, flags)], .inQueue)
    else ((p, pflags) :: without rest o, .exists)

/-- A request for the name when a new place in the queue may exceed the quota of the user. -/
def requestWithin (q : OwnerQueue ο) (admitted : Bool) (o : ο) (flags : UInt32) :
    OwnerQueue ο × NameResult :=
  if o ∈ owners q || admitted then q.request o flags else (q, .quota)

/-- A release of the name. -/
def release (q : OwnerQueue ο) (o : ο) : OwnerQueue ο × NameResult :=
  if q = [] then (q, .notFound) else if o ∈ owners q then (q.without o, .success) else (q, .notOwner)

/-- Somebody who left is not the primary owner. -/
theorem primary_without_ne (q : OwnerQueue ο) (o : ο) : some o ≠ (q.without o).primary := by
  intro heq
  rw [primary] at heq
  obtain ⟨e, he, howner⟩ := Option.map_eq_some_iff.mp heq.symm
  have hne := (List.mem_filter.mp (List.mem_of_mem_head? he)).2
  simp [howner] at hne

end OwnerQueue

/-- The record of a change of the primary owner, empty if there was none. -/
def nameChangeOf {ο : Type} [DecidableEq ο] (n : Bytes) (p p' : Option ο) : NameChange ο :=
  if p = p' then .init else ⟨some n, p, p'⟩

section Counters

variable {ο : Type}

/-- The counters stay below their peaks. -/
def NameCounters.Bounded (c : NameCounters ο) : Prop :=
  c.nPrimaries ≤ c.nPrimariesPeak ∧ ∀ a, c.nOwnerPrimaries a ≤ c.nOwnerPrimariesPeak

variable [DecidableEq ο]

/-- The counters followed a change of the primary owner of one name. -/
structure CountersMoved (c c' : NameCounters ο) (p p' : Option ο) : Prop where
  primaries : c'.nPrimaries + (if p.isSome then 1 else 0) = c.nPrimaries + if p'.isSome then 1 else 0
  owners : ∀ a, c'.nOwnerPrimaries a + (if p = some a then 1 else 0) =
    c.nOwnerPrimaries a + if p' = some a then 1 else 0
  primariesPeak : c.nPrimariesPeak ≤ c'.nPrimariesPeak
  ownersPeak : c.nOwnerPrimariesPeak ≤ c'.nOwnerPrimariesPeak
  bounded : c.Bounded → c'.Bounded

variable {w : NameRegistry ο} {a b : ο}

/-- Nothing changed. -/
theorem CountersMoved.refl (c : NameCounters ο) (p : Option ο) : CountersMoved c c p p :=
  ⟨rfl, fun _ => rfl, Nat.le_refl _, Nat.le_refl _, id⟩

/-- Changes of the primary owner compose. -/
theorem CountersMoved.trans {c c' c'' : NameCounters ο} {p p' p'' : Option ο} (h : CountersMoved c c' p p')
    (h' : CountersMoved c' c'' p' p'') : CountersMoved c c'' p p'' := by
  refine ⟨?_, fun a => ?_, h.primariesPeak.trans h'.primariesPeak, h.ownersPeak.trans h'.ownersPeak,
    fun hb => h'.bounded (h.bounded hb)⟩
  · have h₁ := h.primaries
    have h₂ := h'.primaries
    omega
  · have h₁ := h.owners a
    have h₂ := h'.owners a
    omega

/-- The numbers of the owners after one was rewritten. -/
theorem nOwnerPrimaries_setOwnerPrimaries (w : NameRegistry ο) (a : ο) (k : ℕ) (b : ο) :
    ((w.setOwnerPrimaries a k).owners b).nOwnerPrimaries = if b = a then k else (w.owners b).nOwnerPrimaries := by
  simp only [NameRegistry.setOwnerPrimaries]
  by_cases hb : b = a
  · rw [if_pos hb, hb, Function.update_self]
  · rw [if_neg hb, Function.update_of_ne hb]

/-- A name without an owner gets one. -/
theorem countersMoved_addPrimary (w : NameRegistry ο) (a : ο) :
    CountersMoved w.counters (w.addPrimary a).counters none (some a) := by
  have howners : ∀ b, ((w.addPrimary a).owners b).nOwnerPrimaries =
      if b = a then (w.owners a).nOwnerPrimaries + 1 else (w.owners b).nOwnerPrimaries :=
    nOwnerPrimaries_setOwnerPrimaries w a _
  refine ⟨rfl, fun b => ?_, Nat.le_max_left _ _, Nat.le_max_left _ _, fun ⟨hcount, hpeak⟩ => ?_⟩
  · simp only [NameRegistry.counters, howners]
    by_cases hb : b = a
    · simp [hb]
    · simp [hb, Ne.symm hb]
  · refine ⟨Nat.le_max_right _ _, fun b => ?_⟩
    have hb : (w.owners b).nOwnerPrimaries ≤ w.nOwnerPrimariesPeak := hpeak b
    change ((w.addPrimary a).owners b).nOwnerPrimaries ≤
      max w.nOwnerPrimariesPeak ((w.owners a).nOwnerPrimaries + 1)
    rw [howners]
    split
    · omega
    · omega

/-- A primary owner is replaced by another one. -/
theorem countersMoved_replacePrimary (hab : a ≠ b) (ha : 0 < (w.owners a).nOwnerPrimaries) :
    CountersMoved w.counters (w.replacePrimary a b).counters (some a) (some b) := by
  have howners : ∀ d, ((w.replacePrimary a b).owners d).nOwnerPrimaries =
      if d = b then (w.owners b).nOwnerPrimaries + 1
      else if d = a then (w.owners a).nOwnerPrimaries - 1 else (w.owners d).nOwnerPrimaries := by
    intro d
    refine (nOwnerPrimaries_setOwnerPrimaries _ b _ d).trans ?_
    rw [nOwnerPrimaries_setOwnerPrimaries, nOwnerPrimaries_setOwnerPrimaries, if_neg (Ne.symm hab)]
  refine ⟨rfl, fun d => ?_, Nat.le_refl _, Nat.le_max_left _ _, fun ⟨hcount, hpeak⟩ => ⟨hcount, fun d => ?_⟩⟩
  · simp only [NameRegistry.counters, howners, Option.some.injEq]
    by_cases hd : d = b
    · simp [hd, hab]
    · by_cases hda : d = a
      · rw [if_neg hd, if_pos hda, hda, if_pos rfl, if_neg (Ne.symm hab)]
        omega
      · simp [hd, hda, Ne.symm hd, Ne.symm hda]
  · have hd : (w.owners d).nOwnerPrimaries ≤ w.nOwnerPrimariesPeak := hpeak d
    have ha' : (w.owners a).nOwnerPrimaries ≤ w.nOwnerPrimariesPeak := hpeak a
    have hpeak' : (w.replacePrimary a b).nOwnerPrimariesPeak =
        max w.nOwnerPrimariesPeak ((w.owners b).nOwnerPrimaries + 1) := by
      have hb := nOwnerPrimaries_setOwnerPrimaries w a ((w.owners a).nOwnerPrimaries - 1) b
      rw [if_neg (Ne.symm hab)] at hb
      exact congrArg (fun k => max w.nOwnerPrimariesPeak (k + 1)) hb
    simp only [NameRegistry.counters, howners, hpeak']
    split
    · omega
    · split
      · omega
      · omega

/-- A primary owner gives up a name and there is nobody else. -/
theorem countersMoved_dropPrimary (hprimaries : 0 < w.nPrimaries) (ha : 0 < (w.owners a).nOwnerPrimaries) :
    CountersMoved w.counters (w.dropPrimary a).counters (some a) none := by
  have howners : ∀ b, ((w.dropPrimary a).owners b).nOwnerPrimaries =
      if b = a then (w.owners a).nOwnerPrimaries - 1 else (w.owners b).nOwnerPrimaries :=
    nOwnerPrimaries_setOwnerPrimaries w a _
  refine ⟨?_, fun b => ?_, Nat.le_refl _, Nat.le_refl _, fun ⟨hcount, hpeak⟩ => ⟨?_, fun b => ?_⟩⟩
  · simp only [NameRegistry.counters, NameRegistry.dropPrimary, Option.isSome_some, Option.isSome_none,
      if_true, Bool.false_eq_true, if_false]
    omega
  · simp only [NameRegistry.counters, howners]
    by_cases hb : b = a
    · simp only [hb, if_true, reduceCtorEq, if_false]
      omega
    · simp [hb, Ne.symm hb]
  · exact Nat.le_trans (Nat.sub_le _ _) hcount
  · have hb : (w.owners b).nOwnerPrimaries ≤ w.nOwnerPrimariesPeak := hpeak b
    have ha' : (w.owners a).nOwnerPrimaries ≤ w.nOwnerPrimariesPeak := hpeak a
    change ((w.dropPrimary a).owners b).nOwnerPrimaries ≤ w.nOwnerPrimariesPeak
    rw [howners]
    split
    · omega
    · exact hb

/-- A primary owner gives up a name and the next one is promoted. -/
theorem countersMoved_promotePrimary (hab : a ≠ b) (hprimaries : 0 < w.nPrimaries)
    (ha : 0 < (w.owners a).nOwnerPrimaries) :
    CountersMoved w.counters ((w.dropPrimary a).promotePrimary b).counters (some a) (some b) := by
  have hreplace := countersMoved_replacePrimary (w := w) hab ha
  have hprimaries' : ((w.dropPrimary a).promotePrimary b).counters = (w.replacePrimary a b).counters := by
    have hsame : w.nPrimaries - 1 + 1 = w.nPrimaries := Nat.sub_add_cancel hprimaries
    simp only [NameRegistry.counters, NameRegistry.promotePrimary, NameRegistry.dropPrimary,
      NameRegistry.replacePrimary, NameRegistry.setOwnerPrimaries, hsame]
  rw [hprimaries']
  exact hreplace

end Counters

section View

variable {ο : Type}

/-- The owner and the flags of an ownership among some. -/
def entryIn (H : SearchTree (compare : ℕ → ℕ → Ordering) (NameOwnership ο)) (id : ℕ) : Option (ο × UInt32) :=
  (H.find? id).map fun o => (o.owner, o.flags)

/-- The owner and the flags of an ownership. -/
def NameRegistry.entry (w : NameRegistry ο) : ℕ → Option (ο × UInt32) := entryIn w.ownerships

/-- The queue of a name. -/
def nameQueue (w : NameRegistry ο) (n : Bytes) : OwnerQueue ο := (w.ownershipList n).filterMap w.entry

variable {w w' : NameRegistry ο} {n n' : Bytes} {pins : ℕ} {loose : Option ℕ}

/-- Every place in the queue is taken by an ownership. -/
theorem NameAt.entry_of_mem (h : NameAt w n pins loose) {id : ℕ} (hid : id ∈ w.ownershipList n) :
    ∃ o, w.ownerships.find? id = some o ∧ o.name = n ∧ w.entry id = some (o.owner, o.flags) := by
  obtain ⟨-, o, ho, hname⟩ := (h.queued id).mp hid
  exact ⟨o, ho, hname, by rw [NameRegistry.entry, entryIn, ho, Option.map_some]⟩

/-- The queue of another name. -/
theorem OnlyName.nameQueue (h : OnlyName w w' n) (hat : NameAt w n' pins loose) (hn : n' ≠ n) :
    nameQueue w' n' = nameQueue w n' := by
  rw [DbusBroker.nameQueue, DbusBroker.nameQueue, h.ownershipList hn]
  refine List.filterMap_congr fun id hid => ?_
  obtain ⟨o, ho, hname, hentry⟩ := hat.entry_of_mem hid
  have ho' := (h.ownerships id o (hname ▸ hn)).mpr ho
  rw [hentry, NameRegistry.entry, entryIn, ho', Option.map_some]

/-- The primary owner is the owner of the first ownership. -/
theorem NameAt.primary_eq (h : NameAt w n pins loose) :
    (nameQueue w n).primary = (namePrimary w n).bind w.ownerOf := by
  rw [namePrimary, nameQueue, OwnerQueue.primary]
  cases hl : w.ownershipList n with
  | nil => rfl
  | cons p rest =>
    obtain ⟨o, ho, -, hentry⟩ := h.entry_of_mem (hl ▸ List.mem_cons_self : p ∈ w.ownershipList n)
    rw [List.filterMap_cons, hentry, List.head?_cons, List.head?_cons, Option.bind_some, NameRegistry.ownerOf, ho]
    rfl

/-- One owner has one ownership of a name. -/
theorem NameAt.owner_eq_iff (h : NameAt w n pins loose) {id : ℕ} {o : NameOwnership ο}
    (ho : w.ownerships.find? id = some o) (hname : o.name = n) {id' : ℕ} (hid' : id' ∈ w.ownershipList n)
    {e : ο × UInt32} (he : w.entry id' = some e) : e.1 = o.owner ↔ id' = id := by
  obtain ⟨o', ho', hname', hentry⟩ := h.entry_of_mem hid'
  rw [hentry] at he
  cases he
  constructor
  · intro howner
    have hown := (h.owned o.owner id).mpr ⟨o, ho, rfl, hname⟩
    have hown' := (h.owned o.owner id').mpr ⟨o', ho', howner, hname'⟩
    rw [hown] at hown'
    exact (Option.some.inj hown').symm
  · intro hid
    rw [hid, ho] at ho'
    cases ho'
    rfl

/-- An owner is in the queue if its ownership is. -/
theorem NameAt.mem_owners_iff (h : NameAt w n pins loose) {id : ℕ} {o : NameOwnership ο}
    (ho : w.ownerships.find? id = some o) (hname : o.name = n) :
    o.owner ∈ (nameQueue w n).owners ↔ id ∈ w.ownershipList n := by
  simp only [OwnerQueue.owners, nameQueue, List.mem_map, List.mem_filterMap]
  constructor
  · rintro ⟨e, ⟨id', hid', he⟩, howner⟩
    rw [← (h.owner_eq_iff ho hname hid' he).mp howner]
    exact hid'
  · intro hid
    exact ⟨(o.owner, o.flags), ⟨id, hid, by rw [NameRegistry.entry, entryIn, ho, Option.map_some]⟩, rfl⟩

section Rewrite

variable {l : List ℕ} {e e' : ℕ → Option (ο × UInt32)} {id : ℕ} {a : ο} [DecidableEq ο]

/-- Taking an ownership off a queue takes its owner off. -/
theorem filterMap_erase_eq_without (hnodup : l.Nodup)
    (hkey : ∀ id' ∈ l, ∀ x, e id' = some x → (x.1 = a ↔ id' = id)) :
    (l.erase id).filterMap e = OwnerQueue.without (l.filterMap e) a := by
  rw [hnodup.erase_eq_filter, List.filterMap_filter, OwnerQueue.without, List.filter_filterMap]
  refine List.filterMap_congr fun id' hid' => ?_
  cases hx : e id' with
  | none => simp
  | some x =>
    have hiff := hkey id' hid' x hx
    by_cases hid : id' = id
    · have hxa := hiff.mpr hid
      simp [Option.filter, hid, hxa]
    · have hxa : x.1 ≠ a := fun heq => hid (hiff.mp heq)
      simp [Option.filter, hid, hxa]

/-- Rewriting the flags of an ownership rewrites those of its owner. -/
theorem filterMap_eq_reflag {flags : UInt32} (hid : ∀ id' ∈ l, id' ≠ id → e' id' = e id')
    (hself : e' id = some (a, flags)) (hsome : id ∈ l → (e id).isSome)
    (hkey : ∀ id' ∈ l, ∀ x, e id' = some x → (x.1 = a ↔ id' = id)) :
    l.filterMap e' = OwnerQueue.reflag (l.filterMap e) a flags := by
  rw [OwnerQueue.reflag, List.map_filterMap]
  refine List.filterMap_congr fun id' hid' => ?_
  by_cases hsame : id' = id
  · rw [hsame] at hid' ⊢
    obtain ⟨x, hx⟩ := Option.isSome_iff_exists.mp (hsome hid')
    rw [hself, hx, Option.map_some, if_pos ((hkey id hid' x hx).mpr rfl)]
  · rw [hid id' hid' hsame]
    cases hx : e id' with
    | none => rfl
    | some x => rw [Option.map_some, if_neg fun heq => hsame ((hkey id' hid' x hx).mp heq)]

end Rewrite

end View

section Update

variable {ο : Type} [DecidableEq ο] {w w' w'' : NameRegistry ο} {n : Bytes} {pins : ℕ} {loose loose' : Option ℕ}
variable {id p : ℕ} {o : NameOwnership ο} {l rest : List ℕ}

/-- How far an operation got with a name: what is queued, what is loose and which ownerships exist. -/
structure Updated (w w' : NameRegistry ο) (n : Bytes) (pins : ℕ) (loose : Option ℕ) (l : List ℕ)
    (ownerships : SearchTree (compare : ℕ → ℕ → Ordering) (NameOwnership ο)) (before after : Option ο) : Prop where
  books : NameAt w' n pins loose
  only : OnlyName w w' n
  list : w'.ownershipList n = l
  ownerships : w'.ownerships = ownerships
  counters : CountersMoved w.counters w'.counters before after
  next : w'.nextOwnership = w.nextOwnership

omit [DecidableEq ο] in
/-- The books do not read the counters. -/
theorem NameAt.setOwnerPrimaries (h : NameAt w n pins loose) (hnames : w'.nameTree = w.nameTree)
    (hownerships : w'.ownerships = w.ownerships)
    (htrees : ∀ a, (w'.owners a).ownershipTree = (w.owners a).ownershipTree) :
    NameAt w' n pins loose ∧ OnlyName w w' n := by
  refine ⟨h.congr (by rw [hnames]) (fun a => ?_) fun _ _ _ => by rw [hownerships],
    OnlyName.of_eq hnames htrees hownerships n⟩
  rw [NameRegistry.ownershipOf, NameRegistry.ownershipOf, htrees]

/-- The trees of the owners after one was counted. -/
theorem ownershipTree_setOwnerPrimaries (w : NameRegistry ο) (a : ο) (k : ℕ) (b : ο) :
    ((w.setOwnerPrimaries a k).owners b).ownershipTree = (w.owners b).ownershipTree := by
  simp only [NameRegistry.setOwnerPrimaries]
  by_cases hb : b = a
  · rw [hb, Function.update_self]
  · rw [Function.update_of_ne hb]

/-- The flags of an ownership are rewritten first. -/
theorem NameAt.setFlags (h : NameAt w n pins loose) (ho : w.ownerships.find? id = some o) (hname : o.name = n)
    (flags : UInt32) (q : Option ο) :
    Updated w (w.setOwnership id { o with flags := flags }) n pins loose
      (w.ownershipList n) (w.ownerships.insert id { o with flags := flags }) q q := by
  refine ⟨h.setOwnership ho rfl rfl, onlyName_setOwnership hname fun o' ho' => ?_, rfl, rfl,
    CountersMoved.refl _ _, rfl⟩
  rw [ho] at ho'
  cases ho'
  exact hname

/-- A name with a pin, an ownership in the queue or a loose one exists. -/
theorem Updated.exists_name {H : SearchTree (compare : ℕ → ℕ → Ordering) (NameOwnership ο)} {q q' : Option ο}
    (h : Updated w w' n pins loose l H q q') (hlive : 0 < pins + l.length + if loose.isSome then 1 else 0) :
    ∃ x, w'.nameTree.find? n = some x := by
  have hrefs := h.books.refs
  rw [h.list] at hrefs
  exact NameRegistry.exists_of_nameRefs_pos (hrefs ▸ hlive)

/-- `name_ref` for the notification. -/
theorem Updated.ref {H : SearchTree (compare : ℕ → ℕ → Ordering) (NameOwnership ο)} {q q' : Option ο}
    (h : Updated w w' n pins loose l H q q') (hlive : 0 < pins + l.length + if loose.isSome then 1 else 0) :
    Updated w (nameRef w' n) n (pins + 1) loose l H q q' := by
  obtain ⟨x, hx⟩ := h.exists_name hlive
  exact ⟨h.books.ref hx, h.only.trans (onlyName_nameRef w' n), (ownershipList_nameRef w' n n).trans h.list,
    (ownerships_nameRef w' n).trans h.ownerships, by rw [counters_nameRef]; exact h.counters,
    (nextOwnership_nameRef w' n).trans h.next⟩

/-- A check does nothing. -/
theorem Updated.check {H : SearchTree (compare : ℕ → ℕ → Ordering) (NameOwnership ο)} {q q' : Option ο}
    (h : Updated w w' n pins loose l H q q') (c : Bool) : Updated w (w'.check c) n pins loose l H q q' :=
  ⟨h.books.check c, h.only.trans (onlyName_check w' c n), h.list, h.ownerships, h.counters, h.next⟩

/-- The queue is rewritten. -/
theorem Updated.relist {H : SearchTree (compare : ℕ → ℕ → Ordering) (NameOwnership ο)} {q q' : Option ο}
    (h : Updated w w' n pins loose l H q q') (loose' : Option ℕ) (l' : List ℕ)
    (hlive : 0 < pins + l.length + if loose.isSome then 1 else 0) (hnodup : l'.Nodup)
    (hmem : ∀ i, i ∈ l' ↔ loose' ≠ some i ∧ (i ∈ l ∨ loose = some i))
    (hheld : ∀ i, loose' = some i → i ∈ l ∨ loose = some i)
    (hlength : l'.length + (if loose'.isSome then 1 else 0) = l.length + if loose.isSome then 1 else 0) :
    Updated w (w'.setOwnershipList n l') n pins loose' l' H q q' := by
  obtain ⟨x, hx⟩ := h.exists_name hlive
  refine ⟨h.books.relist hx hnodup ?_ ?_ ?_, h.only.trans (onlyName_setOwnershipList w' n l'),
    ownershipList_setOwnershipList hx l', (ownerships_setOwnershipList w' n l').trans h.ownerships, ?_,
    (nextOwnership_setOwnershipList w' n l').trans h.next⟩
  · rw [h.list]
    exact hmem
  · rw [h.list]
    exact hheld
  · rw [h.list]
    exact hlength
  · rw [counters_setOwnershipList]
    exact h.counters

/-- The counters follow a change of the primary owner. -/
theorem Updated.count {H : SearchTree (compare : ℕ → ℕ → Ordering) (NameOwnership ο)} {q q' q'' : Option ο}
    (h : Updated w w' n pins loose l H q q') (hnames : w''.nameTree = w'.nameTree)
    (hownerships : w''.ownerships = w'.ownerships)
    (htrees : ∀ a, (w''.owners a).ownershipTree = (w'.owners a).ownershipTree)
    (hnext : w''.nextOwnership = w'.nextOwnership)
    (hcounters : CountersMoved w'.counters w''.counters q' q'') : Updated w w'' n pins loose l H q q'' := by
  obtain ⟨hbooks, honly⟩ := h.books.setOwnerPrimaries hnames hownerships htrees
  refine ⟨hbooks, h.only.trans honly, ?_, hownerships.trans h.ownerships, h.counters.trans hcounters,
    hnext.trans h.next⟩
  rw [← h.list, NameRegistry.ownershipList, NameRegistry.ownershipList, hnames]

/-- A name without an owner gets one. -/
theorem Updated.addPrimary {H : SearchTree (compare : ℕ → ℕ → Ordering) (NameOwnership ο)} {q : Option ο}
    (h : Updated w w' n pins loose l H q none) (a : ο) :
    Updated w (w'.addPrimary a) n pins loose l H q (some a) :=
  h.count rfl rfl (ownershipTree_setOwnerPrimaries w' a _) rfl (countersMoved_addPrimary w' a)

/-- A counted primary owner stays counted while nothing changes. -/
theorem Updated.nOwnerPrimaries_eq {H : SearchTree (compare : ℕ → ℕ → Ordering) (NameOwnership ο)} {q : Option ο}
    (h : Updated w w' n pins loose l H q q) (a : ο) :
    (w'.owners a).nOwnerPrimaries = (w.owners a).nOwnerPrimaries := Nat.add_right_cancel (h.counters.owners a)

/-- A primary owner is replaced by another one. -/
theorem Updated.replacePrimary {H : SearchTree (compare : ℕ → ℕ → Ordering) (NameOwnership ο)} {a b : ο}
    (h : Updated w w' n pins loose l H (some a) (some a)) (hab : a ≠ b) (ha : 0 < (w.owners a).nOwnerPrimaries) :
    Updated w (w'.replacePrimary a b) n pins loose l H (some a) (some b) := by
  refine h.count rfl rfl (fun d => ?_) rfl (countersMoved_replacePrimary hab ?_)
  · exact (ownershipTree_setOwnerPrimaries _ b _ d).trans (ownershipTree_setOwnerPrimaries w' a _ d)
  · rw [h.nOwnerPrimaries_eq]
    exact ha

/-- A primary owner gives up a name and there is nobody else. -/
theorem Updated.dropPrimary {H : SearchTree (compare : ℕ → ℕ → Ordering) (NameOwnership ο)} {a : ο}
    (h : Updated w w' n pins loose l H (some a) (some a)) (hprimaries : 0 < w.nPrimaries)
    (ha : 0 < (w.owners a).nOwnerPrimaries) : Updated w (w'.dropPrimary a) n pins loose l H (some a) none := by
  have hsame : w'.nPrimaries = w.nPrimaries := Nat.add_right_cancel h.counters.primaries
  refine h.count rfl rfl (ownershipTree_setOwnerPrimaries w' a _) rfl (countersMoved_dropPrimary ?_ ?_)
  · omega
  · rw [h.nOwnerPrimaries_eq]
    exact ha

/-- The loose ownership is destroyed. -/
theorem Updated.free {H : SearchTree (compare : ℕ → ℕ → Ordering) (NameOwnership ο)} {q q' : Option ο}
    (h : Updated w w' n pins (some id) l H q q') (idle : Bytes → Bool) (users : UserRegistry) :
    Updated w (nameOwnershipFree idle users w' id).2 n pins none l (H.erase id) q q' := by
  have hfreed := h.books.free idle users
  refine ⟨hfreed.books, h.only.trans hfreed.only, hfreed.queue.trans h.list, ?_, ?_, hfreed.next.trans h.next⟩
  · rw [hfreed.ownerships, h.ownerships]
  · rw [hfreed.counters]
    exact h.counters

/-- The reference of the operation itself is dropped. -/
theorem Updated.unref {H : SearchTree (compare : ℕ → ℕ → Ordering) (NameOwnership ο)} {q q' : Option ο}
    (h : Updated w w' n (pins + 1) loose l H q q') (idle : Bytes → Bool) :
    Updated w (nameUnref idle w' n) n pins loose l H q q' :=
  ⟨h.books.unref (Nat.succ_pos pins) idle, h.only.trans (onlyName_nameUnref idle w' n),
    (h.books.ownershipList_unref (Nat.succ_pos pins) idle).trans h.list,
    (ownerships_nameUnref idle w' n).trans h.ownerships, by rw [counters_nameUnref]; exact h.counters,
    (nextOwnership_nameUnref idle w' n).trans h.next⟩

variable {op : NameOwnership ο} (idle : Bytes → Bool) (users : UserRegistry) (flags : UInt32)

omit [DecidableEq ο] in
/-- An ownership is in the queue or in the loose place. -/
theorem NameAt.place (h : NameAt w n pins loose) (ho : w.ownerships.find? id = some o) (hname : o.name = n) :
    id ∈ w.ownershipList n ∨ loose = some id := (h.exists_iff id).mp ⟨o, ho, hname⟩

omit [DecidableEq ο] in
/-- Rewriting an ownership keeps the queues. -/
theorem ownershipList_setOwnership (w : NameRegistry ο) (id : ℕ) (o : NameOwnership ο) (n : Bytes) :
    (w.setOwnership id o).ownershipList n = w.ownershipList n := rfl

/-- `name_ownership_update` of a name without an owner. -/
theorem nameOwnershipUpdate_unowned (h : NameAt w n (pins + 1) (some id)) (ho : w.ownerships.find? id = some o)
    (hname : o.name = n) (hl : w.ownershipList n = []) :
    ∃ w', nameOwnershipUpdate idle users w id flags =
        (users, w', ⟨some n, none, some o.owner⟩, .success) ∧
      Updated w w' n (pins + 2) none [id] (w.ownerships.insert id { o with flags := flags }) none
        (some o.owner) := by
  subst hname
  have hflags := h.setFlags ho rfl flags none
  rw [hl] at hflags
  have hlinked := ((hflags.ref (by omega)).check (id ∉ ([] : List ℕ))).relist none [id] (by omega)
    (List.nodup_singleton id) (fun i => by simp [eq_comm]) (fun i hi => absurd hi (Option.some_ne_none i).symm) rfl
  refine ⟨_, ?_, hlinked.addPrimary o.owner⟩
  rw [nameOwnershipUpdate, ho]
  simp only [namePrimary, hl, ownershipList_setOwnership, List.head?_nil, Option.bind_none]

/-- `name_ownership_update` by the primary owner. -/
theorem nameOwnershipUpdate_already (h : NameAt w n (pins + 1) none) (ho : w.ownerships.find? id = some o)
    (hname : o.name = n) (hl : w.ownershipList n = id :: rest) :
    ∃ w', nameOwnershipUpdate idle users w id flags = (users, w', .init, .alreadyOwner) ∧
      Updated w w' n (pins + 1) none (id :: rest) (w.ownerships.insert id { o with flags := flags })
        (some o.owner) (some o.owner) := by
  subst hname
  have hflags := h.setFlags ho rfl flags (some o.owner)
  rw [hl] at hflags
  refine ⟨_, ?_, hflags⟩
  rw [nameOwnershipUpdate, ho]
  simp only [namePrimary, hl, List.head?_cons, Option.bind_some, NameRegistry.setOwnership,
    SearchTree.find?_insert_self, Option.map_some, if_true]

/-- A branch of `name_ownership_update` when somebody else is the primary owner. -/
theorem nameOwnershipUpdate_eq (ho : w.ownerships.find? id = some o) (hl : w.ownershipList o.name = p :: rest)
    (hp : w.ownerships.find? p = some op) (hne : p ≠ id) :
    nameOwnershipUpdate idle users w id flags =
      let w := w.setOwnership id { o with flags := flags }
      if hasFlag flags nameFlagReplaceExisting && hasFlag op.flags nameFlagAllowReplacement then
        let w := ((nameRef w o.name).setOwnershipList o.name (id :: p :: rest.erase id)).replacePrimary op.owner o.owner
        let (users, w) := if hasFlag op.flags nameFlagDoNotQueue then
            nameOwnershipFree idle users (w.setOwnershipList o.name (id :: rest.erase id)) p
          else (users, w)
        (users, w, ⟨some o.name, some op.owner, some o.owner⟩, .success)
      else if !hasFlag flags nameFlagDoNotQueue then
        (users, if id ∈ rest then w else w.setOwnershipList o.name (p :: rest ++ [id]), .init, .inQueue)
      else (users, w.setOwnershipList o.name (p :: rest.erase id), .init, .exists) := by
  have hp' : (w.setOwnership id { o with flags := flags }).ownerships.find? p = some op :=
    (w.ownerships.find?_insert_of_ne hne _).trans hp
  have herase : (p :: rest).erase id = p :: rest.erase id := by
    rw [List.erase_cons, if_neg (by simpa using hne)]
  have herase' : (id :: p :: rest.erase id).erase p = id :: rest.erase id := by
    rw [List.erase_cons, if_neg (by simpa using hne.symm), List.erase_cons_head]
  have hmem : id ∈ p :: rest ↔ id ∈ rest := by
    rw [List.mem_cons, or_iff_right hne.symm]
  rw [nameOwnershipUpdate, ho]
  simp only [namePrimary, hl, ownershipList_setOwnership, List.head?_cons, Option.bind_some, hp', Option.map_some,
    if_neg hne, herase, herase', hmem]

section Place

variable (h : NameAt w n (pins + 1) loose) (ho : w.ownerships.find? id = some o) (hname : o.name = n)
variable (hloose : loose = none ∨ loose = some id) (hl : w.ownershipList n = p :: rest) (hne : p ≠ id)
include h ho hname hloose hl hne

omit [DecidableEq ο] in
/-- A waiter is behind the primary owner or not in the queue yet. -/
theorem NameAt.waiting : loose = none ∧ id ∈ rest ∨ loose = some id ∧ id ∉ p :: rest := by
  have hplace := h.place ho hname
  rw [hl] at hplace
  rcases hloose with hnone | hsome
  · refine Or.inl ⟨hnone, ?_⟩
    rcases hplace with hmem | hsome
    · exact (List.mem_cons.mp hmem).resolve_left hne.symm
    · rw [hnone] at hsome
      cases hsome
  · refine Or.inr ⟨hsome, fun hmem => ?_⟩
    exact ((h.queued id).mp (hl ▸ hmem)).1 hsome

/-- The reference for the notification and the move of the caller to the front. -/
theorem NameAt.moveToFront (hcount : 0 < (w.owners op.owner).nOwnerPrimaries) (howner : op.owner ≠ o.owner) :
    Updated w (((nameRef (w.setOwnership id { o with flags := flags }) n).setOwnershipList n
        (id :: p :: rest.erase id)).replacePrimary op.owner o.owner) n (pins + 2) none (id :: p :: rest.erase id)
      (w.ownerships.insert id { o with flags := flags }) (some op.owner) (some o.owner) := by
  have hnodup := h.nodup
  rw [hl, List.nodup_cons] at hnodup
  have hwaiting := h.waiting ho hname hloose hl hne
  have hflags := h.setFlags ho hname flags (some op.owner)
  rw [hl] at hflags
  refine ((hflags.ref (by omega)).relist none (id :: p :: rest.erase id) (by omega) ?_ (fun i => ?_)
    (fun i hi => absurd hi (Option.some_ne_none i).symm) ?_).replacePrimary howner hcount
  · refine List.nodup_cons.mpr ⟨fun hmem => ?_, List.nodup_cons.mpr ⟨fun hmem => ?_, hnodup.2.erase id⟩⟩
    · rcases List.mem_cons.mp hmem with heq | hin
      · exact hne heq.symm
      · exact hnodup.2.not_mem_erase hin
    · exact hnodup.1 (List.mem_of_mem_erase hmem)
  · rw [and_iff_right (Option.some_ne_none i).symm, List.mem_cons, List.mem_cons, hnodup.2.mem_erase_iff,
      List.mem_cons]
    rcases hwaiting with ⟨hnone, hin⟩ | ⟨hsome, hout⟩
    · rw [hnone]
      by_cases hi : i = id
      · simp [hi, hin]
      · simp [hi]
    · rw [hsome]
      by_cases hi : i = id
      · simp [hi]
      · simp [hi, Ne.symm hi]
  · rcases hwaiting with ⟨hnone, hin⟩ | ⟨hsome, hout⟩
    · have hlength := List.length_erase_of_mem hin
      have hpos := List.length_pos_of_mem hin
      simp only [hnone, List.length_cons, Option.isSome_none, Bool.false_eq_true, if_false]
      omega
    · rw [List.erase_of_not_mem fun hin => hout (List.mem_cons_of_mem p hin)]
      simp [hsome]

/-- `name_ownership_update` puts the caller in front and the old primary owner behind it. -/
theorem nameOwnershipUpdate_replace (hp : w.ownerships.find? p = some op)
    (hcount : 0 < (w.owners op.owner).nOwnerPrimaries) (howner : op.owner ≠ o.owner)
    (hreplace : (hasFlag flags nameFlagReplaceExisting && hasFlag op.flags nameFlagAllowReplacement) = true)
    (hqueue : hasFlag op.flags nameFlagDoNotQueue = false) :
    ∃ users' w', nameOwnershipUpdate idle users w id flags =
        (users', w', ⟨some n, some op.owner, some o.owner⟩, .success) ∧
      Updated w w' n (pins + 2) none (id :: p :: rest.erase id)
        (w.ownerships.insert id { o with flags := flags }) (some op.owner) (some o.owner) := by
  have hfront := h.moveToFront flags ho hname hloose hl hne hcount howner
  subst hname
  refine ⟨users, _, ?_, hfront⟩
  rw [nameOwnershipUpdate_eq idle users flags ho hl hp hne]
  simp only [hreplace, hqueue, if_true, Bool.false_eq_true, if_false]

/-- `name_ownership_update` puts the caller in front and drops an old primary owner that does not
want to wait. -/
theorem nameOwnershipUpdate_replaceDrop (hp : w.ownerships.find? p = some op)
    (hcount : 0 < (w.owners op.owner).nOwnerPrimaries) (howner : op.owner ≠ o.owner)
    (hreplace : (hasFlag flags nameFlagReplaceExisting && hasFlag op.flags nameFlagAllowReplacement) = true)
    (hqueue : hasFlag op.flags nameFlagDoNotQueue = true) :
    ∃ users' w', nameOwnershipUpdate idle users w id flags =
        (users', w', ⟨some n, some op.owner, some o.owner⟩, .success) ∧
      Updated w w' n (pins + 2) none (id :: rest.erase id)
        ((w.ownerships.insert id { o with flags := flags }).erase p) (some op.owner) (some o.owner) := by
  have hnodup := h.nodup
  rw [hl, List.nodup_cons] at hnodup
  have hfront := h.moveToFront flags ho hname hloose hl hne hcount howner
  have hdrop := hfront.relist (some p) (id :: rest.erase id) (by omega) ?_ (fun i => ?_) (fun i hi => ?_) ?_
  · subst hname
    rw [nameOwnershipUpdate_eq idle users flags ho hl hp hne]
    simp only [hreplace, hqueue, if_true]
    exact ⟨_, _, rfl, hdrop.free idle users⟩
  · exact List.nodup_cons.mpr ⟨hnodup.2.not_mem_erase, hnodup.2.erase id⟩
  · have hout : p ∉ rest.erase id := fun hin => hnodup.1 (List.mem_of_mem_erase hin)
    by_cases hi : i = p
    · simp [hi, hne, hout]
    · simp [hi, Ne.symm hi]
  · cases hi
    exact Or.inl (List.mem_cons_of_mem id List.mem_cons_self)
  · simp

/-- `name_ownership_update` keeps the place of a waiter or appends the caller. -/
theorem nameOwnershipUpdate_queue (hp : w.ownerships.find? p = some op)
    (hreplace : (hasFlag flags nameFlagReplaceExisting && hasFlag op.flags nameFlagAllowReplacement) = false)
    (hqueue : hasFlag flags nameFlagDoNotQueue = false) :
    ∃ users' w', nameOwnershipUpdate idle users w id flags = (users', w', .init, .inQueue) ∧
      Updated w w' n (pins + 1) none (if id ∈ rest then p :: rest else p :: rest ++ [id])
        (w.ownerships.insert id { o with flags := flags }) (some op.owner) (some op.owner) := by
  have hnodup := h.nodup
  rw [hl] at hnodup
  have hflags := h.setFlags ho hname flags (some op.owner)
  rw [hl] at hflags
  rcases h.waiting ho hname hloose hl hne with ⟨rfl, hin⟩ | ⟨rfl, hout⟩
  · subst hname
    rw [nameOwnershipUpdate_eq idle users flags ho hl hp hne]
    simp only [hreplace, hqueue, Bool.false_eq_true, if_false, Bool.not_false, if_true, if_pos hin]
    exact ⟨_, _, rfl, hflags⟩
  · have hout' : id ∉ rest := fun hin => hout (List.mem_cons_of_mem p hin)
    have hlinked := hflags.relist none (p :: rest ++ [id]) (by omega) ?_ (fun i => ?_)
      (fun i hi => absurd hi (Option.some_ne_none i).symm) ?_
    · subst hname
      rw [nameOwnershipUpdate_eq idle users flags ho hl hp hne]
      simp only [hreplace, hqueue, Bool.false_eq_true, if_false, Bool.not_false, if_true, if_neg hout']
      exact ⟨_, _, rfl, hlinked⟩
    · rw [List.nodup_append]
      refine ⟨hnodup, List.nodup_singleton id, fun i hi j hj => ?_⟩
      rw [List.mem_singleton.mp hj]
      exact fun heq => hout (heq ▸ hi)
    · simp [eq_comm, or_assoc]
    · simp

/-- `name_ownership_update` drops a caller that does not want to wait. -/
theorem nameOwnershipUpdate_drop (hp : w.ownerships.find? p = some op)
    (hreplace : (hasFlag flags nameFlagReplaceExisting && hasFlag op.flags nameFlagAllowReplacement) = false)
    (hqueue : hasFlag flags nameFlagDoNotQueue = true) :
    ∃ users' w', nameOwnershipUpdate idle users w id flags = (users', w', .init, .exists) ∧
      Updated w w' n (pins + 1) (some id) (p :: rest.erase id)
        (w.ownerships.insert id { o with flags := flags }) (some op.owner) (some op.owner) := by
  have hnodup := h.nodup
  rw [hl, List.nodup_cons] at hnodup
  have hwaiting := h.waiting ho hname hloose hl hne
  have hflags := h.setFlags ho hname flags (some op.owner)
  rw [hl] at hflags
  have hdrop := hflags.relist (some id) (p :: rest.erase id) (by omega) ?_ (fun i => ?_) (fun i hi => ?_) ?_
  · subst hname
    refine ⟨users, _, ?_, hdrop⟩
    rw [nameOwnershipUpdate_eq idle users flags ho hl hp hne]
    simp only [hreplace, hqueue, Bool.false_eq_true, if_false, Bool.not_true]
  · exact List.nodup_cons.mpr ⟨fun hin => hnodup.1 (List.mem_of_mem_erase hin), hnodup.2.erase id⟩
  · rw [List.mem_cons, hnodup.2.mem_erase_iff, List.mem_cons]
    by_cases hi : i = id
    · simp [hi, hne.symm]
    · rcases hwaiting with ⟨hnone, -⟩ | ⟨hsome, -⟩
      · simp [hi, Ne.symm hi, hnone]
      · simp [hi, Ne.symm hi, hsome]
  · cases hi
    rcases hwaiting with ⟨-, hin⟩ | ⟨hsome, -⟩
    · exact Or.inl (List.mem_cons_of_mem p hin)
    · exact Or.inr hsome
  · rcases hwaiting with ⟨hnone, hin⟩ | ⟨hsome, hout⟩
    · have hlength := List.length_erase_of_mem hin
      have hpos := List.length_pos_of_mem hin
      simp only [hnone, List.length_cons, Option.isSome_none, Option.isSome_some, Bool.false_eq_true, if_false, if_true]
      omega
    · rw [List.erase_of_not_mem fun hin => hout (List.mem_cons_of_mem p hin)]
      simp [hsome]

end Place

end Update

end DbusBroker
