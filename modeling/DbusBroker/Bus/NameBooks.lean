import DbusBroker.Bus.Name

/-!
# The books of the name registry

What the primitives of the name registry do to one name. The books of a name say that its
queue and the ownership trees list the same objects, and that its reference count is the
length of the queue plus the references held elsewhere. While a request is under way one
ownership can be loose: it exists and is in the tree of its owner, but not in the queue.
Everything else is a frame: a primitive that works on one name leaves all others alone.
-/

namespace DbusBroker

open Std

section Books

variable {ο : Type}

namespace NameRegistry

/-- The reference count of a name, zero if it does not exist. -/
def nameRefs (w : NameRegistry ο) (n : Bytes) : ℕ :=
  match w.nameTree.find? n with
  | some x => x.nRefs
  | none => 0

/-- The ownership of a name by an owner. -/
def ownershipOf (w : NameRegistry ο) (a : ο) (n : Bytes) : Option ℕ := (w.owners a).ownershipTree.find? n

end NameRegistry

/-- The books of one name, with the number of references held outside the queue. -/
structure NameAt (w : NameRegistry ο) (n : Bytes) (pins : ℕ) (loose : Option ℕ) : Prop where
  nodup : (w.ownershipList n).Nodup
  queued : ∀ id, id ∈ w.ownershipList n ↔ loose ≠ some id ∧ ∃ o, w.ownerships.find? id = some o ∧ o.name = n
  held : ∀ id, loose = some id → ∃ o, w.ownerships.find? id = some o ∧ o.name = n
  owned : ∀ a id, w.ownershipOf a n = some id ↔ ∃ o, w.ownerships.find? id = some o ∧ o.owner = a ∧ o.name = n
  refs : w.nameRefs n = pins + (w.ownershipList n).length + (if loose.isSome then 1 else 0)
  live : ∀ x, w.nameTree.find? n = some x → 0 < x.nRefs

/-- A step works on one name only. -/
structure OnlyName (w w' : NameRegistry ο) (n : Bytes) : Prop where
  names : ∀ n', n' ≠ n → w'.nameTree.find? n' = w.nameTree.find? n'
  trees : ∀ a n', n' ≠ n → w'.ownershipOf a n' = w.ownershipOf a n'
  ownerships : ∀ id o, o.name ≠ n → (w'.ownerships.find? id = some o ↔ w.ownerships.find? id = some o)

variable {w w' w'' : NameRegistry ο} {n n' : Bytes} {pins : ℕ} {loose : Option ℕ}

/-- Nothing happened. -/
theorem OnlyName.refl (w : NameRegistry ο) (n : Bytes) : OnlyName w w n :=
  ⟨fun _ _ => rfl, fun _ _ _ => rfl, fun _ _ _ => Iff.rfl⟩

/-- Steps on one name compose. -/
theorem OnlyName.trans (h : OnlyName w w' n) (h' : OnlyName w' w'' n) : OnlyName w w'' n :=
  ⟨fun n' hn => (h'.names n' hn).trans (h.names n' hn),
    fun a n' hn => (h'.trees a n' hn).trans (h.trees a n' hn),
    fun id o ho => (h'.ownerships id o ho).trans (h.ownerships id o ho)⟩

/-- A step that only counts or checks. -/
theorem OnlyName.of_eq (hnames : w'.nameTree = w.nameTree)
    (htrees : ∀ a, (w'.owners a).ownershipTree = (w.owners a).ownershipTree)
    (hownerships : w'.ownerships = w.ownerships) (n : Bytes) : OnlyName w w' n := by
  refine ⟨fun n' _ => by rw [hnames], fun a n' _ => ?_, fun id o _ => by rw [hownerships]⟩
  rw [NameRegistry.ownershipOf, NameRegistry.ownershipOf, htrees]

/-- The queue of another name. -/
theorem OnlyName.ownershipList (h : OnlyName w w' n) (hn : n' ≠ n) : w'.ownershipList n' = w.ownershipList n' := by
  rw [NameRegistry.ownershipList, NameRegistry.ownershipList, h.names n' hn]

/-- The books read the name, its ownerships and the trees of their owners. -/
theorem NameAt.congr (h : NameAt w n pins loose) (hname : w'.nameTree.find? n = w.nameTree.find? n)
    (htrees : ∀ a, w'.ownershipOf a n = w.ownershipOf a n)
    (hownerships : ∀ id o, o.name = n → (w'.ownerships.find? id = some o ↔ w.ownerships.find? id = some o)) :
    NameAt w' n pins loose := by
  have hlist : w'.ownershipList n = w.ownershipList n := by
    rw [NameRegistry.ownershipList, NameRegistry.ownershipList, hname]
  have hrefs : w'.nameRefs n = w.nameRefs n := by
    rw [NameRegistry.nameRefs, NameRegistry.nameRefs, hname]
  have hheap : ∀ id, (∃ o, w'.ownerships.find? id = some o ∧ o.name = n) ↔
      ∃ o, w.ownerships.find? id = some o ∧ o.name = n :=
    fun id => exists_congr fun o => and_congr_left fun ho => hownerships id o ho
  refine ⟨hlist ▸ h.nodup, fun id => ?_, fun id hid => (hheap id).mpr (h.held id hid), fun a id => ?_, ?_, ?_⟩
  · rw [hlist, hheap, h.queued]
  · rw [htrees, h.owned]
    refine exists_congr fun o => ?_
    constructor
    · exact fun ⟨ho, ha, hn⟩ => ⟨(hownerships id o hn).mpr ho, ha, hn⟩
    · exact fun ⟨ho, ha, hn⟩ => ⟨(hownerships id o hn).mp ho, ha, hn⟩
  · rw [hrefs, hlist, h.refs]
  · rw [hname]
    exact h.live

/-- The books of another name. -/
theorem OnlyName.nameAt (h : OnlyName w w' n) (hn : n' ≠ n) (hat : NameAt w n' pins loose) :
    NameAt w' n' pins loose :=
  hat.congr (h.names n' hn) (fun a => h.trees a n' hn) fun id o ho => h.ownerships id o (ho ▸ hn)

/-- A name with references exists. -/
theorem NameRegistry.exists_of_nameRefs_pos (h : 0 < w.nameRefs n) : ∃ x, w.nameTree.find? n = some x := by
  rw [NameRegistry.nameRefs] at h
  cases hx : w.nameTree.find? n with
  | none =>
    rw [hx] at h
    exact absurd h (Nat.lt_irrefl 0)
  | some x => exact ⟨x, rfl⟩

/-- Checks do not matter to the books. -/
theorem NameAt.check (h : NameAt w n pins loose) (c : Bool) : NameAt (w.check c) n pins loose :=
  h.congr rfl (fun _ => rfl) fun _ _ _ => Iff.rfl

section Reference

variable {x : Name}

/-- The queue of a name that is there. -/
theorem ownershipList_of_find? (hx : w.nameTree.find? n = some x) : w.ownershipList n = x.ownershipList := by
  rw [NameRegistry.ownershipList, hx]

/-- The references on a name that is there. -/
theorem nameRefs_of_find? (hx : w.nameTree.find? n = some x) : w.nameRefs n = x.nRefs := by
  rw [NameRegistry.nameRefs, hx]

/-- The name that was written back. -/
theorem find?_setName (w : NameRegistry ο) (n : Bytes) (y : Name) :
    (w.setName n y).nameTree.find? n = some y :=
  w.nameTree.find?_insert_self n y

/-- Writing back a name keeps the books of its queue. -/
theorem NameAt.setName (h : NameAt w n pins loose) {pins' : ℕ} {y : Name}
    (hlist : y.ownershipList = w.ownershipList n) (hpos : 0 < y.nRefs)
    (hrefs : y.nRefs + pins = w.nameRefs n + pins') : NameAt (w.setName n y) n pins' loose := by
  have hfind := find?_setName w n y
  have hlist' : (w.setName n y).ownershipList n = w.ownershipList n :=
    (ownershipList_of_find? hfind).trans hlist
  refine ⟨hlist' ▸ h.nodup, fun id => ?_, h.held, h.owned, ?_, fun z hz => ?_⟩
  · rw [hlist']
    exact h.queued id
  · have hold := h.refs
    rw [nameRefs_of_find? hfind, hlist']
    omega
  · rw [hfind] at hz
    cases hz
    exact hpos

/-- Writing back a name works on that name. -/
theorem onlyName_setName (w : NameRegistry ο) (n : Bytes) (y : Name) : OnlyName w (w.setName n y) n :=
  ⟨fun _ hn => w.nameTree.find?_insert_of_ne hn y, fun _ _ _ => rfl, fun _ _ _ => Iff.rfl⟩

/-- A check works on no name. -/
theorem onlyName_check (w : NameRegistry ο) (c : Bool) (n : Bytes) : OnlyName w (w.check c) n :=
  ⟨fun _ _ => rfl, fun _ _ _ => rfl, fun _ _ _ => Iff.rfl⟩

/-- `name_ref` on a name that is there. -/
theorem nameRef_eq (hx : w.nameTree.find? n = some x) :
    nameRef w n = (w.check (0 < x.nRefs)).setName n { x with nRefs := x.nRefs + 1 } := by
  rw [nameRef, hx]

/-- `name_ref` adds a reference. -/
theorem NameAt.ref (h : NameAt w n pins loose) (hx : w.nameTree.find? n = some x) :
    NameAt (nameRef w n) n (pins + 1) loose := by
  rw [nameRef_eq hx]
  refine (h.check _).setName ?_ (Nat.succ_pos _) ?_
  · exact (ownershipList_of_find? hx).symm
  · have hrefs : (w.check (0 < x.nRefs)).nameRefs n = x.nRefs := nameRefs_of_find? hx
    rw [hrefs]
    simp only
    omega

/-- `name_registry_ref_name` adds a reference, to a fresh name if there is none. -/
theorem NameAt.refName (h : NameAt w n pins loose) : NameAt (nameRegistryRefName w n) n (pins + 1) loose := by
  rw [nameRegistryRefName]
  cases hx : w.nameTree.find? n with
  | some x => exact h.ref hx
  | none =>
    have hlist : w.ownershipList n = [] := by rw [NameRegistry.ownershipList, hx]
    have hrefs : w.nameRefs n = 0 := by rw [NameRegistry.nameRefs, hx]
    refine h.setName hlist.symm Nat.one_pos ?_
    rw [hrefs, Name.init]
    simp only
    omega

/-- `name_unref` drops a reference that is held. -/
theorem NameAt.unref (h : NameAt w n pins loose) (hpins : 0 < pins) (idle : Bytes → Bool) :
    NameAt (nameUnref idle w n) n (pins - 1) loose := by
  have hrefs := h.refs
  obtain ⟨x, hx⟩ := NameRegistry.exists_of_nameRefs_pos (w := w) (n := n) (by omega)
  have hlist := ownershipList_of_find? hx
  have hcount := nameRefs_of_find? hx
  rw [nameUnref, hx]
  simp only
  split
  · next hone =>
    -- the last reference: nothing is queued and nothing is loose
    have hempty : w.ownershipList n = [] := List.length_eq_zero_iff.mp (by omega)
    have hloose : loose = none := by
      cases loose with
      | none => rfl
      | some id =>
        rw [Option.isSome_some, if_pos rfl] at hrefs
        omega
    have hgone : (w.nameTree.erase n).find? n = none := w.nameTree.find?_erase_self n
    have hlist' : (nameFree idle w n x).ownershipList n = [] := by
      simp only [NameRegistry.ownershipList, nameFree, hgone]
    have hrefs' : (nameFree idle w n x).nameRefs n = 0 := by
      simp only [NameRegistry.nameRefs, nameFree, hgone]
    refine ⟨hlist' ▸ List.nodup_nil, fun id => ?_, h.held, h.owned, ?_, fun y hy => ?_⟩
    · rw [hlist', ← hempty]
      exact h.queued id
    · rw [hrefs', hlist', hloose, Option.isSome_none, if_neg Bool.false_ne_true, List.length_nil]
      rw [hloose, Option.isSome_none, if_neg Bool.false_ne_true] at hrefs
      omega
    · simp only [nameFree, hgone] at hy
      cases hy
  · next hmore =>
    have hpos := h.live x hx
    have hsame : (w.check (0 < x.nRefs)).nameRefs n = x.nRefs := hcount
    refine (h.check _).setName hlist.symm ?_ ?_
    · simp only
      omega
    · rw [hsame]
      simp only
      omega

/-- `name_ref` writes the name and may fail a check. -/
theorem nameRef_eq_with (w : NameRegistry ο) (n : Bytes) :
    nameRef w n = { w with nameTree := (nameRef w n).nameTree, assertFailed := (nameRef w n).assertFailed } := by
  rw [nameRef]
  split
  · rfl
  · rfl

/-- `name_unref` writes the name and may fail a check. -/
theorem nameUnref_eq_with (idle : Bytes → Bool) (w : NameRegistry ο) (n : Bytes) :
    nameUnref idle w n =
      { w with
        nameTree := (nameUnref idle w n).nameTree
        assertFailed := (nameUnref idle w n).assertFailed } := by
  rw [nameUnref]
  split
  · split
    · rfl
    · rfl
  · rfl

/-- The reference on the name is independent of the ownership objects. -/
theorem nameUnref_setOwnerships (idle : Bytes → Bool) (w : NameRegistry ο) (n : Bytes)
    (t : SearchTree (compare : ℕ → ℕ → Ordering) (NameOwnership ο)) :
    { nameUnref idle w n with ownerships := t } = nameUnref idle { w with ownerships := t } n := by
  simp only [nameUnref]
  cases w.nameTree.find? n with
  | none => rfl
  | some x =>
    simp only
    split
    · rfl
    · rfl

/-- `name_ref` works on its name. -/
theorem onlyName_nameRef (w : NameRegistry ο) (n : Bytes) : OnlyName w (nameRef w n) n := by
  rw [nameRef]
  split
  · exact (onlyName_check w _ n).trans (onlyName_setName _ n _)
  · exact onlyName_check w false n

/-- `name_registry_ref_name` works on its name. -/
theorem onlyName_nameRegistryRefName (w : NameRegistry ο) (n : Bytes) : OnlyName w (nameRegistryRefName w n) n := by
  rw [nameRegistryRefName]
  split
  · exact onlyName_nameRef w n
  · exact onlyName_setName w n _

/-- `name_unref` works on its name. -/
theorem onlyName_nameUnref (idle : Bytes → Bool) (w : NameRegistry ο) (n : Bytes) :
    OnlyName w (nameUnref idle w n) n := by
  rw [nameUnref]
  split
  · split
    · exact ⟨fun _ hn => w.nameTree.find?_erase_of_ne hn, fun _ _ _ => rfl, fun _ _ _ => Iff.rfl⟩
    · exact (onlyName_check w _ n).trans (onlyName_setName _ n _)
  · exact onlyName_check w false n

/-- Rewriting a queue works on its name. -/
theorem onlyName_setOwnershipList (w : NameRegistry ο) (n : Bytes) (l : List ℕ) :
    OnlyName w (w.setOwnershipList n l) n := by
  rw [NameRegistry.setOwnershipList]
  split
  · exact onlyName_setName w n _
  · exact onlyName_check w false n

/-- A pinned name exists. -/
theorem NameAt.exists_name (h : NameAt w n pins loose) (hpins : 0 < pins) : ∃ x, w.nameTree.find? n = some x := by
  have hrefs := h.refs
  exact NameRegistry.exists_of_nameRefs_pos (by omega)

/-- `name_ref` keeps the queues. -/
@[simp] theorem ownershipList_nameRef (w : NameRegistry ο) (n n' : Bytes) :
    (nameRef w n).ownershipList n' = w.ownershipList n' := by
  by_cases hn : n' = n
  · subst hn
    rw [nameRef]
    split
    · next x hx => rw [ownershipList_of_find? (find?_setName _ n' _), ownershipList_of_find? hx]
    · rfl
  · exact (onlyName_nameRef w n).ownershipList hn

/-- `name_registry_ref_name` keeps the queues. -/
@[simp] theorem ownershipList_nameRegistryRefName (w : NameRegistry ο) (n n' : Bytes) :
    (nameRegistryRefName w n).ownershipList n' = w.ownershipList n' := by
  rw [nameRegistryRefName]
  split
  · exact ownershipList_nameRef w n n'
  · next hx =>
    by_cases hn : n' = n
    · rw [hn, ownershipList_of_find? (find?_setName w n _), NameRegistry.ownershipList, hx]
      rfl
    · exact (onlyName_setName w n _).ownershipList hn

/-- Dropping a reference that is held keeps the queue. -/
theorem NameAt.ownershipList_unref (h : NameAt w n pins loose) (hpins : 0 < pins) (idle : Bytes → Bool) :
    (nameUnref idle w n).ownershipList n = w.ownershipList n := by
  obtain ⟨x, hx⟩ := h.exists_name hpins
  have hrefs := h.refs
  rw [nameRefs_of_find? hx] at hrefs
  rw [nameUnref, hx]
  simp only
  split
  · next hone =>
    have hempty : w.ownershipList n = [] := List.length_eq_zero_iff.mp (by omega)
    have hgone : (w.nameTree.erase n).find? n = none := w.nameTree.find?_erase_self n
    rw [hempty]
    simp only [NameRegistry.ownershipList, nameFree, hgone]
  · rw [ownershipList_of_find? (find?_setName _ n _), ownershipList_of_find? hx]

end Reference

section Counters

/-- The counters of the registry and of the owners. -/
structure NameCounters (ο : Type) where
  nPrimaries : ℕ
  nPrimariesPeak : ℕ
  nOwnerPrimariesPeak : ℕ
  nOwnerPrimaries : ο → ℕ

/-- The counters of a registry. -/
def NameRegistry.counters (w : NameRegistry ο) : NameCounters ο :=
  ⟨w.nPrimaries, w.nPrimariesPeak, w.nOwnerPrimariesPeak, fun a => (w.owners a).nOwnerPrimaries⟩

/-- `name_ref` does not count. -/
@[simp] theorem counters_nameRef (w : NameRegistry ο) (n : Bytes) : (nameRef w n).counters = w.counters := by
  rw [nameRef_eq_with]
  rfl

/-- `name_ref` leaves the ownerships. -/
@[simp] theorem ownerships_nameRef (w : NameRegistry ο) (n : Bytes) : (nameRef w n).ownerships = w.ownerships := by
  rw [nameRef_eq_with]

/-- `name_ref` creates no ownership. -/
@[simp] theorem nextOwnership_nameRef (w : NameRegistry ο) (n : Bytes) :
    (nameRef w n).nextOwnership = w.nextOwnership := by
  rw [nameRef_eq_with]

/-- `name_registry_ref_name` does not count. -/
@[simp] theorem counters_nameRegistryRefName (w : NameRegistry ο) (n : Bytes) :
    (nameRegistryRefName w n).counters = w.counters := by
  rw [nameRegistryRefName]
  split
  · exact counters_nameRef w n
  · rfl

/-- `name_registry_ref_name` leaves the ownerships. -/
@[simp] theorem ownerships_nameRegistryRefName (w : NameRegistry ο) (n : Bytes) :
    (nameRegistryRefName w n).ownerships = w.ownerships := by
  rw [nameRegistryRefName]
  split
  · exact ownerships_nameRef w n
  · rfl

/-- `name_registry_ref_name` creates no ownership. -/
@[simp] theorem nextOwnership_nameRegistryRefName (w : NameRegistry ο) (n : Bytes) :
    (nameRegistryRefName w n).nextOwnership = w.nextOwnership := by
  rw [nameRegistryRefName]
  split
  · exact nextOwnership_nameRef w n
  · rfl

/-- `name_registry_ref_name` leaves the owners. -/
@[simp] theorem ownershipOf_nameRegistryRefName (w : NameRegistry ο) (n : Bytes) (a : ο) (n' : Bytes) :
    (nameRegistryRefName w n).ownershipOf a n' = w.ownershipOf a n' := by
  rw [nameRegistryRefName]
  split
  · rw [nameRef_eq_with]
    rfl
  · rfl

/-- `name_unref` does not count. -/
@[simp] theorem counters_nameUnref (idle : Bytes → Bool) (w : NameRegistry ο) (n : Bytes) :
    (nameUnref idle w n).counters = w.counters := by
  rw [nameUnref_eq_with]
  rfl

/-- `name_unref` leaves the ownerships. -/
@[simp] theorem ownerships_nameUnref (idle : Bytes → Bool) (w : NameRegistry ο) (n : Bytes) :
    (nameUnref idle w n).ownerships = w.ownerships := by
  rw [nameUnref_eq_with]

/-- `name_unref` creates no ownership. -/
@[simp] theorem nextOwnership_nameUnref (idle : Bytes → Bool) (w : NameRegistry ο) (n : Bytes) :
    (nameUnref idle w n).nextOwnership = w.nextOwnership := by
  rw [nameUnref_eq_with]

/-- A rewritten queue does not count. -/
@[simp] theorem counters_setOwnershipList (w : NameRegistry ο) (n : Bytes) (l : List ℕ) :
    (w.setOwnershipList n l).counters = w.counters := by
  rw [NameRegistry.setOwnershipList]
  split
  · rfl
  · rfl

/-- A rewritten queue leaves the ownerships. -/
@[simp] theorem ownerships_setOwnershipList (w : NameRegistry ο) (n : Bytes) (l : List ℕ) :
    (w.setOwnershipList n l).ownerships = w.ownerships := by
  rw [NameRegistry.setOwnershipList]
  split
  · rfl
  · rfl

/-- A rewritten queue creates no ownership. -/
@[simp] theorem nextOwnership_setOwnershipList (w : NameRegistry ο) (n : Bytes) (l : List ℕ) :
    (w.setOwnershipList n l).nextOwnership = w.nextOwnership := by
  rw [NameRegistry.setOwnershipList]
  split
  · rfl
  · rfl

end Counters

section Queue

variable {x : Name} {l : List ℕ} {loose' : Option ℕ}

/-- The ownerships of a name are the queued ones and the loose one. -/
theorem NameAt.exists_iff (h : NameAt w n pins loose) (id : ℕ) :
    (∃ o, w.ownerships.find? id = some o ∧ o.name = n) ↔ id ∈ w.ownershipList n ∨ loose = some id := by
  by_cases hid : loose = some id
  · exact iff_of_true (h.held id hid) (Or.inr hid)
  · rw [h.queued, or_iff_left hid]
    exact (and_iff_right hid).symm

/-- A queue that is rewritten. -/
theorem setOwnershipList_eq (hx : w.nameTree.find? n = some x) (l : List ℕ) :
    w.setOwnershipList n l = w.setName n { x with ownershipList := l } := by
  rw [NameRegistry.setOwnershipList, hx]

/-- The rewritten queue. -/
theorem ownershipList_setOwnershipList (hx : w.nameTree.find? n = some x) (l : List ℕ) :
    (w.setOwnershipList n l).ownershipList n = l := by
  rw [setOwnershipList_eq hx]
  exact ownershipList_of_find? (find?_setName w n _)

/-- Moving ownerships between the queue and the loose place keeps the books. -/
theorem NameAt.relist (h : NameAt w n pins loose) (hx : w.nameTree.find? n = some x) (hnodup : l.Nodup)
    (hmem : ∀ id, id ∈ l ↔ loose' ≠ some id ∧ (id ∈ w.ownershipList n ∨ loose = some id))
    (hheld : ∀ id, loose' = some id → id ∈ w.ownershipList n ∨ loose = some id)
    (hlength : l.length + (if loose'.isSome then 1 else 0) =
      (w.ownershipList n).length + if loose.isSome then 1 else 0) :
    NameAt (w.setOwnershipList n l) n pins loose' := by
  have hlist := ownershipList_setOwnershipList hx l
  have hrefs : (w.setOwnershipList n l).nameRefs n = w.nameRefs n := by
    rw [setOwnershipList_eq hx, nameRefs_of_find? hx, nameRefs_of_find? (find?_setName w n _)]
  have hheap := ownerships_setOwnershipList w n l
  have htrees : ∀ a, (w.setOwnershipList n l).ownershipOf a n = w.ownershipOf a n := by
    intro a
    rw [setOwnershipList_eq hx]
    rfl
  refine ⟨?_, fun id => ?_, fun id hid => ?_, fun a id => ?_, ?_, fun y hy => ?_⟩
  · rw [hlist]
    exact hnodup
  · rw [hlist, hmem, hheap, h.exists_iff]
  · rw [hheap, h.exists_iff]
    exact hheld id hid
  · rw [htrees, hheap, h.owned]
  · have hold := h.refs
    rw [hrefs, hlist]
    omega
  · rw [setOwnershipList_eq hx, find?_setName] at hy
    cases hy
    exact h.live x hx

/-- The flags and the charge of an ownership do not matter to the books. -/
theorem NameAt.setOwnership (h : NameAt w n pins loose) {id : ℕ} {o o' : NameOwnership ο}
    (ho : w.ownerships.find? id = some o) (howner : o'.owner = o.owner) (hname : o'.name = o.name) :
    NameAt (w.setOwnership id o') n pins loose := by
  have hheap : ∀ (P : ο → Bytes → Prop) id', (∃ y, (w.ownerships.insert id o').find? id' = some y ∧
      P y.owner y.name) ↔ ∃ y, w.ownerships.find? id' = some y ∧ P y.owner y.name := by
    intro P id'
    by_cases hid : id' = id
    · rw [hid, w.ownerships.find?_insert_self, ho]
      simp only [Option.some.injEq, exists_eq_left', howner, hname]
    · rw [w.ownerships.find?_insert_of_ne hid]
  refine ⟨h.nodup, fun id' => (h.queued id').trans (and_congr_right fun _ => ?_), fun id' hid => ?_,
    fun a id' => (h.owned a id').trans ?_, h.refs, h.live⟩
  · exact (hheap (fun _ m => m = n) id').symm
  · exact (hheap (fun _ m => m = n) id').mpr (h.held id' hid)
  · exact (hheap (fun b m => b = a ∧ m = n) id').symm

/-- Rewriting an ownership works on its name. -/
theorem onlyName_setOwnership {id : ℕ} {o' : NameOwnership ο} (hname : o'.name = n)
    (hold : ∀ o, w.ownerships.find? id = some o → o.name = n) : OnlyName w (w.setOwnership id o') n := by
  refine ⟨fun _ _ => rfl, fun _ _ _ => rfl, fun id' y hy => ?_⟩
  change (w.ownerships.insert id o').find? id' = some y ↔ _
  by_cases hid : id' = id
  · subst hid
    refine iff_of_false (fun hfind => ?_) fun hfind => hy (hold y hfind)
    rw [w.ownerships.find?_insert_self] at hfind
    cases hfind
    exact hy hname
  · rw [w.ownerships.find?_insert_of_ne hid]

end Queue

section Ownership

variable [DecidableEq ο] {a : ο} {id : ℕ} {o : NameOwnership ο}

/-- The trees after the tree of one owner was rewritten at one name. -/
theorem ownershipOf_setOwnershipTree (w : NameRegistry ο) (a : ο) (t : StringTree ℕ) (b : ο) (n : Bytes) :
    (w.setOwnershipTree a t).ownershipOf b n = if b = a then t.find? n else w.ownershipOf b n := by
  simp only [NameRegistry.ownershipOf, NameRegistry.setOwnershipTree]
  by_cases hb : b = a
  · rw [if_pos hb, hb, Function.update_self]
  · rw [if_neg hb, Function.update_of_ne hb]

/-- A new ownership is loose until it is queued. Its reference on the name was taken before. -/
theorem NameAt.create (h : NameAt w n (pins + 1) none) (hfresh : w.ownerships.find? id = none)
    (howned : w.ownershipOf a n = none) (charge : UserCharge) :
    NameAt (nameOwnershipLink (w.setOwnership id ⟨a, n, 0, charge⟩) a n id) n
      pins (some id) := by
  have hnew : (w.ownerships.insert id ⟨a, n, 0, charge⟩).find? id = some ⟨a, n, 0, charge⟩ :=
    w.ownerships.find?_insert_self id _
  have hold : ∀ id', id' ≠ id → (w.ownerships.insert id ⟨a, n, 0, charge⟩).find? id' = w.ownerships.find? id' :=
    fun id' hid => w.ownerships.find?_insert_of_ne hid _
  have hunqueued : id ∉ w.ownershipList n := by
    intro hmem
    obtain ⟨-, o, ho, -⟩ := (h.queued id).mp hmem
    rw [hfresh] at ho
    cases ho
  have htrees : ∀ b, (nameOwnershipLink (w.setOwnership id ⟨a, n, 0, charge⟩) a n id).ownershipOf b n = if b = a then some id else w.ownershipOf b n := by
    intro b
    rw [nameOwnershipLink, ownershipOf_setOwnershipTree, SearchTree.find?_insert_self]
    rfl
  refine ⟨h.nodup, fun id' => ?_, fun id' hid => ?_, fun b id' => ?_, ?_, h.live⟩
  · by_cases hid : id' = id
    · rw [hid]
      exact iff_of_false hunqueued fun hboth => hboth.1 rfl
    · change id' ∈ w.ownershipList n ↔ some id ≠ some id' ∧
        ∃ o, (w.ownerships.insert id ⟨a, n, 0, charge⟩).find? id' = some o ∧ o.name = n
      rw [hold id' hid, h.queued, and_iff_right (Option.some_ne_none _).symm,
        and_iff_right fun heq => hid (Option.some.inj heq).symm]
  · cases hid
    exact ⟨_, hnew, rfl⟩
  · rw [htrees]
    change _ ↔ ∃ o, (w.ownerships.insert id ⟨a, n, 0, charge⟩).find? id' = some o ∧ o.owner = b ∧ o.name = n
    by_cases hid : id' = id
    · rw [hid, hnew]
      by_cases hb : b = a
      · rw [if_pos hb, hb]
        exact iff_of_true rfl ⟨_, rfl, rfl, rfl⟩
      · rw [if_neg hb]
        refine iff_of_false (fun htree => ?_) fun ⟨o, ho, howner, _⟩ => ?_
        · obtain ⟨o, ho, -⟩ := (h.owned b id).mp htree
          rw [hfresh] at ho
          cases ho
        · cases ho
          exact hb howner.symm
    · rw [hold id' hid, ← h.owned]
      by_cases hb : b = a
      · rw [if_pos hb, hb, howned]
        exact iff_of_false (fun heq => hid (Option.some.inj heq).symm) (Option.some_ne_none _).symm
      · rw [if_neg hb]
  · have hrefs := h.refs
    rw [Option.isSome_none, if_neg Bool.false_ne_true] at hrefs
    rw [Option.isSome_some, if_pos rfl]
    change w.nameRefs n = pins + (w.ownershipList n).length + 1
    omega

/-- Linking an ownership works on its name. -/
theorem onlyName_nameOwnershipLink (w : NameRegistry ο) (a : ο) (n : Bytes) (id : ℕ) :
    OnlyName w (nameOwnershipLink w a n id) n := by
  refine ⟨fun _ _ => rfl, fun b n' hn => ?_, fun _ _ _ => Iff.rfl⟩
  rw [nameOwnershipLink, ownershipOf_setOwnershipTree, SearchTree.find?_insert_of_ne _ hn]
  split
  · next hb => rw [hb, NameRegistry.ownershipOf]
  · rfl

/-- What `name_ownership_free` destroys, before it drops the reference on the name. -/
def NameRegistry.dropOwnership (w : NameRegistry ο) (id : ℕ) (o : NameOwnership ο) : NameRegistry ο :=
  { (w.check (id ∉ w.ownershipList o.name)).setOwnershipTree o.owner
      ((w.owners o.owner).ownershipTree.erase o.name) with ownerships := w.ownerships.erase id }

/-- `name_ownership_free` on an ownership in the tree of its owner. -/
theorem nameOwnershipFree_eq (idle : Bytes → Bool) (users : UserRegistry)
    (ho : w.ownerships.find? id = some o) (htree : w.ownershipOf o.owner o.name = some id) :
    nameOwnershipFree idle users w id =
      ((userChargeDeinit users o.charge).1, nameUnref idle (w.dropOwnership id o) o.name) := by
  have hlinked : ((w.check (id ∉ w.ownershipList o.name)).owners o.owner).ownershipTree.find? o.name = some id :=
    htree
  have hheap := congrArg NameRegistry.ownerships (nameUnref_eq_with idle
    ((w.check (id ∉ w.ownershipList o.name)).setOwnershipTree o.owner
      ((w.owners o.owner).ownershipTree.erase o.name)) o.name)
  rw [nameOwnershipFree, ho]
  simp only [hlinked, if_true]
  refine congrArg _ ((nameUnref_setOwnerships idle _ _ _).trans ?_)
  rw [NameRegistry.dropOwnership]
  refine congrArg (fun t => nameUnref idle { (w.check (id ∉ w.ownershipList o.name)).setOwnershipTree o.owner
    ((w.owners o.owner).ownershipTree.erase o.name) with ownerships := t } o.name) ?_
  exact congrArg (SearchTree.erase · id) hheap

/-- Destroying the loose ownership leaves its reference on the name. -/
theorem NameAt.dropOwnership (h : NameAt w n pins (some id)) (ho : w.ownerships.find? id = some o)
    (hname : o.name = n) : NameAt (w.dropOwnership id o) n (pins + 1) none := by
  have hgone : (w.ownerships.erase id).find? id = none := w.ownerships.find?_erase_self id
  have hold : ∀ id', id' ≠ id → (w.ownerships.erase id).find? id' = w.ownerships.find? id' :=
    fun id' hid => w.ownerships.find?_erase_of_ne hid
  have hunqueued : id ∉ w.ownershipList n := fun hmem => ((h.queued id).mp hmem).1 rfl
  have htrees : ∀ b, (w.dropOwnership id o).ownershipOf b n =
      if b = o.owner then none else w.ownershipOf b n := by
    intro b
    rw [← hname]
    refine (ownershipOf_setOwnershipTree (w.check (id ∉ w.ownershipList o.name)) o.owner _ b o.name).trans ?_
    rw [SearchTree.find?_erase_self]
    rfl
  refine ⟨h.nodup, fun id' => ?_, fun id' hid => (by cases hid), fun b id' => ?_, ?_, h.live⟩
  · change id' ∈ w.ownershipList n ↔ none ≠ some id' ∧
      ∃ y, (w.ownerships.erase id).find? id' = some y ∧ y.name = n
    rw [and_iff_right (Option.some_ne_none _).symm]
    by_cases hid : id' = id
    · rw [hid, hgone]
      exact iff_of_false hunqueued fun ⟨y, hy, _⟩ => (by cases hy)
    · rw [hold id' hid, h.queued, and_iff_right fun heq => hid (Option.some.inj heq).symm]
  · rw [htrees]
    change _ ↔ ∃ y, (w.ownerships.erase id).find? id' = some y ∧ y.owner = b ∧ y.name = n
    by_cases hid : id' = id
    · rw [hid, hgone]
      refine iff_of_false ?_ fun ⟨y, hy, _⟩ => (by cases hy)
      split
      · exact (Option.some_ne_none _).symm
      · next hb =>
        rw [h.owned]
        rintro ⟨y, hy, howner, -⟩
        rw [ho] at hy
        cases hy
        exact hb howner.symm
    · rw [hold id' hid, ← h.owned]
      split
      · next hb =>
        have hown := (h.owned o.owner id).mpr ⟨o, ho, rfl, hname⟩
        rw [hb, hown]
        exact iff_of_false (Option.some_ne_none _).symm fun heq => hid (Option.some.inj heq).symm
      · rfl
  · have hrefs := h.refs
    rw [Option.isSome_some, if_pos rfl] at hrefs
    rw [Option.isSome_none, if_neg Bool.false_ne_true]
    change w.nameRefs n = pins + 1 + (w.ownershipList n).length + 0
    omega

/-- Destroying an ownership works on its name. -/
theorem onlyName_dropOwnership (w : NameRegistry ο) (ho : w.ownerships.find? id = some o) :
    OnlyName w (w.dropOwnership id o) o.name := by
  refine ⟨fun _ _ => rfl, fun b n' hn => ?_, fun id' y hy => ?_⟩
  · refine (ownershipOf_setOwnershipTree (w.check (id ∉ w.ownershipList o.name)) o.owner _ b n').trans ?_
    rw [SearchTree.find?_erase_of_ne _ hn]
    split
    · next hb => rw [hb, NameRegistry.ownershipOf]
    · rfl
  · change (w.ownerships.erase id).find? id' = some y ↔ _
    by_cases hid : id' = id
    · rw [hid, w.ownerships.find?_erase_self]
      refine iff_of_false (Option.some_ne_none _).symm fun hfind => ?_
      rw [ho] at hfind
      cases hfind
      exact hy rfl
    · rw [w.ownerships.find?_erase_of_ne hid]

/-- A destroyed ownership does not count. -/
theorem counters_dropOwnership (w : NameRegistry ο) (id : ℕ) (o : NameOwnership ο) :
    (w.dropOwnership id o).counters = w.counters := by
  simp only [NameRegistry.counters, NameRegistry.dropOwnership, NameRegistry.setOwnershipTree,
    NameRegistry.check, NameCounters.mk.injEq, true_and]
  funext b
  by_cases hb : b = o.owner
  · rw [hb, Function.update_self]
  · rw [Function.update_of_ne hb]

/-- What `name_ownership_free` does to the loose ownership of a name. -/
structure Freed (w w' : NameRegistry ο) (n : Bytes) (pins id : ℕ) : Prop where
  books : NameAt w' n pins none
  only : OnlyName w w' n
  queue : w'.ownershipList n = w.ownershipList n
  ownerships : w'.ownerships = w.ownerships.erase id
  counters : w'.counters = w.counters
  next : w'.nextOwnership = w.nextOwnership

/-- `name_ownership_free` destroys the loose ownership. -/
theorem NameAt.free (h : NameAt w n pins (some id)) (idle : Bytes → Bool) (users : UserRegistry) :
    Freed w (nameOwnershipFree idle users w id).2 n pins id := by
  obtain ⟨o, ho, hname⟩ := h.held id rfl
  have htree : w.ownershipOf o.owner o.name = some id := by
    rw [hname]
    exact (h.owned o.owner id).mpr ⟨o, ho, rfl, hname⟩
  have hdrop := h.dropOwnership ho hname
  have honly := onlyName_dropOwnership w ho
  rw [hname] at honly
  rw [nameOwnershipFree_eq idle users ho htree, hname]
  refine ⟨hdrop.unref (Nat.succ_pos pins) idle, honly.trans (onlyName_nameUnref idle _ n), ?_, ?_, ?_, ?_⟩
  · exact hdrop.ownershipList_unref (Nat.succ_pos pins) idle
  · exact ownerships_nameUnref idle _ n
  · exact (counters_nameUnref idle _ n).trans (counters_dropOwnership w id o)
  · exact nextOwnership_nameUnref idle _ n

end Ownership

end Books

end DbusBroker
