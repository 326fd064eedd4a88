import DbusBroker.Bus.Reply

/-!
# The books of the reply slots

A slot that waits for a reply is in the tree of the one who has to answer and in the list of
the one who called, and nowhere else. The three functions of `bus/reply.c` keep it so, and
each changes what is waited for at one place only.
-/

namespace DbusBroker

open Std

/-- How the trees, the lists and the slots agree. The id of a slot is the one of its owner. -/
structure ReplyBooks (w : ReplyWorld ℕ) : Prop where
  tree : ∀ callee key slot, (w.replyTree callee).find? key = some slot →
    ∃ s, w.slots.read slot = some s ∧ s.registry = callee ∧ s.key = key ∧ s.owner = s.id
  list : ∀ caller slot, slot ∈ w.replyList caller ↔
    ∃ s, w.slots.read slot = some s ∧ s.owner = caller ∧ (w.replyTree s.registry).find? s.key = some slot
  nodup : ∀ caller, (w.replyList caller).Nodup

/-- A callee has to answer a call. -/
def ReplyWorld.Outstanding (w : ReplyWorld ℕ) (callee caller : ℕ) (serial : UInt32) : Prop :=
  ((w.replyTree callee).find? (caller, serial)).isSome

/-- No slots at all. -/
theorem replyBooks_init : ReplyBooks (ReplyWorld.init : ReplyWorld ℕ) where
  tree := fun _ _ _ h => nomatch h
  list := by
    intro caller slot
    refine ⟨fun hmem => absurd hmem List.not_mem_nil, ?_⟩
    intro ⟨s, hs, _⟩
    cases hs
  nodup := fun _ => List.nodup_nil

section Books

variable {w : ReplyWorld ℕ} {callee caller slot : ℕ} {serial : UInt32} {s : ReplySlot ℕ}

/-- The slot of an outstanding reply. -/
theorem ReplyBooks.slot_of_find? (h : ReplyBooks w) {key : ReplySlotKey}
    (hfind : (w.replyTree callee).find? key = some slot) :
    ∃ s, w.slots.read slot = some s ∧ s.registry = callee ∧ s.owner = key.1 ∧ s.serial = key.2 ∧
      slot ∈ w.replyList key.1 := by
  obtain ⟨s, hs, rfl, rfl, howner⟩ := h.tree callee key slot hfind
  exact ⟨s, hs, rfl, howner, rfl, (h.list s.id slot).mpr ⟨s, hs, howner, hfind⟩⟩

/-- A slot in a list is filed in the tree of its callee. -/
theorem ReplyBooks.find?_of_mem (h : ReplyBooks w) (hmem : slot ∈ w.replyList caller) :
    ∃ s, w.slots.read slot = some s ∧ s.owner = caller ∧ s.id = caller ∧
      (w.replyTree s.registry).find? (caller, s.serial) = some slot := by
  obtain ⟨s, hs, howner, hfind⟩ := (h.list caller slot).mp hmem
  obtain ⟨s', hs', -, -, hid⟩ := h.tree _ _ _ hfind
  rw [hs] at hs'
  cases hs'
  have hcaller : s.id = caller := hid.symm.trans howner
  refine ⟨s, hs, howner, hcaller, ?_⟩
  rw [← hcaller]
  exact hfind

/-- A slot that is filed is not the next one to be allocated. -/
theorem ReplyBooks.read_ne_next (h : ReplyBooks w) {i : ℕ} {key : ReplySlotKey}
    (hfind : (w.replyTree callee).find? key = some i) : i ≠ w.slots.next := by
  obtain ⟨s, hread, -⟩ := h.tree _ _ _ hfind
  intro heq
  rw [heq, Heap.read_next] at hread
  cases hread

/-- The books do not mind slots that are filed nowhere. -/
theorem ReplyBooks.setSlots (h : ReplyBooks w) {slots : Heap (ReplySlot ℕ)}
    (hkeep : ∀ i s, w.slots.read i = some s → (w.replyTree s.registry).find? s.key = some i →
      slots.read i = some s)
    (hfiled : ∀ i s, slots.read i = some s → (w.replyTree s.registry).find? s.key = some i →
      w.slots.read i = some s) :
    ReplyBooks { w with slots := slots } where
  tree := by
    intro callee key slot hfind
    obtain ⟨s, hs, rfl, rfl, howner⟩ := h.tree callee key slot hfind
    exact ⟨s, hkeep slot s hs hfind, rfl, rfl, howner⟩
  list := by
    intro caller slot
    refine (h.list caller slot).trans ⟨?_, ?_⟩
    · intro ⟨s, hs, howner, hfind⟩
      exact ⟨s, hkeep slot s hs hfind, howner, hfind⟩
    · intro ⟨s, hs, howner, hfind⟩
      exact ⟨s, hfiled slot s hs hfind, howner, hfind⟩
  nodup := h.nodup

/-- A slot that was allocated and is filed nowhere. -/
theorem ReplyBooks.alloc (h : ReplyBooks w) (s : ReplySlot ℕ) :
    ReplyBooks { w with slots := w.slots.alloc s } := by
  refine h.setSlots ?_ ?_
  · intro i s' hread hfind
    rw [Heap.read_alloc, if_neg (h.read_ne_next hfind), hread]
  · intro i s' hread hfind
    rw [Heap.read_alloc, if_neg (h.read_ne_next hfind)] at hread
    exact hread

/-- The world after a call was filed. -/
def ReplyWorld.file (w : ReplyWorld ℕ) (callee caller : ℕ) (serial : UInt32) (charge : UserCharge) : ReplyWorld ℕ where
  replyTree := Function.update w.replyTree callee ((w.replyTree callee).insert (caller, serial) w.slots.next)
  replyList := Function.update w.replyList caller (w.replyList caller ++ [w.slots.next])
  slots := w.slots.alloc ⟨callee, caller, caller, serial, charge⟩

/-- The trees after a call was filed. -/
theorem ReplyWorld.find?_file (w : ReplyWorld ℕ) (callee caller : ℕ) (serial : UInt32) (charge : UserCharge)
    (c : ℕ) (key : ReplySlotKey) :
    ((w.file callee caller serial charge).replyTree c).find? key =
      if c = callee ∧ key = (caller, serial) then some w.slots.next else (w.replyTree c).find? key := by
  show (Function.update w.replyTree callee _ c).find? key = _
  by_cases hc : c = callee
  · subst hc
    rw [Function.update_self, SearchTree.find?_insert]
    by_cases hkey : key = (caller, serial)
    · rw [if_pos hkey, if_pos ⟨rfl, hkey⟩]
    · rw [if_neg hkey, if_neg fun h => hkey h.2]
  · rw [Function.update_of_ne hc, if_neg fun h => hc h.1]

/-- Filing a call that was not outstanding keeps the books. -/
theorem ReplyBooks.file (h : ReplyBooks w) (hnone : (w.replyTree callee).find? (caller, serial) = none)
    (charge : UserCharge) : ReplyBooks (w.file callee caller serial charge) where
  tree := by
    intro c key i hfind
    rw [ReplyWorld.find?_file] at hfind
    show ∃ s, (w.slots.alloc _).read i = some s ∧ _
    split at hfind
    · next heq =>
      obtain ⟨rfl, rfl⟩ := heq
      cases hfind
      exact ⟨_, by rw [Heap.read_alloc, if_pos rfl], rfl, rfl, rfl⟩
    · obtain ⟨s, hs, hregistry, hkey, howner⟩ := h.tree c key i hfind
      exact ⟨s, by rw [Heap.read_alloc, if_neg (h.read_ne_next hfind), hs], hregistry, hkey, howner⟩
  list := by
    intro a i
    have hmem : i ∈ (w.file callee caller serial charge).replyList a ↔
        i ∈ w.replyList a ∨ (a = caller ∧ i = w.slots.next) := by
      show i ∈ Function.update w.replyList caller (w.replyList caller ++ [w.slots.next]) a ↔ _
      by_cases ha : a = caller
      · subst ha
        rw [Function.update_self, List.mem_append, List.mem_singleton]
        simp
      · rw [Function.update_of_ne ha]
        simp [ha]
    rw [hmem, h.list a i]
    constructor
    · intro hor
      obtain ⟨s, hs, howner, hfind⟩ | ⟨rfl, rfl⟩ := hor
      · refine ⟨s, ?_, howner, ?_⟩
        · show (w.slots.alloc _).read i = some s
          rw [Heap.read_alloc, if_neg (h.read_ne_next hfind), hs]
        · rw [ReplyWorld.find?_file, if_neg, hfind]
          intro ⟨hregistry, hkey⟩
          rw [hregistry, hkey, hnone] at hfind
          cases hfind
      · refine ⟨_, by show (w.slots.alloc _).read _ = _; rw [Heap.read_alloc, if_pos rfl], rfl, ?_⟩
        rw [ReplyWorld.find?_file, if_pos ⟨rfl, rfl⟩]
    · intro ⟨s, hs, howner, hfind⟩
      have hs : (w.slots.alloc ⟨callee, caller, caller, serial, charge⟩).read i = some s := hs
      rw [Heap.read_alloc] at hs
      split at hs
      · next hi =>
        cases hs
        exact .inr ⟨howner.symm, hi⟩
      · next hi =>
        rw [ReplyWorld.find?_file] at hfind
        split at hfind
        · cases hfind
          exact absurd rfl hi
        · exact .inl ⟨s, hs, howner, hfind⟩
  nodup := by
    intro a
    show (Function.update w.replyList caller _ a).Nodup
    by_cases ha : a = caller
    · subst ha
      rw [Function.update_self]
      refine List.nodup_append.mpr ⟨h.nodup a, List.nodup_singleton _, ?_⟩
      intro i hi j hj heq
      rw [List.mem_singleton.mp hj] at heq
      obtain ⟨s, hread, -⟩ := (h.list a i).mp hi
      rw [heq, Heap.read_next] at hread
      cases hread
    · rw [Function.update_of_ne ha]
      exact h.nodup a

/-- The world after the slot of a call was dropped. -/
def ReplyWorld.drop (w : ReplyWorld ℕ) (callee caller : ℕ) (serial : UInt32) (slot : ℕ) : ReplyWorld ℕ where
  replyTree := Function.update w.replyTree callee ((w.replyTree callee).erase (caller, serial))
  replyList := Function.update w.replyList caller ((w.replyList caller).erase slot)
  slots := w.slots.free slot

/-- The trees after a slot was dropped. -/
theorem ReplyWorld.find?_drop (w : ReplyWorld ℕ) (callee caller : ℕ) (serial : UInt32) (slot c : ℕ)
    (key : ReplySlotKey) :
    ((w.drop callee caller serial slot).replyTree c).find? key =
      if c = callee ∧ key = (caller, serial) then none else (w.replyTree c).find? key := by
  show (Function.update w.replyTree callee _ c).find? key = _
  by_cases hc : c = callee
  · subst hc
    rw [Function.update_self, SearchTree.find?_erase]
    by_cases hkey : key = (caller, serial)
    · rw [if_pos hkey, if_pos ⟨rfl, hkey⟩]
    · rw [if_neg hkey, if_neg fun h => hkey h.2]
  · rw [Function.update_of_ne hc, if_neg fun h => hc h.1]

/-- A filed slot is filed once. -/
theorem ReplyBooks.find?_injective (h : ReplyBooks w) {c c' : ℕ} {key key' : ReplySlotKey}
    (hfind : (w.replyTree c).find? key = some slot) (hfind' : (w.replyTree c').find? key' = some slot) :
    c = c' ∧ key = key' := by
  obtain ⟨s, hs, hregistry, hkey, -⟩ := h.tree _ _ _ hfind
  obtain ⟨s', hs', hregistry', hkey', -⟩ := h.tree _ _ _ hfind'
  rw [hs] at hs'
  cases hs'
  exact ⟨hregistry.symm.trans hregistry', hkey.symm.trans hkey'⟩

/-- Dropping the slot of a call keeps the books. -/
theorem ReplyBooks.drop (h : ReplyBooks w) (hfind : (w.replyTree callee).find? (caller, serial) = some slot) :
    ReplyBooks (w.drop callee caller serial slot) where
  tree := by
    intro c key i hfind'
    rw [ReplyWorld.find?_drop] at hfind'
    split at hfind'
    · cases hfind'
    · next hne =>
      obtain ⟨s, hs, hregistry, hkey, howner⟩ := h.tree c key i hfind'
      have hi : i ≠ slot := by
        intro heq
        rw [heq] at hfind'
        exact hne (h.find?_injective hfind' hfind)
      refine ⟨s, ?_, hregistry, hkey, howner⟩
      show (w.slots.free slot).read i = some s
      rw [Heap.read_free, if_neg hi, hs]
  list := by
    intro a i
    have hmem : i ∈ (w.drop callee caller serial slot).replyList a ↔ i ∈ w.replyList a ∧ i ≠ slot := by
      show i ∈ Function.update w.replyList caller ((w.replyList caller).erase slot) a ↔ _
      by_cases ha : a = caller
      · subst ha
        rw [Function.update_self, (h.nodup a).mem_erase_iff, and_comm]
      · rw [Function.update_of_ne ha]
        refine ⟨fun hi => ⟨hi, ?_⟩, And.left⟩
        intro heq
        obtain ⟨s, hs, howner, -⟩ := h.find?_of_mem hi
        obtain ⟨s', hs', -, howner', -⟩ := h.slot_of_find? hfind
        rw [heq, hs'] at hs
        cases hs
        exact ha (howner.symm.trans howner')
    rw [hmem, h.list a i]
    constructor
    · intro ⟨⟨s, hs, howner, hfind'⟩, hne⟩
      refine ⟨s, ?_, howner, ?_⟩
      · show (w.slots.free slot).read i = some s
        rw [Heap.read_free, if_neg hne, hs]
      · rw [ReplyWorld.find?_drop, if_neg, hfind']
        intro ⟨hregistry, hkey⟩
        rw [hregistry, hkey, hfind] at hfind'
        exact hne (Option.some.inj hfind').symm
    · intro ⟨s, hs, howner, hfind'⟩
      have hs : (w.slots.free slot).read i = some s := hs
      rw [Heap.read_free] at hs
      split at hs
      · cases hs
      · next hne =>
        rw [ReplyWorld.find?_drop] at hfind'
        split at hfind'
        · cases hfind'
        · exact ⟨⟨s, hs, howner, hfind'⟩, hne⟩
  nodup := by
    intro a
    show (Function.update w.replyList caller _ a).Nodup
    by_cases ha : a = caller
    · subst ha
      rw [Function.update_self]
      exact (h.nodup a).erase slot
    · rw [Function.update_of_ne ha]
      exact h.nodup a

/-- A call that is filed and dropped again leaves a used address only. -/
theorem ReplyBooks.drop_file (h : ReplyBooks w) (hnone : (w.replyTree callee).find? (caller, serial) = none)
    (charge : UserCharge) :
    ((w.file callee caller serial charge).drop callee caller serial w.slots.next).replyTree = w.replyTree ∧
      ((w.file callee caller serial charge).drop callee caller serial w.slots.next).replyList = w.replyList := by
  have hfresh : w.slots.next ∉ w.replyList caller := by
    intro hmem
    obtain ⟨s, hread, -⟩ := (h.list caller _).mp hmem
    rw [Heap.read_next] at hread
    cases hread
  constructor
  · show Function.update (Function.update w.replyTree callee _) callee _ = w.replyTree
    rw [Function.update_idem]
    refine Function.update_eq_self_iff.mpr ?_
    show ((Function.update w.replyTree callee _ callee).erase _) = _
    rw [Function.update_self, SearchTree.erase_insert_of_find?_none _ hnone]
  · show Function.update (Function.update w.replyList caller _) caller _ = w.replyList
    rw [Function.update_idem]
    refine Function.update_eq_self_iff.mpr ?_
    show (Function.update w.replyList caller _ caller).erase _ = _
    rw [Function.update_self, List.erase_append_right _ hfresh]
    simp

end Books

section Functions

variable {w : ReplyWorld ℕ}

/-- What `reply_slot_new` does: the reply is expected already, the quota is exceeded, or the call is filed. -/
theorem replySlotNew_cases (users : UserRegistry) (w : ReplyWorld ℕ) (callee caller : ℕ) (user actor : Option Uid)
    (serial : UInt32) :
    (replySlotNew users w callee caller user actor caller serial = (users, w, none, .exists) ∧
      w.Outstanding callee caller serial) ∨
    (w.replyTree callee).find? (caller, serial) = none ∧
      ((∃ users' s, replySlotNew users w callee caller user actor caller serial =
        (users', { w with slots := w.slots.alloc s }, none, .quota)) ∨
      ∃ users' charge, replySlotNew users w callee caller user actor caller serial =
        (users', w.file callee caller serial charge, some w.slots.next, .success)) := by
  rw [replySlotNew]
  by_cases hexists : ((w.replyTree callee).find? (caller, serial)).isSome
  · rw [if_pos hexists]
    exact .inl ⟨rfl, hexists⟩
  · rw [if_neg hexists]
    refine .inr ⟨Option.not_isSome_iff_eq_none.mp hexists, ?_⟩
    obtain ⟨users', charge, r⟩ := userCharge users user .init actor userSlotObjects 1
    cases r with
    | quota => exact .inl ⟨_, _, rfl⟩
    | success => exact .inr ⟨_, _, rfl⟩

/-- `reply_slot_free` of a filed slot. -/
theorem ReplyBooks.replySlotFree_eq (h : ReplyBooks w) {callee caller slot : ℕ} {serial : UInt32}
    (hfind : (w.replyTree callee).find? (caller, serial) = some slot) (users : UserRegistry) :
    (replySlotFree users w slot).2 = w.drop callee caller serial slot := by
  obtain ⟨s, hs, hregistry, hkey, howner⟩ := h.tree _ _ _ hfind
  have hid : s.owner = caller := by rw [howner]; exact congrArg Prod.fst hkey
  subst hregistry
  subst hid
  rw [replySlotFree, hs]
  dsimp only [ReplyWorld.setReplyList]
  rw [hkey, if_pos hfind]
  rfl

end Functions

end DbusBroker
