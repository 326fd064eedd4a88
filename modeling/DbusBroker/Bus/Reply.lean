import DbusBroker.Lib.Heap
import DbusBroker.Util.User

/-!
# Reply slots

The slots of `bus/reply.c`. A method call that expects a reply leaves a slot, which is in the
tree of the peer that has to answer, under the id of the caller and the serial of the call,
and in the list of the caller. Registries and owners are named by `ο`; slots are objects with
an address, since both sides refer to the same one.
-/

namespace DbusBroker

open Std

/-- `ReplySlotKey`. -/
abbrev ReplySlotKey := ℕ × UInt32

/-- `reply_slot_compare`. -/
def replySlotCompare (a b : ReplySlotKey) : Ordering := (compare a.1 b.1).then (compare a.2 b.2)

instance : LawfulEqCmp replySlotCompare where
  compare_self := by simp [replySlotCompare]
  eq_of_compare := by
    intro a b h
    obtain ⟨hid, hserial⟩ := Ordering.then_eq_eq.mp h
    exact Prod.ext (LawfulEqOrd.eq_of_compare hid) (LawfulEqOrd.eq_of_compare hserial)

instance : TransCmp replySlotCompare :=
  inferInstanceAs (TransCmp (compareLex (compareOn Prod.fst) (compareOn Prod.snd)))

/-- `ReplySlot`. -/
structure ReplySlot (ο : Type) where
  registry : ο
  owner : ο
  id : ℕ
  serial : UInt32
  charge : UserCharge

/-- The key a slot is filed under. -/
def ReplySlot.key {ο : Type} (slot : ReplySlot ο) : ReplySlotKey := (slot.id, slot.serial)

/-- What the reply functions return. -/
inductive ReplyResult where
  | success
  | exists
  | quota
  deriving DecidableEq, Repr

/-- The reply registries and the reply owners, with the slot objects. -/
structure ReplyWorld (ο : Type) where
  replyTree : ο → SearchTree replySlotCompare ℕ
  replyList : ο → List ℕ
  slots : Heap (ReplySlot ο)

namespace ReplyWorld

variable {ο : Type}

/-- No slots. -/
def init : ReplyWorld ο := ⟨fun _ => .empty, fun _ => [], .empty⟩

variable [DecidableEq ο]

/-- Rewrite the tree of a registry. -/
def setReplyTree (w : ReplyWorld ο) (registry : ο) (t : SearchTree replySlotCompare ℕ) : ReplyWorld ο :=
  { w with replyTree := Function.update w.replyTree registry t }

/-- Rewrite the list of an owner. -/
def setReplyList (w : ReplyWorld ο) (owner : ο) (l : List ℕ) : ReplyWorld ο :=
  { w with replyList := Function.update w.replyList owner l }

end ReplyWorld

section Functions

variable {ο : Type} [DecidableEq ο]

/-- `reply_slot_new`. A slot that exceeds the quota is not linked anywhere, and not freed. -/
def replySlotNew (users : UserRegistry) (w : ReplyWorld ο) (registry owner : ο) (user actor : Option Uid) (id : ℕ)
    (serial : UInt32) : UserRegistry × ReplyWorld ο × Option ℕ × ReplyResult :=
  if ((w.replyTree registry).find? (id, serial)).isSome then (users, w, none, .exists)
  else
    let slot := w.slots.next
    let (users, charge, r) := userCharge users user .init actor userSlotObjects 1
    let w := { w with slots := w.slots.alloc ⟨registry, owner, id, serial, charge⟩ }
    match r with
    | .quota => (users, w, none, .quota)
    | .success =>
      let w := w.setReplyTree registry ((w.replyTree registry).insert (id, serial) slot)
      (users, w.setReplyList owner (w.replyList owner ++ [slot]), some slot, .success)

/-- `reply_slot_free`. -/
def replySlotFree (users : UserRegistry) (w : ReplyWorld ο) (slot : ℕ) : UserRegistry × ReplyWorld ο :=
  match w.slots.read slot with
  | none => (users, w)
  | some s =>
    let (users, _) := userChargeDeinit users s.charge
    let w := w.setReplyList s.owner ((w.replyList s.owner).erase slot)
    let tree := w.replyTree s.registry
    -- `c_rbnode_unlink` does nothing for a node that is not linked
    let w := if tree.find? s.key = some slot then w.setReplyTree s.registry (tree.erase s.key) else w
    (users, { w with slots := w.slots.free slot })

/-- `reply_slot_get_by_id`. -/
def replySlotGetById (w : ReplyWorld ο) (registry : ο) (id : ℕ) (serial : UInt32) : Option ℕ :=
  (w.replyTree registry).find? (id, serial)

end Functions

end DbusBroker
