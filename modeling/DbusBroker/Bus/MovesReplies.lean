import DbusBroker.Bus.OrderNames

/-!
# The moves of the replies

The functions that create and drop reply slots as moves of the bus. A call that could not be
queued leaves nothing but a used address.
-/

namespace DbusBroker

open Std

variable {ok : Core → Leave → Prop} {x : Aux} {b : Bus}

section Queue

variable (sizes : Sizes) (policy : Policy)

/-- The part of `peer_queue_unicast` behind the reply slot only queues. -/
theorem sent_peerQueueMessage (b : Bus) (senderUser : Uid) (receiver : ℕ) (m : Message) :
    Bus.Sent b [] (peerQueueMessage sizes policy b senderUser receiver m).1 ∧
      (peerQueueMessage sizes policy b senderUser receiver m).1.trace = b.trace := by
  have hqueue := sent_peerConnectionQueue sizes b receiver (some senderUser) m
  have htrace : (peerConnectionQueue sizes b receiver (some senderUser) m).1.trace = b.trace := rfl
  rw [peerQueueMessage]
  split
  · exact ⟨.refl b, rfl⟩
  · split
    · exact ⟨.refl b, rfl⟩
    · cases hresult : peerConnectionQueue sizes b receiver (some senderUser) m with
      | mk b' r =>
        rw [hresult] at hqueue htrace
        cases r with
        | success => exact ⟨hqueue, htrace⟩
        | quota => exact ⟨hqueue, htrace⟩
        | unexpectedFds => exact ⟨hqueue, htrace⟩

/-- A call is filed and dropped again. -/
theorem moves_unfiled (h : Good x b.core) {callee caller : ℕ} {serial : UInt32}
    (hnone : (b.replies.replyTree callee).find? (caller, serial) = none) (charge : UserCharge) {b' : Bus}
    (hcore : b'.core = { b.core with
      replies := (b.replies.file callee caller serial charge).drop callee caller serial b.replies.slots.next })
    (htrace : b'.trace = b.trace) : Moves ok (x, b) (x, b') := by
  have hbooks : ReplyBooks b.replies := h.replies.books
  obtain ⟨htree, hlist⟩ := hbooks.drop_file hnone charge
  have hfind : ((b.replies.file callee caller serial charge).replyTree callee).find? (caller, serial) =
      some b.replies.slots.next := by
    rw [ReplyWorld.find?_file, if_pos ⟨rfl, rfl⟩]
  have hdropped := (hbooks.file hnone charge).drop hfind
  have hslots : (b.replies.file callee caller serial charge).drop callee caller serial b.replies.slots.next =
      { b.replies with
        slots := ((b.replies.file callee caller serial charge).drop callee caller serial b.replies.slots.next).slots } := by
    show _ = ReplyWorld.mk b.replies.replyTree b.replies.replyList _
    rw [← htree, ← hlist]
  rw [hslots] at hcore hdropped
  have hchange : Change ok x b.core x b'.core [] := by
    rw [hcore]
    exact .slots x b.core _ hdropped
  exact .single (hchange.move_nil htrace)

/-- `peer_queue_unicast` with a reply slot. -/
theorem moves_peerQueueUnicast_tracked (h : Good x b.core) {senderId receiver : ℕ} (senderUser : Uid) (m : Message)
    (hserial : messageReadSerial m ≠ 0) (hreceiver : b.core.isRegistered receiver = true)
    (hsender : b.core.isRegistered senderId = true) (hleaving : x.leaving = none) :
    Moves ok (x, b) (x, (peerQueueUnicast sizes policy b true senderUser senderId receiver m).1) ∧
      ∃ w', (peerQueueUnicast sizes policy b true senderUser senderId receiver m).1.core = { b.core with replies := w' } := by
  have hbooks : ReplyBooks b.replies := h.replies.books
  rw [peerQueueUnicast]
  dsimp only
  rw [if_pos (by simpa using hserial)]
  obtain ⟨hexists, -⟩ | ⟨hnone, hrest⟩ := replySlotNew_cases b.users b.replies receiver senderId (b.userOf receiver)
    (some senderUser) (messageReadSerial m)
  · rw [hexists]
    exact ⟨.refl, b.replies, rfl⟩
  · obtain ⟨users', s, hquota⟩ | ⟨users', charge, hfiled⟩ := hrest
    · rw [hquota]
      have hchange : Change ok x b.core x { b.core with replies := { b.replies with slots := b.replies.slots.alloc s } } [] :=
        .slots x b.core _ (hbooks.alloc s)
      exact ⟨.single (hchange.move_nil rfl), _, rfl⟩
    · rw [hfiled]
      dsimp only
      obtain ⟨hsent, htrace⟩ := sent_peerQueueMessage sizes policy
        { b with users := users', replies := b.replies.file receiver senderId (messageReadSerial m) charge } senderUser
        receiver m
      have hcore := hsent.core_eq
      split
      · next b' heq =>
        rw [heq] at hcore htrace
        have hchange : Change ok x b.core x (b'.log [.called receiver senderId (messageReadSerial m)]).core
            [.called receiver senderId (messageReadSerial m)] := by
          show Change ok x b.core x b'.core _
          rw [hcore]
          exact .call x b.core receiver senderId _ charge hnone hreceiver hsender hserial hleaving
        refine ⟨.single (hchange.move (fun e he => ?_) ?_), _, hcore⟩
        · rw [List.mem_singleton.mp he]
          rfl
        · exact congrArg (· ++ _) htrace
      · next b' r _ heq =>
        rw [heq] at hcore htrace
        have hreplies : b'.replies = b.replies.file receiver senderId (messageReadSerial m) charge :=
          congrArg Core.replies hcore
        have hfind : (b'.replies.replyTree receiver).find? (senderId, messageReadSerial m) = some b.replies.slots.next := by
          rw [hreplies, ReplyWorld.find?_file, if_pos ⟨rfl, rfl⟩]
        have hfile : ReplyBooks b'.replies := by
          rw [hreplies]
          exact hbooks.file hnone charge
        have hfree : (busReplySlotFree b' b.replies.slots.next).core = { b.core with
            replies := (b.replies.file receiver senderId (messageReadSerial m) charge).drop receiver senderId
              (messageReadSerial m) b.replies.slots.next } := by
          show { b'.core with replies := (replySlotFree b'.users b'.replies b.replies.slots.next).2 } = _
          rw [hfile.replySlotFree_eq hfind, hcore, hreplies]
          rfl
        exact ⟨moves_unfiled h hnone charge hfree htrace, _, hfree⟩

/-- `peer_queue_unicast`, where a sender that is not there any more expects no reply. -/
theorem moves_peerQueueUnicast (h : Good x b.core) {tracked : Bool} {senderId receiver : ℕ} (senderUser : Uid) (m : Message)
    (hreceiver : b.core.isRegistered receiver = true) (hsender : tracked = true → b.core.isRegistered senderId = true)
    (hleaving : x.leaving = none) (hflushing : x.flushing = false) (harming : x.arming = none) :
    Moves ok (x, b) (x, (peerQueueUnicast sizes policy b tracked senderUser senderId receiver m).1) ∧
      ∃ w', (peerQueueUnicast sizes policy b tracked senderUser senderId receiver m).1.core =
        { b.core with replies := w' } := by
  obtain ⟨hsent, -⟩ := sent_peerQueueMessage sizes policy b senderUser receiver m
  by_cases hslot : tracked = true ∧ messageReadSerial m ≠ 0
  · obtain ⟨rfl, hserial⟩ := hslot
    exact moves_peerQueueUnicast_tracked sizes policy h senderUser m hserial hreceiver (hsender rfl) hleaving
  · have huntracked : peerQueueUnicast sizes policy b tracked senderUser senderId receiver m =
        peerQueueMessage sizes policy b senderUser receiver m := by
      rw [peerQueueUnicast, if_neg (by simpa using hslot)]
    rw [huntracked]
    exact ⟨moves_sent hsent hflushing harming, b.replies, hsent.core_eq⟩

/-- A reply slot is freed. -/
theorem core_busReplySlotFree (hbooks : ReplyBooks b.replies) {callee caller slot : ℕ} {serial : UInt32}
    (hfind : (b.replies.replyTree callee).find? (caller, serial) = some slot) :
    (busReplySlotFree b slot).core = { b.core with replies := b.replies.drop callee caller serial slot } := by
  show { b.core with replies := (replySlotFree b.users b.replies slot).2 } = _
  rw [hbooks.replySlotFree_eq hfind]

/-- A reply is queued, or lost, and its slot is used up. -/
theorem moves_answered (h : Good x b.core) {b₁ : Bus} {sender id slot : ℕ} {serial : UInt32}
    (hfind : (b.replies.replyTree sender).find? (id, serial) = some slot) (hsent : Bus.Sent b [] b₁)
    (htrace : b₁.trace = b.trace) (hleaving : x.leaving = none) (hflushing : x.flushing = false) :
    Moves ok (x, b) (x, busReplySlotFree (b₁.log [.answered sender id serial]) slot) := by
  have hbooks : ReplyBooks b.replies := h.replies.books
  have hcore := hsent.core_eq
  have hreplies : b₁.replies = b.replies := congrArg Core.replies hcore
  have hfree : (busReplySlotFree (b₁.log [.answered sender id serial]) slot).core =
      { b.core with replies := b.replies.drop sender id serial slot } := by
    rw [core_busReplySlotFree (b := b₁.log [.answered sender id serial]) (hreplies ▸ hbooks) (hreplies ▸ hfind)]
    show { b₁.core with replies := b₁.replies.drop sender id serial slot } = _
    rw [hcore, hreplies]
  have hchange : Change ok x b.core x (busReplySlotFree (b₁.log [.answered sender id serial]) slot).core
      [.answered sender id serial] := by
    rw [hfree]
    exact .endReply x b.core sender id slot serial _ hfind ⟨rfl, rfl, rfl, hleaving⟩ hflushing
  exact .single (hchange.move_one rfl (congrArg (· ++ _) htrace))

/-- `peer_queue_reply`. -/
theorem moves_peerQueueReply (h : Good x b.core) (sender : ℕ) (destination : Bytes) (replySerial : UInt32) (m : Message)
    (hleaving : x.leaving = none) (hflushing : x.flushing = false) :
    Moves ok (x, b) (x, (peerQueueReply sizes b sender destination replySerial m).1) := by
  have hbooks : ReplyBooks b.replies := h.replies.books
  rw [peerQueueReply]
  split
  · next id haddress =>
    cases hslot : replySlotGetById b.replies sender id replySerial with
    | none => exact .refl
    | some slot =>
      obtain ⟨s, hread, -, howner, -⟩ := hbooks.slot_of_find? hslot
      have hid : s.owner = id := howner
      have hqueue := sent_peerConnectionQueue sizes b id none m
      have htrace : (peerConnectionQueue sizes b id none m).1.trace = b.trace := rfl
      dsimp only
      rw [hread]
      dsimp only
      rw [hid]
      cases hresult : peerConnectionQueue sizes b id none m with
      | mk b₁ r =>
        rw [hresult] at hqueue htrace
        cases r with
        | success => exact moves_answered h hslot hqueue htrace hleaving hflushing
        | quota => exact moves_answered h hslot hqueue htrace hleaving hflushing
        | unexpectedFds =>
          exact moves_answered h hslot (hqueue.then_nil (.setConnection b₁ (hupIn_connectionShutdown _))) htrace hleaving
            hflushing
  · exact .refl

end Queue

section Leaving

variable {id slot : ℕ}

/-- A slot of a peer that leaves is dropped, and something is said about it. -/
theorem moves_endReply (h : Good x b.core) {b₁ : Bus} {callee caller : ℕ} {serial : UInt32} {event : Event}
    (hfind : (b.replies.replyTree callee).find? (caller, serial) = some slot)
    (hevent : endsReply x callee caller serial event) (hsent : Bus.Sent b [event] b₁) (hflushing : x.flushing = false)
    (harming : x.arming = none) :
    Moves ok (x, b) (x, busReplySlotFree b₁ slot) ∧
      (busReplySlotFree b₁ slot).core = { b.core with replies := b.replies.drop callee caller serial slot } := by
  have hbooks : ReplyBooks b.replies := h.replies.books
  have hcore := hsent.core_eq
  have hreplies : b₁.replies = b.replies := congrArg Core.replies hcore
  have hfree : (busReplySlotFree b₁ slot).core = { b.core with replies := b.replies.drop callee caller serial slot } := by
    rw [core_busReplySlotFree (b := b₁) (hreplies ▸ hbooks) (hreplies ▸ hfind), hcore, hreplies]
  have hchange : Change ok x b.core x (busReplySlotFree b₁ slot).core [event] := by
    rw [hfree]
    exact .endReply x b.core callee caller slot serial event hfind hevent hflushing
  obtain ⟨users, connections, events, hspeak, hhup, rfl⟩ := hsent
  refine ⟨.single ⟨[event], events, hchange, ⟨hspeak.said, hspeak.emissions⟩, rfl, fun hmute => ?_⟩, hfree⟩
  obtain hmute | hmute := hmute
  · rw [hflushing] at hmute
    cases hmute
  · exact absurd harming hmute

/-- The replies that a peer that leaves waits for are cancelled. -/
theorem moves_cancelReplies (h : Good x b.core) (hleaving : x.leaving = some id) (hparting : x.parting = true)
    (hflushing : x.flushing = false) (harming : x.arming = none) {slots : List ℕ} (hslots : b.replies.replyList id = slots) {b' : Bus}
    (hb' : slots.foldl driverCancelReply b = b') :
    Moves ok (x, b) (x, b') ∧ ∃ w', b'.core = { b.core with replies := w' } ∧ w'.replyList id = [] := by
  induction slots generalizing b with
  | nil =>
    subst hb'
    exact ⟨.refl, b.replies, rfl, hslots⟩
  | cons slot rest ih =>
    have hbooks : ReplyBooks b.replies := h.replies.books
    obtain ⟨s, hread, howner, hid, hfind⟩ := hbooks.find?_of_mem (hslots ▸ List.mem_cons_self : slot ∈ b.replies.replyList id)
    have hevent : endsReply x s.registry id s.serial (.cancelled s.registry s.owner s.serial) :=
      ⟨rfl, howner, rfl, hparting, .inl hleaving⟩
    obtain ⟨hmoves, hcore⟩ : Moves ok (x, b) _ ∧ _ :=
      moves_endReply h hfind hevent (.say b rfl) hflushing harming
    have hcancel : driverCancelReply b slot =
        busReplySlotFree (b.log [.cancelled s.registry s.owner s.serial]) slot := by
      rw [driverCancelReply, hread]
    rw [← hcancel] at hmoves hcore
    have hlist : (driverCancelReply b slot).replies.replyList id = rest := by
      have hreplies : (driverCancelReply b slot).replies = b.replies.drop s.registry id s.serial slot :=
        congrArg Core.replies hcore
      rw [hreplies]
      show Function.update b.replies.replyList id _ id = rest
      rw [Function.update_self, hslots, List.erase_cons_head]
    obtain ⟨hrest, w', hcore', hnil⟩ := ih (h.moves hmoves) hlist hb'
    refine ⟨hmoves.trans hrest, w', ?_, hnil⟩
    rw [hcore', hcore]

/-- A reply that a peer that leaves did not give. -/
theorem moves_driverExpireReply (sizes : Sizes) (h : Good x b.core) {silent : Bool} {key : ReplySlotKey}
    (hfind : (b.replies.replyTree id).find? key = some slot) (hother : key.1 ≠ id) (hleaving : x.leaving = some id)
    (hparting : x.parting = true) (hsilent : x.silent = silent) (hflushing : x.flushing = false) (harming : x.arming = none) :
    Moves ok (x, b) (x, driverExpireReply sizes silent b slot) ∧
      (driverExpireReply sizes silent b slot).core = { b.core with replies := b.replies.drop id key.1 key.2 slot } := by
  have hbooks : ReplyBooks b.replies := h.replies.books
  obtain ⟨s, hread, hregistry, howner, hserial, -⟩ := hbooks.slot_of_find? hfind
  rw [driverExpireReply, hread]
  dsimp only
  split
  · next hyes =>
    have hevent : endsReply x id key.1 key.2 (.cancelled s.registry s.owner s.serial) :=
      ⟨hregistry, howner, hserial, hparting, .inr ⟨hleaving, hsilent.trans hyes⟩⟩
    exact moves_endReply h hfind hevent (.say b rfl) hflushing harming
  · next hno =>
    have hevent : endsReply x id key.1 key.2 (.noReply s.registry s.owner s.serial) :=
      ⟨hregistry, howner, hserial, hleaving, hparting, hsilent.trans (Bool.eq_false_iff.mpr hno), hother⟩
    exact moves_endReply h hfind hevent ((Bus.Sent.say b rfl).then_nil (sent_driverSendError sizes _ _ _ _ _)) hflushing
      harming

/-- The replies that a peer that leaves did not give. -/
theorem moves_expireReplies (sizes : Sizes) (h : Good x b.core) {silent : Bool} (hleaving : x.leaving = some id)
    (hparting : x.parting = true) (hsilent : x.silent = silent) (hflushing : x.flushing = false) (harming : x.arming = none)
    {entries : List (ReplySlotKey × ℕ)} (hnodup : (entries.map Prod.fst).Nodup)
    (hentries : ∀ key slot, (b.replies.replyTree id).find? key = some slot ↔ (key, slot) ∈ entries)
    (hcalls : b.replies.replyList id = []) {b' : Bus}
    (hb' : (entries.map Prod.snd).foldl (driverExpireReply sizes silent) b = b') :
    Moves ok (x, b) (x, b') ∧
      ∃ w', b'.core = { b.core with replies := w' } ∧ w'.replyTree id = .empty ∧ w'.replyList id = [] := by
  induction entries generalizing b with
  | nil =>
    subst hb'
    refine ⟨.refl, b.replies, rfl, ?_, hcalls⟩
    refine SearchTree.ext_find? fun key => ?_
    rw [SearchTree.find?_empty]
    cases hfind : (b.replies.replyTree id).find? key with
    | none => rfl
    | some slot => exact absurd ((hentries key slot).mp hfind) List.not_mem_nil
  | cons e rest ih =>
    rw [List.map_cons, List.nodup_cons] at hnodup
    have hfind := (hentries e.1 e.2).mpr List.mem_cons_self
    have hother : e.1.1 ≠ id := by
      intro heq
      have hout : b.replies.Outstanding id e.1.1 e.1.2 := Option.isSome_of_eq_some hfind
      exact h.replies.replyList_ne_nil hout (heq ▸ hcalls)
    obtain ⟨hmoves, hcore⟩ : Moves ok (x, b) _ ∧ _ :=
      moves_driverExpireReply sizes h hfind hother hleaving hparting hsilent hflushing harming
    have hreplies : (driverExpireReply sizes silent b e.2).replies = b.replies.drop id e.1.1 e.1.2 e.2 :=
      congrArg Core.replies hcore
    have hcalls' : (driverExpireReply sizes silent b e.2).replies.replyList id = [] := by
      rw [hreplies]
      show Function.update b.replies.replyList e.1.1 _ id = []
      by_cases hid : id = e.1.1
      · rw [hid, Function.update_self, ← hid, hcalls, List.erase_nil]
      · rw [Function.update_of_ne hid, hcalls]
    obtain ⟨hrest, w', hcore', hdone⟩ := ih (h.moves hmoves) hnodup.2 (fun key slot => by
      rw [hreplies, ReplyWorld.find?_drop]
      by_cases hkey : key = e.1
      · rw [if_pos ⟨rfl, hkey⟩, hkey]
        exact iff_of_false (fun hnone => nomatch hnone) fun hmem => hnodup.1 (List.mem_map.mpr ⟨_, hmem, rfl⟩)
      · rw [if_neg fun hboth => hkey hboth.2, hentries, List.mem_cons]
        exact or_iff_right fun heq => hkey (congrArg Prod.fst heq)) hcalls' hb'
    refine ⟨hmoves.trans hrest, w', ?_, hdone⟩
    rw [hcore', hcore]

end Leaving

end DbusBroker
