import DbusBroker.Dbus.FramingRun

/-!
# Attribution of file descriptors

A set of descriptors belongs to the item that contains the last byte of the piece it came with. The sets
received so far are therefore a sequence of groups, one for each item that was taken, followed by those of
the item that is being received and by the one that waits in the input buffer.
-/

namespace DbusBroker

/-! ## Groups -/

/-- The sets are one group for each item, and the item has the first set of its group. The others of a group were read
straight to the target; these are the ones that were discarded. -/
def Attributed : ℕ → List (Item × Option (List ℕ)) → List FdSet → List FdSet → Prop
  | _, [], sets, discarded => sets = [] ∧ discarded = []
  | start, (item, fds) :: rest, sets, discarded =>
    ∃ group sets' discarded', sets = group ++ sets' ∧ discarded = group.tail ++ discarded' ∧
      (∀ s ∈ group, start < s.stop ∧ s.stop ≤ start + item.size) ∧ (∀ s ∈ group.tail, s.direct = true) ∧
      fds = group.head?.map (·.fds) ∧ Attributed (start + item.size) rest sets' discarded'

theorem itemsSize_cons (item : Item × Option (List ℕ)) (rest : List (Item × Option (List ℕ))) :
    itemsSize (item :: rest) = item.1.size + itemsSize rest := by
  simp [itemsSize]

theorem itemsSize_concat (items : List (Item × Option (List ℕ))) (item : Item × Option (List ℕ)) :
    itemsSize (items ++ [item]) = itemsSize items + item.1.size := by
  simp [itemsSize]

/-- One more item with its group. -/
theorem Attributed.concat {items : List (Item × Option (List ℕ))} {start : ℕ} {sets discarded : List FdSet}
    (h : Attributed start items sets discarded) {item : Item} {fds : Option (List ℕ)} {group : List FdSet}
    (hgroup : ∀ s ∈ group, start + itemsSize items < s.stop ∧ s.stop ≤ start + itemsSize items + item.size)
    (hdirect : ∀ s ∈ group.tail, s.direct = true) (hfds : fds = group.head?.map (·.fds)) :
    Attributed start (items ++ [(item, fds)]) (sets ++ group) (discarded ++ group.tail) := by
  induction items generalizing start sets discarded with
  | nil =>
    obtain ⟨rfl, rfl⟩ := h
    refine ⟨group, [], [], by simp, by simp, ?_, hdirect, hfds, rfl, rfl⟩
    simpa [itemsSize] using hgroup
  | cons first rest ih =>
    obtain ⟨g, sets', discarded', rfl, rfl, hg, hgd, hgf, hrest⟩ := h
    refine ⟨g, sets' ++ group, discarded' ++ group.tail, by simp, by simp, hg, hgd, hgf, ih hrest ?_⟩
    rw [itemsSize_cons] at hgroup
    simpa [Nat.add_assoc] using hgroup

/-! ## The invariant -/

/-- The sets that a feed has received: those of the items that were taken, those of the item that is being received,
and one that waits for the end of the input buffer. All but the first of an item were read straight to the target and
discarded. A socket that was closed because of descriptors has met one in its input buffer, among lines or after
another one for the same message. -/
structure Feed.FdsState (f : Feed) (old oldDiscarded current buffered : List FdSet) : Prop where
  sets : f.sets = old ++ (current ++ buffered)
  discarded : f.discarded = oldDiscarded ++ current.tail
  items : Attributed 0 f.items old oldDiscarded
  place : ∀ s ∈ current, itemsSize f.items < s.stop ∧ s.stop ≤ f.received
  direct : ∀ s ∈ current.tail, s.direct = true
  waiting : ∀ s ∈ buffered, s.stop = f.received ∧ s.direct = false
  opened : f.socket.violation = none →
    buffered = f.socket.queue.fds.toList.map (⟨f.received, ·, false⟩) ∧
      (∀ s ∈ current, s.stop ≤ itemsSize f.items + f.socket.held.length) ∧
      f.socket.queue.targetFds = current.head?.map (·.fds)
  closed : f.socket.violation = some .unexpectedFds → buffered ≠ [] ∧ (f.mode = .messages → current ≠ [])

/-- The sets of a feed can be told apart in this way. -/
def Feed.FdsAttributed (f : Feed) : Prop :=
  ∃ old oldDiscarded current buffered, f.FdsState old oldDiscarded current buffered

theorem fdsAttributed_init (stream : Bytes) : (Feed.init stream).FdsAttributed :=
  ⟨[], [], [], [], rfl, rfl, ⟨rfl, rfl⟩, nofun, nofun, nofun, fun _ => ⟨rfl, nofun, rfl⟩, nofun⟩

/-- Without descriptors for the target there is no set for the current item. -/
theorem current_eq_nil {current : List FdSet} {fds : Option (List ℕ)} (h : fds = current.head?.map (·.fds))
    (hnone : fds = none) : current = [] := by
  cases current with
  | nil => rfl
  | cons s rest => exact nomatch hnone.symm.trans h

/-- What a copy moves: the buffered set joins those of the current item, if there were none. -/
theorem movedFds_cases {f : Feed} {mode : Mode} {old oldDiscarded current buffered : List FdSet}
    (h : f.FdsState old oldDiscarded current buffered) (hopen : f.socket.violation = none)
    (hco : f.socket.Coherent mode) {w : Bytes}
    (hsingle : ¬(w = [] ∧ f.socket.queue.fds.isSome ∧ f.socket.queue.targetFds.isSome)) :
    (f.socket.queue.movedFds w = (f.socket.queue.fds, f.socket.queue.targetFds)) ∨
    ∃ set, w = [] ∧ current = [] ∧ buffered = [⟨f.received, set, false⟩] ∧
      f.socket.queue.movedFds w = (none, some set) ∧ f.socket.queue.window ≠ [] := by
  obtain ⟨hbuffered, -, htarget⟩ := h.opened hopen
  by_cases hmoved : w = [] ∧ f.socket.queue.fds.isSome
  · obtain ⟨set, hset⟩ := Option.isSome_iff_exists.mp hmoved.2
    have hnone : f.socket.queue.targetFds = none := by
      by_contra hne
      exact hsingle ⟨hmoved.1, hmoved.2, Option.isSome_iff_ne_none.mpr hne⟩
    refine .inr ⟨set, hmoved.1, current_eq_nil htarget hnone, ?_, ?_, hco.window_ne_nil hmoved.2⟩
    · rw [hbuffered, hset]
      rfl
    · rw [IQueue.movedFds, hmoved.1, hset]
      rfl
  · refine .inl ?_
    rw [IQueue.movedFds, if_neg]
    rw [Bool.and_eq_true, List.isEmpty_iff]
    exact hmoved

/-- The parser does not know about descriptors. -/
theorem nextItem_ne_unexpectedFds (mode : Mode) (w : Bytes) : nextItem mode w ≠ .violation .unexpectedFds := by
  cases mode with
  | lines sofar =>
    simp only [nextItem]
    split
    · simp
    · split <;> simp
  | messages =>
    simp only [nextItem]
    split
    · simp
    · split
      · simp
      · split <;> simp

/-- Closing the socket leaves the sets as they are. -/
theorem Feed.FdsState.closes {f : Feed} {old oldDiscarded current buffered : List FdSet}
    (h : f.FdsState old oldDiscarded current buffered) {s' : SocketIn} {v : Violation}
    (hc : f.socket.Closes f.mode s' v) :
    ({ f with socket := s' } : Feed).FdsState old oldDiscarded current buffered := by
  refine ⟨h.sets, h.discarded, h.items, h.place, h.direct, h.waiting, fun hnone => ?_, fun hv => ?_⟩
  · have hsome := hc.violation.symm.trans hnone
    cases hold : f.socket.violation <;> rw [hold] at hsome <;> exact nomatch hsome
  · have hv := hc.violation.symm.trans hv
    cases hold : f.socket.violation with
    | some v' =>
      rw [hold] at hv
      exact h.closed (hold.trans hv)
    | none =>
      rw [hold] at hv
      cases hv
      obtain ⟨hbuffered, -, htarget⟩ := h.opened hold
      rcases hc.cause with hnext | ⟨-, hfds, hmode⟩
      · exact absurd hnext (nextItem_ne_unexpectedFds _ _)
      · refine ⟨fun hnil => ?_, fun hmessages hnil => ?_⟩
        · rw [hnil] at hbuffered
          obtain ⟨set, hset⟩ := Option.isSome_iff_exists.mp hfds
          rw [hset] at hbuffered
          exact nomatch hbuffered
        · have hsome := hmode hmessages
          rw [htarget, hnil] at hsome
          exact nomatch hsome

/-- Taking the next item. -/
theorem Feed.FdsAttributed.pop {auth : Sasl} {stream : Bytes} {f : Feed} (h : f.FdsAttributed)
    (hf : f.Framed auth stream) : (f.pop auth).FdsAttributed := by
  obtain ⟨old, oldDiscarded, current, buffered, h⟩ := h
  rcases Feed.pop_cases auth hf.socket with ⟨s', hw, heq⟩ | ⟨s', v, hc, heq⟩ | ⟨s', item, fds, ht, hco, heq⟩
  · rw [heq]
    cases hv : f.socket.violation with
    | some v =>
      have hv' : s'.violation = some v := hw.violation.trans hv
      refine ⟨old, oldDiscarded, current, buffered, h.sets, h.discarded, h.items, h.place, h.direct, h.waiting,
        (fun hnone => by cases hv'.symm.trans hnone), fun hunexpected => h.closed ?_⟩
      exact hw.violation.symm.trans hunexpected
    | none =>
      have hv' : s'.violation = none := hw.violation.trans hv
      obtain ⟨hbuffered, hcurrent, htarget⟩ := h.opened hv
      have hoffset := hf.offset hv
      have hrest := congrArg List.length hw.rest
      rw [SocketIn.rest, SocketIn.rest, List.length_append, List.length_append] at hrest
      rw [SocketIn.rest, List.length_append] at hoffset
      have hheld : f.socket.held.length ≤ s'.held.length := by
        obtain ⟨k, hk⟩ := hw.window
        rw [hk, List.length_drop] at hrest
        omega
      rcases movedFds_cases h hv hf.socket hw.single with hsame | ⟨set, hnil, rfl, rfl, hmoved, hne⟩
      · obtain ⟨h1, h2⟩ := Prod.mk.inj (hw.fds.trans hsame)
        refine ⟨old, oldDiscarded, current, buffered, h.sets, h.discarded, h.items, h.place, h.direct, h.waiting,
          fun _ => ⟨?_, fun s hs => ?_, ?_⟩, fun hunexpected => by cases hv'.symm.trans hunexpected⟩
        · rw [hbuffered, ← show s'.queue.fds = f.socket.queue.fds from h1]
        · exact Nat.le_trans (hcurrent s hs) (Nat.add_le_add_left hheld _)
        · exact h2.trans htarget
      · obtain ⟨h1, h2⟩ := Prod.mk.inj (hw.fds.trans hmoved)
        have hpos := List.length_pos_of_ne_nil hne
        rw [hnil, List.length_nil] at hrest
        refine ⟨old, oldDiscarded, [⟨f.received, set, false⟩], [], h.sets, h.discarded, h.items, ?_, (by simp), (by simp),
          fun _ => ⟨?_, ?_, ?_⟩, fun hunexpected => by cases hv'.symm.trans hunexpected⟩
        · intro s hs
          rw [List.mem_singleton.mp hs]
          exact ⟨by show itemsSize f.items < f.received; omega, Nat.le_refl _⟩
        · show [] = s'.queue.fds.toList.map _
          rw [h1]
          rfl
        · intro s hs
          rw [List.mem_singleton.mp hs]
          show f.received ≤ itemsSize f.items + s'.held.length
          omega
        · exact h2
  · rw [heq]
    exact ⟨old, oldDiscarded, current, buffered, h.closes hc⟩
  · have hv : f.socket.violation = none := by
      by_contra hsome
      have hnext := ht.next
      rw [(hf.closed (Option.isSome_iff_ne_none.mpr hsome)).1, nextItem_nil] at hnext
      cases hnext
    have hv' : s'.violation = none := ht.violation.trans hv
    obtain ⟨hbuffered, hcurrent, htarget⟩ := h.opened hv
    have hoffset := hf.offset hv
    have hsize := size_of_nextItem ht.next
    have hrest := congrArg List.length ht.rest
    rw [SocketIn.rest, ht.held, List.nil_append, List.length_drop] at hrest
    have hheld : f.socket.held.length ≤ item.size := by
      obtain ⟨k, hk⟩ := ht.window
      rw [hk, List.length_drop, SocketIn.rest, List.length_append] at hrest
      rw [SocketIn.rest, List.length_append] at hsize
      omega
    have hreceived : f.received = itemsSize (f.items ++ [(item, fds)]) + s'.queue.window.length := by
      rw [itemsSize_concat, hoffset]
      show _ = itemsSize f.items + item.size + _
      omega
    rw [heq]
    rcases movedFds_cases h hv hf.socket ht.single with hsame | ⟨set, hnil, rfl, rfl, hmoved, hne⟩
    · have hpopped := ht.popped
      have hfds := ht.fds
      rw [hsame] at hpopped hfds
      obtain ⟨h1, h2⟩ := Prod.mk.inj hfds
      refine ⟨old ++ current, oldDiscarded ++ current.tail, [], buffered, ?_, ?_, h.items.concat (fun s hs => ?_) h.direct
        (hpopped.trans htarget), (by simp), (by simp), h.waiting, fun _ => ⟨?_, (by simp), h2⟩,
        fun hunexpected => by cases hv'.symm.trans hunexpected⟩
      · rw [List.append_assoc]
        exact h.sets
      · rw [List.tail_nil, List.append_nil]
        exact h.discarded
      · have hs' := hcurrent s hs
        have hlt := (h.place s hs).1
        rw [Nat.zero_add]
        omega
      · rw [hbuffered, ← show s'.queue.fds = f.socket.queue.fds from h1]
    · have hpopped := ht.popped
      have hfds := ht.fds
      rw [hmoved] at hpopped hfds
      obtain ⟨h1, h2⟩ := Prod.mk.inj hfds
      rw [hnil, List.length_nil] at hreceived
      have hpopped' : fds = [(⟨f.received, set, false⟩ : FdSet)].head?.map (·.fds) := hpopped
      refine ⟨old ++ [⟨f.received, set, false⟩], oldDiscarded ++ [], [], [], ?_, ?_,
        h.items.concat (fun s hs => ?_) (List.forall_mem_nil _) hpopped', (by simp), (by simp), (by simp), fun _ => ⟨?_, (by simp), h2⟩,
        fun hunexpected => by cases hv'.symm.trans hunexpected⟩
      · rw [List.append_nil, List.append_nil]
        exact h.sets
      · rw [List.append_nil]
        exact h.discarded
      · rw [List.mem_singleton.mp hs, Nat.zero_add]
        rw [itemsSize_concat] at hreceived
        show itemsSize f.items < f.received ∧ f.received ≤ itemsSize f.items + item.size
        rw [hreceived]
        exact ⟨by show _ < itemsSize f.items + item.size + 0; omega, Nat.le_refl _⟩
      · show [] = s'.queue.fds.toList.map _
        rw [h1]
        rfl

/-- A read. -/
theorem Feed.FdsAttributed.read {auth : Sasl} {stream : Bytes} {f : Feed} (h : f.FdsAttributed)
    (hf : f.Framed auth stream) (size : ℕ) (fds : List ℕ) : (f.read size fds).FdsAttributed := by
  obtain ⟨old, oldDiscarded, current, buffered, h⟩ := h
  rcases Feed.read_cases hf.socket size fds with
    ⟨s', hr, heq, -⟩ | ⟨s', hc, heq⟩ | ⟨s', piece, direct, spurious, hr, hne, hopen, hunread, heq⟩
  · rw [heq]
    refine ⟨old, oldDiscarded, current, buffered, h.sets, h.discarded, h.items, h.place, h.direct, h.waiting, ?_, ?_⟩
    · show s'.violation = none → _ = s'.queue.fds.toList.map _ ∧ (∀ s ∈ current, s.stop ≤ _ + s'.held.length) ∧
        s'.queue.targetFds = _
      rw [hr.violation, hr.fds, hr.held, hr.targetFds]
      exact h.opened
    · show s'.violation = _ → _
      rw [hr.violation]
      exact h.closed
  · rw [heq]
    exact ⟨old, oldDiscarded, current, buffered, h.closes hc⟩
  · have hv' : s'.violation = none := hr.violation.trans hopen
    obtain ⟨hbuffered, hcurrent, htarget⟩ := h.opened hopen
    have hoffset := hf.offset hopen
    have hsets : f.sets = old ++ current := by
      rw [h.sets, hbuffered, hr.drained]
      simp
    have hplace : ∀ s ∈ current, itemsSize f.items < s.stop ∧ s.stop ≤ f.received + piece.length :=
      fun s hs => ⟨(h.place s hs).1, Nat.le_trans (h.place s hs).2 (Nat.le_add_right _ _)⟩
    have hpos := List.length_pos_of_ne_nil hne
    have hunexpected {P : Prop} : s'.violation = some .unexpectedFds → P :=
      fun hsome => by cases hv'.symm.trans hsome
    rw [heq]
    rcases hr.place with ⟨hheld, hqfds, hqtarget, rfl, rfl⟩ | ⟨hnil, hnil', hqfds, hqtarget, rfl, rfl⟩
    · -- The new set waits in the input buffer.
      refine ⟨old, oldDiscarded, current, (fdsOption fds).toList.map (⟨f.received + piece.length, ·, false⟩), ?_, ?_,
        h.items, hplace, h.direct, ?_, fun _ => ⟨?_, ?_, hqtarget.trans htarget⟩, hunexpected⟩
      · rw [hsets, List.append_assoc]
      · rw [if_neg Bool.false_ne_true, List.append_nil]
        exact h.discarded
      · intro s hs
        obtain ⟨set, -, rfl⟩ := List.mem_map.mp hs
        exact ⟨rfl, rfl⟩
      · rw [← hqfds]
      · intro s hs
        show s.stop ≤ itemsSize f.items + s'.held.length
        rw [hheld]
        exact hcurrent s hs
    · -- The new set belongs to the current message, which takes it if it has none.
      rw [SocketIn.rest, hnil, List.append_nil] at hoffset
      have hheld : s'.held.length = f.socket.held.length + piece.length := by
        have hlen := congrArg List.length hr.rest
        rw [SocketIn.rest, SocketIn.rest, hnil, hnil', List.append_nil, List.append_nil, List.length_append] at hlen
        exact hlen
      have hnew : ∀ s ∈ current ++ (fdsOption fds).toList.map (⟨f.received + piece.length, ·, true⟩),
          itemsSize f.items < s.stop ∧ s.stop ≤ f.received + piece.length := by
        intro s hs
        rcases List.mem_append.mp hs with hs | hs
        · exact hplace s hs
        · obtain ⟨set, -, rfl⟩ := List.mem_map.mp hs
          show itemsSize f.items < f.received + piece.length ∧ _ ≤ f.received + piece.length
          exact ⟨by omega, Nat.le_refl _⟩
      refine ⟨old, oldDiscarded, current ++ (fdsOption fds).toList.map (⟨f.received + piece.length, ·, true⟩), [], ?_, ?_,
        h.items, hnew, ?_, (by simp), fun _ => ⟨?_, ?_, ?_⟩, hunexpected⟩
      · rw [hsets, List.append_nil, List.append_assoc]
      · show f.discarded ++ _ = _
        rw [h.discarded, htarget]
        cases current with
        | nil => cases fdsOption fds <;> simp
        | cons first rest => simp
      · intro s hs
        cases current with
        | nil =>
          cases hset : fdsOption fds with
          | none => rw [hset] at hs; cases hs
          | some set => rw [hset] at hs; cases hs
        | cons first rest =>
          rcases List.mem_append.mp hs with hs | hs
          · exact h.direct s hs
          · obtain ⟨set, -, rfl⟩ := List.mem_map.mp hs
            rfl
      · show [] = s'.queue.fds.toList.map _
        rw [hqfds]
        rfl
      · intro s hs
        have hle := (hnew s hs).2
        show s.stop ≤ itemsSize f.items + s'.held.length
        omega
      · show s'.queue.targetFds = _
        rw [hqtarget, htarget]
        cases current with
        | nil => cases fdsOption fds <;> rfl
        | cons first rest => rfl

/-- A set that waits came with bytes that no item was taken from yet and that the current one did not copy. -/
theorem Feed.FdsState.waits {auth : Sasl} {stream : Bytes} {f : Feed} {old oldDiscarded current buffered : List FdSet}
    (h : f.FdsState old oldDiscarded current buffered) (hf : f.Framed auth stream) (hopen : f.socket.violation = none) :
    ∀ s ∈ buffered, itemsSize f.items + f.socket.held.length < s.stop ∧
      s.stop = itemsSize f.items + f.socket.held.length + f.socket.queue.window.length := by
  intro s hs
  have hoffset := hf.offset hopen
  rw [SocketIn.rest, List.length_append] at hoffset
  have hfds : f.socket.queue.fds.isSome := by
    rw [(h.opened hopen).1] at hs
    cases hset : f.socket.queue.fds with
    | none =>
      rw [hset] at hs
      cases hs
    | some set => rfl
  have hpos := List.length_pos_of_ne_nil (hf.socket.window_ne_nil hfds)
  rw [(h.waiting s hs).1]
  omega

/-- For every stream and every descriptors that come along with the pieces it is read in: each set belongs to the item
that contains the last byte of its piece; the item has the first of its sets; another one for the same item is
discarded if its piece was read straight to the message, and closes the socket if it came through the input buffer.
A set that waits came with the last byte of the input buffer. -/
theorem Feed.run_fdsAttributed (auth : Sasl) (stream : Bytes) (ops : List FeedOp) :
    let f := Machine.run (Feed.step auth) (Feed.init stream) ops
    ∃ old oldDiscarded current buffered, f.FdsState old oldDiscarded current buffered ∧
      (f.socket.violation = none → ∀ s ∈ buffered, itemsSize f.items + f.socket.held.length < s.stop ∧
        s.stop = itemsSize f.items + f.socket.held.length + f.socket.queue.window.length) := by
  have hinv (f : Feed) (hf : f.Framed auth stream) (ha : f.FdsAttributed) (ops : List FeedOp) :
      (Machine.run (Feed.step auth) f ops).Framed auth stream ∧ (Machine.run (Feed.step auth) f ops).FdsAttributed := by
    induction ops generalizing f with
    | nil => exact ⟨hf, ha⟩
    | cons op rest ih =>
      refine ih _ (hf.step op) ?_
      cases op with
      | read size fds => exact ha.read hf size fds
      | pop => exact ha.pop hf
  obtain ⟨hf, old, oldDiscarded, current, buffered, h⟩ :=
    hinv _ (framed_init auth stream) (fdsAttributed_init stream) ops
  exact ⟨old, oldDiscarded, current, buffered, h, fun hopen => h.waits hf hopen⟩

/-- An empty line and a message with a body of that many zeros, less than 2¹⁶. -/
def lineAndBody (n : ℕ) : Bytes :=
  [0x0d, 0x0a] ++ [0x6c, 1, 0, 1, UInt8.ofNat n, UInt8.ofNat (n / 256), 0, 0, 1, 0, 0, 0, 0, 0, 0, 0] ++
    List.replicate n 0

/-- The stream with one set of descriptors on the header of the message and another one on its end. -/
def twoSets (n : ℕ) : Feed :=
  Machine.run (Feed.step fun _ => true) (Feed.init (lineAndBody n))
    [.read 1 [], .pop, .read 15 [7], .pop, .read n [8], .pop]

/-- The second set for a message is dropped if the end of the message is read straight to it, and closes the socket if
it is read to the input buffer. -/
theorem twoSets_direct_and_buffered :
    ((twoSets 4096).socket.violation = none ∧ (twoSets 4096).items.map (·.2) = [none, some [7]] ∧
      (twoSets 4096).discarded.map (·.fds) = [[8]]) ∧
    (twoSets 16).socket.violation = some .unexpectedFds := by
  decide +kernel

end DbusBroker
