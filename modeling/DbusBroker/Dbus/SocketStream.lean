import DbusBroker.Dbus.SocketOut

/-!
# The output stream

What the kernel took and what is left in the queue are together what was queued, in order. Each
operation keeps this as long as `sendmmsg` keeps its contract, so it holds after every run. The
replacement of `sendmmsg` for Zephyr keeps the contract exactly as long as a short send is
followed by a refusal.
-/

namespace DbusBroker

/-! ## Bytes with control data -/

@[simp] theorem wireBytes_nil (c : Option (List ℕ)) : wireBytes c [] = [] := rfl

@[simp] theorem wireBytes_eq_nil_iff (c : Option (List ℕ)) (bs : Bytes) : wireBytes c bs = [] ↔ bs = [] := by
  cases bs <;> simp [wireBytes]

/-- Without control data every byte is on its own. -/
theorem wireBytes_none (bs : Bytes) : wireBytes none bs = bs.map (·, none) := by
  cases bs <;> rfl

/-- The control data stays with the first part. -/
theorem wireBytes_append (c : Option (List ℕ)) {xs : Bytes} (ys : Bytes) (h : xs ≠ []) :
    wireBytes c (xs ++ ys) = wireBytes c xs ++ wireBytes none ys := by
  obtain ⟨b, rest, rfl⟩ := List.exists_cons_of_ne_nil h
  rw [wireBytes_none, List.cons_append, wireBytes, wireBytes, List.map_append, List.cons_append]

/-- A non-empty part and the rest are the whole. -/
theorem wireBytes_take_drop (c : Option (List ℕ)) {bs : Bytes} {n : ℕ} (hn : 0 < n) (hbs : bs ≠ []) :
    wireBytes c (bs.take n) ++ wireBytes none (bs.drop n) = wireBytes c bs := by
  have hne : bs.take n ≠ [] := by
    rw [Ne, List.take_eq_nil_iff]
    exact fun h => h.elim (Nat.ne_of_gt hn) hbs
  rw [← wireBytes_append c _ hne, List.take_append_drop]

/-! ## One buffer -/

@[simp] theorem iovBytes_nil : iovBytes [] = [] := rfl

@[simp] theorem iovBytes_cons (v : IoVec) (rest : List IoVec) : iovBytes (v :: rest) = v.bytes ++ iovBytes rest :=
  List.flatMap_cons

@[simp] theorem iovBytes_append (xs ys : List IoVec) : iovBytes (xs ++ ys) = iovBytes xs ++ iovBytes ys :=
  List.flatMap_append

/-- What the loop over the vectors does with an amount that they hold. -/
structure Consumed (vecs : List IoVec) (n : ℕ) (vecs' : List IoVec) (k left : ℕ) : Prop where
  ends : vecs'.map (fun v => v.base + v.bytes.length) = vecs.map (fun v => v.base + v.bytes.length)
  left : left = 0
  bytes : iovBytes vecs' = (iovBytes vecs).drop n
  advance : k ≤ vecs.length
  sent : iovBytes (vecs'.take k) = []
  rest : k < vecs.length → iovBytes vecs' ≠ []

/-- The loop keeps the number of vectors. -/
theorem Consumed.length {vecs vecs' : List IoVec} {n k left : ℕ} (h : Consumed vecs n vecs' k left) :
    vecs'.length = vecs.length := by
  simpa using congrArg List.length h.ends

/-- The loop takes exactly the amount from the front. -/
theorem consumed_consumeVecs (vecs : List IoVec) (n : ℕ) (hn : n ≤ (iovBytes vecs).length) :
    Consumed vecs n (consumeVecs vecs n).1 (consumeVecs vecs n).2.1 (consumeVecs vecs n).2.2 := by
  induction vecs generalizing n with
  | nil =>
    have hn : n = 0 := by simpa using hn
    subst hn
    exact ⟨rfl, rfl, rfl, Nat.le_refl _, rfl, fun h => absurd h (Nat.lt_irrefl _)⟩
  | cons v rest ih =>
    simp only [consumeVecs]
    rw [iovBytes_cons, List.length_append] at hn
    by_cases hlt : n < v.bytes.length
    · have hne : v.bytes.drop n ≠ [] := by
        rw [Ne, List.drop_eq_nil_iff]
        omega
      rw [Nat.min_eq_right (Nat.le_of_lt hlt), if_pos hne]
      refine ⟨?_, Nat.sub_self n, ?_, Nat.zero_le _, rfl, fun _ => ?_⟩
      · simp only [List.map_cons, List.length_drop, List.cons.injEq, and_true]
        omega
      · rw [iovBytes_cons, iovBytes_cons, List.drop_append_of_le_length (Nat.le_of_lt hlt)]
      · rw [iovBytes_cons]
        exact List.append_ne_nil_of_left_ne_nil hne _
    · have hle : v.bytes.length ≤ n := Nat.le_of_not_lt hlt
      have hdrop : v.bytes.drop v.bytes.length = [] := List.drop_length
      have hc := ih (n - v.bytes.length) (by omega)
      rw [Nat.min_eq_left hle, if_neg (by simp)]
      refine ⟨?_, hc.left, ?_, ?_, ?_, ?_⟩
      · simp only [List.map_cons, hc.ends, hdrop, List.length_nil, Nat.add_zero]
      · simp only [iovBytes_cons, hdrop, List.nil_append, hc.bytes]
        rw [List.drop_append, List.drop_eq_nil_of_le hle, List.nil_append]
      · simpa using hc.advance
      · simpa [hdrop] using hc.sent
      · intro h
        simp only [List.length_cons, Nat.add_lt_add_iff_right] at h
        simpa [hdrop] using hc.rest h

/-- What is still to be sent of a buffer. -/
def WriteBuffer.rest (b : WriteBuffer) : List WireByte := wireBytes b.control (iovBytes b.vecs)

/-- A buffer that is on the queue or was sent: the vectors before the writer are sent, what is left is the end
of what was put in, and a line buffer has one vector that fits its room. -/
structure WriteBuffer.Coherent (b : WriteBuffer) : Prop where
  sent : iovBytes (b.vecs.take (b.writer.getD 0)) = []
  writer : b.writer.getD 0 ≤ b.vecs.length
  suffix : b.rest <:+ b.content
  vecs : b.vecs.length ≤ 4
  line : b.message = none → ∃ v, b.vecs = [v] ∧ v.base + v.bytes.length ≤ b.nTotal

/-- A coherent buffer that has bytes left. -/
structure WriteBuffer.Queued (b : WriteBuffer) : Prop extends b.Coherent where
  left : iovBytes b.vecs ≠ []

theorem WriteBuffer.rest_eq_nil_iff (b : WriteBuffer) : b.rest = [] ↔ iovBytes b.vecs = [] :=
  wireBytes_eq_nil_iff _ _

/-- The bytes of a coherent buffer are those from the writer on. -/
theorem WriteBuffer.Coherent.iovBytes_drop {b : WriteBuffer} (h : b.Coherent) :
    iovBytes (b.vecs.drop (b.writer.getD 0)) = iovBytes b.vecs := by
  conv_rhs => rw [← List.take_append_drop (b.writer.getD 0) b.vecs, iovBytes_append, h.sent, List.nil_append]

/-- The writer of a queued line buffer is on its only vector. -/
theorem WriteBuffer.Queued.writer_line {b : WriteBuffer} (h : b.Queued) (hm : b.message = none) :
    b.writer.getD 0 = 0 := by
  obtain ⟨v, hv, -⟩ := h.line hm
  by_contra hne
  have hall : b.vecs.take (b.writer.getD 0) = b.vecs := by
    apply List.take_of_length_le
    rw [hv, List.length_singleton]
    omega
  exact h.left (by rw [← hall]; exact h.sent)

/-- What `socket_buffer_consume` does to a queued buffer of which the kernel took a non-empty part. -/
structure WriteBuffer.Advanced (b : WriteBuffer) (n : ℕ) (b' : WriteBuffer) (left : ℕ) : Prop where
  left : left = 0
  coherent : b'.Coherent
  content : b'.content = b.content
  message : b'.message = b.message
  stream : wireBytes b.control ((iovBytes b.vecs).take n) ++ b'.rest = b.rest
  bytes : iovBytes b'.vecs = (iovBytes b.vecs).drop n
  consumed : socketBufferIsConsumed b' = true ↔ iovBytes b'.vecs = []

/-- The consumed amount leaves the front of the buffer, and the buffer counts as consumed when nothing is
left. -/
theorem WriteBuffer.Queued.consume {b : WriteBuffer} (h : b.Queued) {n : ℕ} (hpos : 0 < n)
    (hn : n ≤ (iovBytes b.vecs).length) :
    b.Advanced n (socketBufferConsume b n).1 (socketBufferConsume b n).2 := by
  have hdrop := h.iovBytes_drop
  have hw := h.writer
  have hc := consumed_consumeVecs (b.vecs.drop (b.writer.getD 0)) n (by rw [hdrop]; exact hn)
  rw [socketBufferConsume]
  revert hc
  obtain ⟨vecs, k, left⟩ := consumeVecs (b.vecs.drop (b.writer.getD 0)) n
  intro hc
  have hlen : vecs.length = b.vecs.length - b.writer.getD 0 := by simpa using hc.length
  have hk : k ≤ b.vecs.length - b.writer.getD 0 := by simpa using hc.advance
  have htake : (b.vecs.take (b.writer.getD 0)).length = b.writer.getD 0 := by
    rw [List.length_take, Nat.min_eq_left hw]
  have hbytes : iovBytes (b.vecs.take (b.writer.getD 0) ++ vecs) = (iovBytes b.vecs).drop n := by
    rw [iovBytes_append, h.sent, List.nil_append, hc.bytes, hdrop]
  have hstream : wireBytes b.control ((iovBytes b.vecs).take n) ++
      wireBytes none (iovBytes (b.vecs.take (b.writer.getD 0) ++ vecs)) = b.rest := by
    rw [hbytes, WriteBuffer.rest, wireBytes_take_drop _ hpos h.left]
  refine ⟨hc.left, ⟨?_, ?_, ?_, ?_, ?_⟩, rfl, rfl, hstream, hbytes, ?_⟩
  · have hsum : (b.vecs.take (b.writer.getD 0) ++ vecs).take (b.writer.getD 0 + k) =
        b.vecs.take (b.writer.getD 0) ++ vecs.take k := by
      rw [List.take_append, htake, Nat.add_sub_cancel_left, List.take_of_length_le (by omega)]
    show iovBytes ((b.vecs.take (b.writer.getD 0) ++ vecs).take (b.writer.getD 0 + k)) = []
    rw [hsum, iovBytes_append, h.sent, hc.sent, List.nil_append]
  · show b.writer.getD 0 + k ≤ (b.vecs.take (b.writer.getD 0) ++ vecs).length
    rw [List.length_append, htake]
    omega
  · exact List.IsSuffix.trans ⟨_, hstream⟩ h.suffix
  · have hv := h.vecs
    show (b.vecs.take (b.writer.getD 0) ++ vecs).length ≤ 4
    rw [List.length_append, htake]
    omega
  · -- A line buffer has one vector, and the writer is still on it.
    intro hm
    obtain ⟨v, hv, hfit⟩ := h.line hm
    have hw0 := h.writer_line hm
    have hends := hc.ends
    rw [hw0, List.drop_zero, hv] at hends
    obtain ⟨v', rfl⟩ : ∃ v', vecs = [v'] := List.length_eq_one_iff.mp (by rw [hlen, hw0, hv]; rfl)
    refine ⟨v', by rw [hw0]; rfl, ?_⟩
    simp only [List.map_cons, List.map_nil, List.cons.injEq, and_true] at hends
    show v'.base + v'.bytes.length ≤ b.nTotal
    omega
  · have hlength : (b.vecs.take (b.writer.getD 0) ++ vecs).length = b.vecs.length := by
      rw [List.length_append, htake]
      omega
    simp only [socketBufferIsConsumed, Option.elim_some, hlength, decide_eq_true_eq]
    constructor
    · intro hle
      have hall : vecs.take k = vecs := List.take_of_length_le (by omega)
      rw [iovBytes_append, h.sent, ← hall, hc.sent, List.nil_append]
    · intro hnil
      by_contra hlt
      have hshort : k < (b.vecs.drop (b.writer.getD 0)).length := by
        rw [List.length_drop]
        show k < _
        omega
      refine hc.rest hshort ?_
      rw [iovBytes_append, h.sent, List.nil_append] at hnil
      exact hnil

/-! ## The queue -/

/-- A buffer is sent with the bytes it has left, with or without its empty vectors. -/
theorem socketMsgHdr_bytes (zephyr : Bool) {b : WriteBuffer} (h : b.vecs.length ≤ 4) :
    (socketMsgHdr zephyr b).bytes = iovBytes b.vecs := by
  cases zephyr with
  | false => exact List.flatMap_def.symm
  | true =>
    have hfilter (l : List Bytes) : (l.filter (0 < ·.length)).flatten = l.flatten := by
      induction l with
      | nil => rfl
      | cons bs rest ih => cases bs <;> simp [ih]
    rw [MsgHdr.bytes, socketMsgHdr, if_pos rfl, List.take_of_length_le h, hfilter]
    exact List.flatMap_def.symm

/-- What the loop over the sent messages does to a queue: the buffers that leave it are sent, the others have
bytes left, and the kernel took what is missing from the front. -/
structure Progress (queue : List WriteBuffer) (msgs : List MsgHdr) (lens : List ℕ)
    (result : List WriteBuffer × List WriteBuffer × Bool) : Prop where
  kept : ∀ b ∈ result.1, b.Queued
  done : ∀ b ∈ result.2.1, b.rest = []
  ok : result.2.2 = true
  content : (result.2.1 ++ result.1).flatMap (·.content) = queue.flatMap (·.content)
  stream : takenBytes msgs lens ++ result.1.flatMap (·.rest) = queue.flatMap (·.rest)

@[simp] theorem takenBytes_nil (msgs : List MsgHdr) : takenBytes msgs [] = [] := by
  cases msgs <;> rfl

/-- Nothing was sent. -/
theorem progress_nil {queue : List WriteBuffer} (hq : ∀ b ∈ queue, b.Queued) (msgs : List MsgHdr) :
    Progress queue msgs [] (socketConsume [] queue) :=
  ⟨hq, fun _ h => absurd h List.not_mem_nil, rfl, rfl, by rw [takenBytes_nil]; rfl⟩

/-- One more buffer at the front, of which a part was sent. Unless it was the last one, it was sent
completely. -/
theorem Progress.cons {zephyr : Bool} {b : WriteBuffer} {rest : List WriteBuffer} {msgs : List MsgHdr} {n : ℕ}
    {lens : List ℕ} (h : Progress rest msgs lens (socketConsume lens rest)) (hb : b.Queued) (hpos : 0 < n)
    (hn : n ≤ (iovBytes b.vecs).length) (hlast : lens = [] ∨ n = (iovBytes b.vecs).length) :
    Progress (b :: rest) (socketMsgHdr zephyr b :: msgs) (n :: lens) (socketConsume (n :: lens) (b :: rest)) := by
  have ha := hb.consume hpos hn
  rw [socketConsume]
  revert ha h
  obtain ⟨b', left⟩ := socketBufferConsume b n
  intro h ha
  have hleft : (left == 0) = true := by
    rw [beq_iff_eq]
    exact ha.left
  have hstream : wireBytes (socketMsgHdr zephyr b).control ((socketMsgHdr zephyr b).bytes.take n) ++ b'.rest =
      b.rest := by
    rw [socketMsgHdr_bytes zephyr hb.vecs]
    exact ha.stream
  by_cases hdone : socketBufferIsConsumed b' = true
  · have hnil : b'.rest = [] := b'.rest_eq_nil_iff.mpr (ha.consumed.mp hdone)
    simp only [if_pos hdone]
    refine ⟨h.kept, ?_, by rw [h.ok, hleft]; rfl, ?_, ?_⟩
    · intro d hd
      rcases List.mem_cons.mp hd with rfl | hd
      · exact hnil
      · exact h.done d hd
    · rw [List.cons_append, List.flatMap_cons, List.flatMap_cons, ha.content, h.content]
    · rw [hnil, List.append_nil] at hstream
      rw [takenBytes, List.flatMap_cons, List.append_assoc, h.stream, hstream]
  · have hbytes : iovBytes b'.vecs ≠ [] := fun hnil => hdone (ha.consumed.mpr hnil)
    have hlens : lens = [] := by
      rcases hlast with hnil | hall
      · exact hnil
      · refine absurd ?_ hbytes
        rw [ha.bytes, hall, List.drop_length]
    subst hlens
    have hresult : socketConsume [] rest = (rest, [], true) := by
      cases rest <;> rfl
    rw [hresult] at h ⊢
    simp only [if_neg hdone]
    refine ⟨?_, h.done, by rw [hleft]; rfl, ?_, ?_⟩
    · intro d hd
      rcases List.mem_cons.mp hd with rfl | hd
      · exact ⟨ha.coherent, hbytes⟩
      · exact h.kept d hd
    · rw [List.nil_append, List.flatMap_cons, List.flatMap_cons, ha.content]
    · rw [takenBytes, takenBytes_nil, List.append_nil, List.flatMap_cons, List.flatMap_cons, ← List.append_assoc,
        hstream]

/-- A `sendmmsg` that keeps its contract makes progress. -/
theorem progress_socketConsume (zephyr : Bool) (lens : List ℕ) (room : ℕ) (queue : List WriteBuffer)
    (hq : ∀ b ∈ queue, b.Queued) (hsent : LinuxSent (socketBatch zephyr room queue) lens) :
    Progress queue (socketBatch zephyr room queue) lens (socketConsume lens queue) := by
  induction lens generalizing room queue with
  | nil =>
    cases hmsgs : socketBatch zephyr room queue <;> rw [hmsgs] at hsent <;> exact hsent.elim
  | cons n lens ih =>
    cases room with
    | zero => cases lens <;> exact hsent.elim
    | succ room =>
      cases queue with
      | nil => cases lens <;> exact hsent.elim
      | cons b rest =>
        have hb : b.Queued := hq b List.mem_cons_self
        have hrest : ∀ d ∈ rest, d.Queued := fun d hd => hq d (List.mem_cons_of_mem b hd)
        have hbytes := socketMsgHdr_bytes zephyr hb.vecs
        rw [socketBatch] at hsent ⊢
        cases lens with
        | nil =>
          rw [LinuxSent, hbytes] at hsent
          exact (progress_nil hrest _).cons hb hsent.1 hsent.2 (.inl rfl)
        | cons n' lens =>
          rw [LinuxSent, hbytes] at hsent
          have hpos : 0 < n := by
            rw [hsent.1]
            exact List.length_pos_of_ne_nil hb.left
          by_cases hfds : 0 < b.nFds
          · rw [if_pos hfds] at hsent
            cases lens <;> exact hsent.2.elim
          · rw [if_neg hfds] at hsent ⊢
            exact (ih room rest hrest hsent.2).cons hb hpos (Nat.le_of_eq hsent.1) (.inr hsent.1)

/-! ## The socket -/

/-- The stream is in order: the kernel has a part of what was queued, the buffers on the queue have the rest, a
buffer is gone when and only when all of it was sent, and the assertions of the consumption held. -/
structure SocketOut.Ordered (s : SocketOut) : Prop where
  stream : s.wire ++ s.queue.flatMap (·.rest) = s.queued
  content : (s.dropped ++ s.queue).flatMap (·.content) = s.queued
  kept : ∀ b ∈ s.queue, b.Queued
  gone : ∀ b ∈ s.dropped, b.rest = []
  assertion : s.consumeFailed = false

theorem ordered_init : SocketOut.init.Ordered :=
  ⟨rfl, rfl, fun _ h => absurd h List.not_mem_nil, fun _ h => absurd h List.not_mem_nil, rfl⟩

/-- A line fits behind what a line buffer holds. -/
theorem WriteBuffer.Coherent.append {b : WriteBuffer} (h : b.Coherent) (hm : b.message = none) {line : Bytes}
    (hfit : line.length + 2 ≤ socketBufferGetLineSpace b) (hw : b.writer.getD 0 = 0) :
    (socketBufferAppend b line).Queued ∧
      (socketBufferAppend b line).rest = b.rest ++ wireBytes none (line ++ crlf) := by
  obtain ⟨v, hv, hroom⟩ := h.line hm
  have hctl (b : WriteBuffer) (hb : b.message = none) : b.control = none := by
    rw [WriteBuffer.control, hb]
    cases b.writer <;> rfl
  have hvecs : (socketBufferAppend b line).vecs = [⟨v.base, v.bytes ++ (line ++ crlf)⟩] := by
    rw [socketBufferAppend, hv]
    rfl
  have hrest : (socketBufferAppend b line).rest = b.rest ++ wireBytes none (line ++ crlf) := by
    rw [WriteBuffer.rest, WriteBuffer.rest, hctl b hm, hctl (socketBufferAppend b line) hm, hvecs, hv]
    simp only [iovBytes_cons, iovBytes_nil, List.append_nil, wireBytes_none, List.map_append]
  obtain ⟨sent, hsent⟩ := h.suffix
  refine ⟨⟨⟨?_, ?_, ⟨sent, ?_⟩, ?_, fun _ => ⟨_, hvecs, ?_⟩⟩, ?_⟩, hrest⟩
  · show iovBytes ((socketBufferAppend b line).vecs.take (b.writer.getD 0)) = []
    rw [hw]
    rfl
  · show b.writer.getD 0 ≤ _
    omega
  · rw [hrest, ← List.append_assoc, hsent]
    rfl
  · rw [hvecs]
    simp
  · have hlen : (line ++ crlf).length = line.length + 2 := List.length_append
    rw [socketBufferGetLineSpace, hv] at hfit
    simp only [List.head?_cons, Option.elim_some] at hfit
    show v.base + (v.bytes ++ (line ++ crlf)).length ≤ b.nTotal
    rw [List.length_append, hlen]
    omega
  · rw [hvecs]
    simp [crlf]

/-- A new line buffer has room for its line. -/
theorem queued_newLine (line : Bytes) :
    (socketBufferAppend (socketBufferNewLine (line.length + 2)) line).Queued ∧
      (socketBufferAppend (socketBufferNewLine (line.length + 2)) line).rest = wireBytes none (line ++ crlf) := by
  have hc : (socketBufferNewLine (line.length + 2)).Coherent :=
    ⟨rfl, Nat.zero_le _, List.suffix_refl _, Nat.succ_le_succ (Nat.zero_le _), fun _ => ⟨_, rfl, Nat.zero_le _⟩⟩
  exact hc.append rfl (Nat.le_max_left _ _) rfl

/-- A new message buffer holds its message, with the descriptors on the first byte. -/
theorem queued_newMessage (m : SocketMessage) :
    (socketBufferNewMessage m).Queued ∧
      (socketBufferNewMessage m).rest = wireBytes m.fds m.vecs.flatten := by
  have hbytes : iovBytes (socketBufferNewMessage m).vecs = m.vecs.flatten := by
    rw [iovBytes, socketBufferNewMessage, List.flatMap_map]
    exact List.flatMap_id
  have hrest : (socketBufferNewMessage m).rest = wireBytes m.fds m.vecs.flatten := by
    rw [WriteBuffer.rest, hbytes]
    rfl
  refine ⟨⟨⟨rfl, Nat.zero_le _, ?_, ?_, fun h => nomatch h⟩, ?_⟩, hrest⟩
  · rw [hrest]
    exact List.suffix_refl _
  · rw [socketBufferNewMessage, List.length_map]
    exact Nat.le_of_eq m.length_vecs
  · rw [hbytes]
    exact m.nonempty

/-- Buffers put at the end of the queue in place of its last ones. -/
theorem SocketOut.Ordered.put {s : SocketOut} (h : s.Ordered) {before replaced : List WriteBuffer}
    {b : WriteBuffer} {bytes : List WireByte} (hq : s.queue = before ++ replaced) (hb : b.Queued)
    (hrest : b.rest = replaced.flatMap (·.rest) ++ bytes)
    (hcontent : b.content = replaced.flatMap (·.content) ++ bytes) :
    SocketOut.Ordered { s with queue := before ++ [b], queued := s.queued ++ bytes } := by
  refine ⟨?_, ?_, ?_, h.gone, h.assertion⟩
  · rw [← h.stream, hq]
    simp [hrest]
  · rw [← h.content, hq]
    simp [hcontent]
  · intro d hd
    rcases List.mem_append.mp hd with hd | hd
    · exact h.kept d (by rw [hq]; exact List.mem_append_left _ hd)
    · rw [List.mem_singleton.mp hd]
      exact hb

theorem SocketOut.Ordered.queueLine {s : SocketOut} (h : s.Ordered) (line : Bytes) (admitted : Bool) :
    (socketQueueLine s line admitted).1.Ordered := by
  have hnew := queued_newLine line
  have hfresh : SocketOut.Ordered
      { s with
        queue := s.queue ++ [socketBufferAppend (socketBufferNewLine (line.length + 2)) line]
        queued := s.queued ++ wireBytes none (line ++ crlf) } :=
    h.put (List.append_nil _).symm hnew.1 hnew.2 rfl
  rw [socketQueueLine]
  split
  · exact h
  cases hlast : s.queue.getLast? with
  | none =>
    cases admitted with
    | true => exact hfresh
    | false => exact h
  | some b =>
    have hmem : b ∈ s.queue := List.mem_of_getLast? hlast
    have hq : s.queue = s.queue.dropLast ++ [b] := (List.dropLast_append_getLast? b hlast).symm
    dsimp only
    split
    · exact ⟨h.stream, h.content, h.kept, h.gone, h.assertion⟩
    next hm =>
    have hm : b.message = none := Option.not_isSome_iff_eq_none.mp hm
    have hb := h.kept b hmem
    split
    · cases admitted with
      | true => exact hfresh
      | false => exact h
    next hfit =>
    have happ := hb.append hm (Nat.le_of_not_lt hfit) (hb.writer_line hm)
    refine h.put hq happ.1 ?_ ?_
    · rw [happ.2, List.flatMap_singleton]
    · rw [List.flatMap_singleton]
      rfl

theorem SocketOut.Ordered.queueMessage {s : SocketOut} (h : s.Ordered) (m : SocketMessage) (admitted : Bool) :
    (socketQueue s m admitted).1.Ordered := by
  have hnew := queued_newMessage m
  rw [socketQueue]
  split
  · exact h
  cases admitted with
  | true => exact h.put (List.append_nil _).symm hnew.1 hnew.2 rfl
  | false => exact h

/-- Bytes are at the end of what was queued and of what the queue still has to send. -/
structure SocketOut.Appends (s s' : SocketOut) (bytes : List WireByte) : Prop where
  queued : s'.queued = s.queued ++ bytes
  rest : s'.queue.flatMap (·.rest) = s.queue.flatMap (·.rest) ++ bytes

/-- In order, what is added to what was queued is what is added to the queue. -/
theorem SocketOut.Ordered.appends {s s' : SocketOut} (h : s.Ordered) (h' : s'.Ordered) (hwire : s'.wire = s.wire)
    {bytes : List WireByte} (hqueued : s'.queued = s.queued ++ bytes) : s.Appends s' bytes := by
  have hrest : s.wire ++ s'.queue.flatMap (·.rest) = s.wire ++ (s.queue.flatMap (·.rest) ++ bytes) := by
    rw [← List.append_assoc, h.stream, ← hqueued, ← hwire, h'.stream]
  exact ⟨hqueued, List.append_cancel_left hrest⟩

/-- A line is queued if `socket_queue_line` succeeds, and otherwise nothing is. -/
theorem SocketOut.Ordered.queueLine_appends {s : SocketOut} (h : s.Ordered) (line : Bytes) (admitted : Bool) :
    if (socketQueueLine s line admitted).2 = .success then
      s.Appends (socketQueueLine s line admitted).1 (wireBytes none (line ++ crlf))
    else (socketQueueLine s line admitted).1.queued = s.queued ∧ (socketQueueLine s line admitted).1.queue = s.queue := by
  have hordered := h.queueLine line admitted
  have hcases : ((socketQueueLine s line admitted).2 = .success ∧ (socketQueueLine s line admitted).1.wire = s.wire ∧
        (socketQueueLine s line admitted).1.queued = s.queued ++ wireBytes none (line ++ crlf)) ∨
      ((socketQueueLine s line admitted).2 ≠ .success ∧ (socketQueueLine s line admitted).1.queued = s.queued ∧
        (socketQueueLine s line admitted).1.queue = s.queue) := by
    rw [socketQueueLine]
    dsimp only
    split
    · exact .inr ⟨nofun, rfl, rfl⟩
    · split
      · cases admitted with
        | true => exact .inl ⟨rfl, rfl, rfl⟩
        | false => exact .inr ⟨nofun, rfl, rfl⟩
      · split
        · exact .inr ⟨nofun, rfl, rfl⟩
        · split
          · cases admitted with
            | true => exact .inl ⟨rfl, rfl, rfl⟩
            | false => exact .inr ⟨nofun, rfl, rfl⟩
          · exact .inl ⟨rfl, rfl, rfl⟩
  obtain ⟨hsuccess, hwire, hqueued⟩ | ⟨hfailed, hsame⟩ := hcases
  · rw [if_pos hsuccess]
    exact h.appends hordered hwire hqueued
  · rw [if_neg hfailed]
    exact hsame

/-- A message is queued if `socket_queue` succeeds, and otherwise nothing is. -/
theorem SocketOut.Ordered.queueMessage_appends {s : SocketOut} (h : s.Ordered) (m : SocketMessage) (admitted : Bool) :
    if (socketQueue s m admitted).2 = .success then
      s.Appends (socketQueue s m admitted).1 (wireBytes m.fds m.vecs.flatten)
    else (socketQueue s m admitted).1 = s := by
  have hordered := h.queueMessage m admitted
  rw [socketQueue] at hordered ⊢
  split
  · exact rfl
  · next hup =>
    rw [if_neg hup] at hordered
    cases admitted with
    | true => exact h.appends hordered rfl rfl
    | false => exact rfl

/-- Hanging up an empty queue loses nothing. -/
theorem SocketOut.Ordered.hangup {s : SocketOut} (h : s.Ordered) (hq : s.queue = []) : s.hangup.Ordered := by
  rw [SocketOut.hangup]
  split
  · exact h
  · refine ⟨?_, ?_, fun _ hb => absurd hb List.not_mem_nil, h.gone, h.assertion⟩
    · rw [← h.stream, hq]
    · rw [← h.content, hq]

theorem SocketOut.Ordered.shutdown {s : SocketOut} (h : s.Ordered) : (socketShutdown s).Ordered := by
  rw [socketShutdown]
  split
  · exact h
  dsimp only
  split
  next hq =>
    have hs : SocketOut.Ordered { s with shutdown := true } :=
      ⟨h.stream, h.content, h.kept, h.gone, h.assertion⟩
    exact hs.hangup (List.isEmpty_iff.mp hq)
  next => exact ⟨h.stream, h.content, h.kept, h.gone, h.assertion⟩

/-- The socket after the kernel took that much of the batch. -/
def SocketOut.written (s : SocketOut) (zephyr : Bool) (lens : List ℕ) : SocketOut :=
  { s with
    queue := (socketConsume lens s.queue).1
    pending := (socketConsume lens s.queue).2.1.filter fun b => (b.message.bind (·.fds)).isSome
    wire := s.wire ++ takenBytes (socketBatch zephyr socketMmsgMax s.queue) lens
    dropped := s.dropped ++ (socketConsume lens s.queue).2.1
    consumeFailed := s.consumeFailed || !(socketConsume lens s.queue).2.2 }

/-- What a write can do: nothing, forget what is pending, hang up after an error, or advance by what the kernel
took of the batch, with a hangup once everything is sent and the socket is shut down. -/
theorem socketDispatchWrite_cases (zephyr : Bool) (outq : ℕ) (sendmmsg : List MsgHdr → SendResult) (s : SocketOut) :
    let s' := (socketDispatchWrite zephyr outq sendmmsg s).1
    let msgs := socketBatch zephyr socketMmsgMax s.queue
    s' = s ∨ s' = { s with pending := [] } ∨
      (msgs ≠ [] ∧ sendmmsg msgs = .hangup ∧ s' = SocketOut.hangup { s with pending := [] }) ∨
      ∃ lens, msgs ≠ [] ∧ sendmmsg msgs = .sent lens ∧
        (s' = s.written zephyr lens ∨
          (s.written zephyr lens).queue = [] ∧ s' = (s.written zephyr lens).hangup) := by
  dsimp only
  rw [socketDispatchWrite]
  split
  · exact .inl rfl
  dsimp only
  split
  · exact .inr (.inl rfl)
  split
  · exact .inr (.inl rfl)
  next hmsgs =>
  have hne : socketBatch zephyr socketMmsgMax s.queue ≠ [] := fun hnil => hmsgs (by rw [hnil]; rfl)
  split
  · exact .inr (.inl rfl)
  · exact .inr (.inl rfl)
  next hsend => exact .inr (.inr (.inl ⟨hne, hsend, rfl⟩))
  next lens hsend =>
  refine .inr (.inr (.inr ⟨lens, hne, hsend, ?_⟩))
  split
  next hempty =>
    have hq : (s.written zephyr lens).queue = [] := List.isEmpty_iff.mp hempty
    split
    · exact .inr ⟨hq, by split <;> rfl⟩
    · exact .inl (by split <;> rfl)
  next => exact .inl rfl

/-- The order is kept by what the kernel took as by the contract. -/
theorem SocketOut.Ordered.written {s : SocketOut} (h : s.Ordered) {zephyr : Bool} {lens : List ℕ}
    (hlens : LinuxSent (socketBatch zephyr socketMmsgMax s.queue) lens) : (s.written zephyr lens).Ordered := by
  have hp := progress_socketConsume zephyr lens socketMmsgMax s.queue h.kept hlens
  refine ⟨?_, ?_, hp.kept, ?_, ?_⟩
  · simp only [SocketOut.written]
    rw [← h.stream, List.append_assoc, hp.stream]
  · simp only [SocketOut.written]
    rw [← h.content, List.append_assoc, List.flatMap_append, hp.content, ← List.flatMap_append]
  · intro b hb
    exact (List.mem_append.mp hb).elim (h.gone b) (hp.done b)
  · simp only [SocketOut.written]
    rw [hp.ok, h.assertion]
    rfl

/-- A write keeps the order if the messages that it hands over are taken as by the contract. -/
theorem SocketOut.Ordered.dispatchWrite {s : SocketOut} (h : s.Ordered) (zephyr : Bool) (outq : ℕ)
    {sendmmsg : List MsgHdr → SendResult}
    (hsend : let msgs := socketBatch zephyr socketMmsgMax s.queue
      msgs ≠ [] → sendmmsg msgs = .again ∨ ∃ lens, sendmmsg msgs = .sent lens ∧ LinuxSent msgs lens) :
    (socketDispatchWrite zephyr outq sendmmsg s).1.Ordered := by
  rcases socketDispatchWrite_cases zephyr outq sendmmsg s with
    hs | hs | ⟨hne, hhang, -⟩ | ⟨lens, hne, hsent, hs⟩
  · rw [hs]
    exact h
  · rw [hs]
    exact ⟨h.stream, h.content, h.kept, h.gone, h.assertion⟩
  · rcases hsend hne with hagain | ⟨lens, hlens, -⟩
    · exact nomatch hagain.symm.trans hhang
    · exact nomatch hlens.symm.trans hhang
  · rcases hsend hne with hagain | ⟨lens', hlens', hok⟩
    · exact nomatch hagain.symm.trans hsent
    · cases hlens'.symm.trans hsent
      rcases hs with hs | ⟨hq, hs⟩
      · rw [hs]
        exact h.written hok
      · rw [hs]
        exact (h.written hok).hangup hq

/-- Every operation keeps the order if its write keeps the contract of `sendmmsg`. -/
theorem SocketOut.Ordered.step {κ : Type} {sendmmsg : κ → List MsgHdr → SendResult} {s : SocketOut}
    (h : s.Ordered) (zephyr : Bool) (op : SocketOp κ)
    (hsend : ∀ outq kernel, op = .dispatchWrite outq kernel →
      let msgs := socketBatch zephyr socketMmsgMax s.queue
      msgs ≠ [] →
        sendmmsg kernel msgs = .again ∨ ∃ lens, sendmmsg kernel msgs = .sent lens ∧ LinuxSent msgs lens) :
    (s.step zephyr sendmmsg op).Ordered := by
  cases op with
  | queueLine line admitted => exact h.queueLine line admitted
  | queue message admitted => exact h.queueMessage message admitted
  | dispatchWrite outq kernel => exact h.dispatchWrite zephyr outq (hsend outq kernel rfl)
  | shutdown => exact h.shutdown

/-- What the kernel has is the beginning of what was queued. -/
theorem SocketOut.Ordered.isPrefix {s : SocketOut} (h : s.Ordered) : s.wire <+: s.queued := ⟨_, h.stream⟩

/-! ## Runs -/

/-- A line is queued. -/
def SocketOp.isLine {κ : Type} : SocketOp κ → Bool
  | .queueLine _ _ => true
  | _ => false

/-- A message is queued. -/
def SocketOp.isMessage {κ : Type} : SocketOp κ → Bool
  | .queue _ _ => true
  | _ => false

/-- Lines are only queued before the first message, as the callers of the socket promise. -/
def LinesFirst {κ : Type} (ops : List (SocketOp κ)) : Prop :=
  ops.Pairwise fun op later => op.isMessage → later.isLine = false

/-- A buffer that leaves the queue or stays on it keeps its message. -/
theorem mem_socketConsume_message {lens : List ℕ} {queue : List WriteBuffer} {b : WriteBuffer}
    (hb : b ∈ (socketConsume lens queue).1) : ∃ b' ∈ queue, b.message = b'.message := by
  induction lens generalizing queue with
  | nil =>
    rw [socketConsume.eq_def] at hb
    exact ⟨b, by cases queue <;> exact hb, rfl⟩
  | cons n lens ih =>
    cases queue with
    | nil => exact absurd hb List.not_mem_nil
    | cons d rest =>
      have htail (h : b ∈ (socketConsume lens rest).1) : ∃ b' ∈ d :: rest, b.message = b'.message := by
        obtain ⟨b', hb', hm⟩ := ih h
        exact ⟨b', List.mem_cons_of_mem d hb', hm⟩
      rw [socketConsume] at hb
      dsimp only at hb
      split at hb
      · exact htail hb
      · rcases List.mem_cons.mp hb with rfl | hb
        · exact ⟨d, List.mem_cons_self, rfl⟩
        · exact htail hb

/-- While only lines are queued, a step that does not queue a message leaves it so, and a line finds no
message to be appended to. -/
theorem SocketOut.step_lines {κ : Type} (zephyr : Bool) (sendmmsg : κ → List MsgHdr → SendResult) {s : SocketOut}
    (op : SocketOp κ) (hop : op.isMessage = false) (hq : ∀ b ∈ s.queue, b.message = none) :
    (∀ b ∈ (s.step zephyr sendmmsg op).queue, b.message = none) ∧
      (s.step zephyr sendmmsg op).lineFailed = s.lineFailed := by
  have hhang (s : SocketOut) (hq : ∀ b ∈ s.queue, b.message = none) :
      (∀ b ∈ s.hangup.queue, b.message = none) ∧ s.hangup.lineFailed = s.lineFailed := by
    rw [SocketOut.hangup]
    split
    · exact ⟨hq, rfl⟩
    · exact ⟨fun _ h => absurd h List.not_mem_nil, rfl⟩
  cases op with
  | queue message admitted => exact absurd hop (by simp [SocketOp.isMessage])
  | shutdown =>
    rw [SocketOut.step, socketShutdown]
    split
    · exact ⟨hq, rfl⟩
    dsimp only
    split
    · exact hhang _ hq
    · exact ⟨hq, rfl⟩
  | queueLine line admitted =>
    have hput {before : List WriteBuffer} {d : WriteBuffer} (hbefore : ∀ b ∈ before, b.message = none)
        (hd : d.message = none) : ∀ b ∈ before ++ [socketBufferAppend d line], b.message = none := by
      intro b hb
      rcases List.mem_append.mp hb with hb | hb
      · exact hbefore b hb
      · rw [List.mem_singleton.mp hb]
        exact hd
    rw [SocketOut.step, socketQueueLine]
    split
    · exact ⟨hq, rfl⟩
    cases hlast : s.queue.getLast? with
    | none =>
      cases admitted with
      | true => exact ⟨hput hq rfl, rfl⟩
      | false => exact ⟨hq, rfl⟩
    | some d =>
      have hd := hq d (List.mem_of_getLast? hlast)
      dsimp only
      rw [hd, if_neg (by simp)]
      split
      · cases admitted with
        | true => exact ⟨hput hq rfl, rfl⟩
        | false => exact ⟨hq, rfl⟩
      · exact ⟨hput (fun b hb => hq b (List.dropLast_subset _ hb)) hd, rfl⟩
  | dispatchWrite outq kernel =>
    rw [SocketOut.step]
    rcases socketDispatchWrite_cases zephyr outq (sendmmsg kernel) s with
      hs | hs | ⟨-, -, hs⟩ | ⟨lens, -, -, hs⟩
    · rw [hs]
      exact ⟨hq, rfl⟩
    · rw [hs]
      exact ⟨hq, rfl⟩
    · rw [hs]
      exact hhang _ hq
    · have hkept : ∀ b ∈ (s.written zephyr lens).queue, b.message = none := by
        intro b hb
        obtain ⟨b', hb', hm⟩ := mem_socketConsume_message hb
        rw [hm, hq b' hb']
      rcases hs with hs | ⟨-, hs⟩
      · rw [hs]
        exact ⟨hkept, rfl⟩
      · rw [hs]
        exact hhang _ hkept

/-- An operation that queues no line does not fail on one. -/
theorem SocketOut.step_lineFailed {κ : Type} {sendmmsg : κ → List MsgHdr → SendResult} (s : SocketOut)
    (zephyr : Bool) (op : SocketOp κ) (hop : op.isLine = false) :
    (s.step zephyr sendmmsg op).lineFailed = s.lineFailed := by
  have hhang (s : SocketOut) : s.hangup.lineFailed = s.lineFailed := by
    rw [SocketOut.hangup]
    split <;> rfl
  cases op with
  | queueLine line admitted => exact absurd hop (by simp [SocketOp.isLine])
  | queue message admitted =>
    rw [SocketOut.step, socketQueue]
    split
    · rfl
    · split <;> rfl
  | shutdown =>
    rw [SocketOut.step, socketShutdown]
    split
    · rfl
    · dsimp only
      split
      · exact hhang _
      · rfl
  | dispatchWrite outq kernel =>
    rw [SocketOut.step]
    rcases socketDispatchWrite_cases zephyr outq (sendmmsg kernel) s with
      hs | hs | ⟨-, -, hs⟩ | ⟨lens, -, -, hs | ⟨-, hs⟩⟩
    · rw [hs]
    · rw [hs]
    · rw [hs, hhang]
    · rw [hs]
      rfl
    · rw [hs, hhang]
      rfl

/-- Lines that come first never meet a message. -/
theorem SocketOut.run_lineFailed {κ : Type} {sendmmsg : κ → List MsgHdr → SendResult} (zephyr : Bool)
    (ops : List (SocketOp κ)) (hops : LinesFirst ops) (s : SocketOut) (hs : s.lineFailed = false)
    (hq : (∀ b ∈ s.queue, b.message = none) ∨ ∀ op ∈ ops, op.isLine = false) :
    (Machine.run (SocketOut.step zephyr sendmmsg) s ops).lineFailed = false := by
  induction ops generalizing s with
  | nil => exact hs
  | cons op rest ih =>
    obtain ⟨hop, hrest⟩ := List.pairwise_cons.mp hops
    have hlater (h : ∀ o ∈ op :: rest, o.isLine = false) : ∀ o ∈ rest, o.isLine = false :=
      fun o ho => h o (List.mem_cons_of_mem op ho)
    rw [Machine.run_cons]
    cases hmsg : op.isMessage with
    | true =>
      have hline : op.isLine = false := by
        cases op <;> first | rfl | exact absurd hmsg (by simp [SocketOp.isMessage])
      exact ih hrest _ ((s.step_lineFailed zephyr op hline).trans hs) (.inr fun o ho => hop o ho hmsg)
    | false =>
      rcases hq with hq | hq
      · have hstep := step_lines zephyr sendmmsg op hmsg hq
        exact ih hrest _ (hstep.2.trans hs) (.inl hstep.1)
      · exact ih hrest _ ((s.step_lineFailed zephyr op (hq op List.mem_cons_self)).trans hs) (.inr (hlater hq))

/-- In every run, with either build and whatever the kernel takes at each write, the kernel has the beginning of
what was queued, each message with its descriptors on its first byte. A buffer is off the queue exactly if all of
it was sent, and no assertion of the consumption fails. Nor does a line meet a message if lines come first. -/
theorem SocketOut.run_stream (zephyr : Bool) (ops : List (SocketOp LinuxSend)) :
    let s := Machine.run (SocketOut.step zephyr LinuxSend.send) SocketOut.init ops
    s.wire <+: s.queued ∧ s.Ordered ∧ (LinesFirst ops → s.lineFailed = false) := by
  have hordered : (Machine.run (SocketOut.step zephyr LinuxSend.send) SocketOut.init ops).Ordered :=
    Machine.run_invariant (fun s op h _ => h.step zephyr op fun _ kernel _ _ => kernel.contract _)
      ordered_init (Machine.along_true _ _)
  exact ⟨hordered.isPrefix, hordered, fun hops =>
    SocketOut.run_lineFailed zephyr ops hops _ rfl (.inl fun _ h => absurd h List.not_mem_nil)⟩

/-- A message that is only a header of sixteen equal bytes. -/
def SocketMessage.ofByte (a : UInt8) : SocketMessage := ⟨[List.replicate 16 a, [], [], []], none, rfl, by simp⟩

/-- The kernel takes five bytes of the first of two messages, and then the rest of it. -/
theorem SocketOut.run_stream_partial :
    let s := Machine.run (SocketOut.step false LinuxSend.send) SocketOut.init
      [.queue (.ofByte 1) true, .queue (.ofByte 2) true, .dispatchWrite 0 (.room 5), .dispatchWrite 0 (.room 20)]
    s.wire <+: s.queued ∧ s.wire.length = 16 ∧ s.queue.length = 1 :=
  ⟨(SocketOut.run_stream false [.queue (.ofByte 1) true, .queue (.ofByte 2) true, .dispatchWrite 0 (.room 5),
    .dispatchWrite 0 (.room 20)]).1, by decide, by decide⟩

/-! ## The `sendmmsg` for Zephyr -/

/-- All messages but the last one that was taken were taken completely. -/
def CompleteBut (msgs : List MsgHdr) (lens : List ℕ) : Prop :=
  ∀ i, i + 1 < lens.length → lens[i]? = msgs[i]?.map (·.bytes.length)

/-- Within a batch, the call after one that took only a part of its message fails. -/
def ShortRefused (sendmsg : ℕ → MsgHdr → Option ℕ) : ℕ → List MsgHdr → Prop
  | i, m :: m' :: rest => ∀ n, sendmsg i m = some n →
      (n < m.bytes.length → sendmsg (i + 1) m' = none) ∧ ShortRefused sendmsg (i + 1) (m' :: rest)
  | _, _ => True

theorem completeBut_nil (msgs : List MsgHdr) : CompleteBut msgs [] := fun i h => absurd h (by simp)

theorem completeBut_singleton (msgs : List MsgHdr) (n : ℕ) : CompleteBut msgs [n] := fun i h => absurd h (by simp)

theorem completeBut_cons_cons (m : MsgHdr) (msgs : List MsgHdr) (n n' : ℕ) (lens : List ℕ) :
    CompleteBut (m :: msgs) (n :: n' :: lens) ↔ n = m.bytes.length ∧ CompleteBut msgs (n' :: lens) := by
  constructor
  · intro h
    refine ⟨by simpa using h 0 (by simp), fun i hi => ?_⟩
    simpa using h (i + 1) (by simpa using hi)
  · rintro ⟨hn, hrest⟩ i hi
    cases i with
    | zero => simp [hn]
    | succ i => simpa using hrest i (by simpa using hi)

/-- The loop stops right after a short send exactly if the next call fails. -/
theorem completeBut_zephyrSendLoop (sendmsg : Sendmsg) (i : ℕ) (msgs : List MsgHdr) :
    CompleteBut msgs (zephyrSendLoop sendmsg.call i msgs) ↔ ShortRefused sendmsg.call i msgs := by
  induction msgs generalizing i with
  | nil => exact iff_of_true (completeBut_nil _) trivial
  | cons m rest ih =>
    cases hcall : sendmsg.call i m with
    | none =>
      rw [zephyrSendLoop, hcall]
      refine iff_of_true (completeBut_nil _) ?_
      cases rest with
      | nil => trivial
      | cons m' rest => exact fun n hn => nomatch hcall.symm.trans hn
    | some n =>
      rw [zephyrSendLoop, hcall]
      cases rest with
      | nil => exact iff_of_true (completeBut_singleton _ _) trivial
      | cons m' rest =>
        have ih := ih (i + 1)
        have hle := (sendmsg.contract i m n hcall).1
        rw [ShortRefused]
        cases hnext : sendmsg.call (i + 1) m' with
        | none =>
          rw [zephyrSendLoop, hnext] at ih ⊢
          refine iff_of_true (completeBut_singleton _ _) fun _ _ => ⟨fun _ => rfl, ih.mp (completeBut_nil _)⟩
        | some n' =>
          rw [zephyrSendLoop, hnext] at ih ⊢
          rw [completeBut_cons_cons, ih]
          constructor
          · rintro ⟨hn, hrest⟩ k hk
            cases hcall.symm.trans hk
            exact ⟨fun hlt => absurd hlt (by omega), hrest⟩
          · intro h
            obtain ⟨hshort, hrest⟩ := h n hcall
            refine ⟨?_, hrest⟩
            by_contra hne
            exact nomatch hshort (by omega)

/-- A result in which all messages but the last were taken completely is one that the contract allows. -/
theorem linuxSent_of_completeBut (sendmsg : Sendmsg) (i : ℕ) (msgs : List MsgHdr) (hmsgs : ∀ m ∈ msgs, m.bytes ≠ [])
    (hne : zephyrSendLoop sendmsg.call i msgs ≠ [])
    (h : CompleteBut msgs (zephyrSendLoop sendmsg.call i msgs)) :
    LinuxSent msgs (zephyrSendLoop sendmsg.call i msgs) := by
  induction msgs generalizing i with
  | nil => exact absurd rfl hne
  | cons m rest ih =>
    cases hcall : sendmsg.call i m with
    | none =>
      rw [zephyrSendLoop, hcall] at hne
      exact absurd rfl hne
    | some n =>
      have hn := sendmsg.contract i m n hcall
      have hpos := hn.2 (hmsgs m List.mem_cons_self)
      have ih := ih (i + 1) fun m hm => hmsgs m (List.mem_cons_of_mem _ hm)
      rw [zephyrSendLoop, hcall] at h ⊢
      dsimp only at h ⊢
      cases hlens : zephyrSendLoop sendmsg.call (i + 1) rest with
      | nil => exact ⟨hpos, hn.1⟩
      | cons n' lens =>
        rw [hlens] at h ih
        rw [completeBut_cons_cons] at h
        exact ⟨h.1, ih (List.cons_ne_nil _ _) h.2⟩

/-- The messages of a batch are not empty. -/
theorem bytes_ne_nil_of_mem_socketBatch {zephyr : Bool} {room : ℕ} {queue : List WriteBuffer}
    (hq : ∀ b ∈ queue, b.Queued) {m : MsgHdr} (hm : m ∈ socketBatch zephyr room queue) : m.bytes ≠ [] := by
  induction room generalizing queue with
  | zero => exact absurd hm List.not_mem_nil
  | succ room ih =>
    cases queue with
    | nil => exact absurd hm List.not_mem_nil
    | cons b rest =>
      have hb := hq b List.mem_cons_self
      rw [socketBatch] at hm
      rcases List.mem_cons.mp hm with rfl | hm
      · rw [socketMsgHdr_bytes zephyr hb.vecs]
        exact hb.left
      · split at hm
        · exact absurd hm List.not_mem_nil
        · exact ih (fun d hd => hq d (List.mem_cons_of_mem b hd)) hm

/-- The write of an operation, if it is one, returns a number of messages of which all but the last were taken
completely. -/
def WritesCompletely (s : SocketOut) (op : SocketOp Sendmsg) : Prop :=
  ∀ outq sendmsg, op = .dispatchWrite outq sendmsg → ∀ lens,
    zephyrSendmmsg sendmsg (socketBatch true socketMmsgMax s.queue) = .sent lens →
      CompleteBut (socketBatch true socketMmsgMax s.queue) lens

/-- At the write of an operation, if it is one, the call of `sendmsg` after a short one fails. -/
def RefusesAfterShort (s : SocketOut) (op : SocketOp Sendmsg) : Prop :=
  ∀ outq sendmsg, op = .dispatchWrite outq sendmsg →
    ShortRefused sendmsg.call 0 (socketBatch true socketMmsgMax s.queue)

/-- One write returns as by the contract exactly if a short call of `sendmsg` is followed by a failed one. -/
theorem writesCompletely_iff (s : SocketOut) (op : SocketOp Sendmsg) :
    WritesCompletely s op ↔ RefusesAfterShort s op := by
  have hsend (sendmsg : Sendmsg) (msgs : List MsgHdr) :
      (∀ lens, zephyrSendmmsg sendmsg msgs = .sent lens → CompleteBut msgs lens) ↔
        ShortRefused sendmsg.call 0 msgs := by
    rw [← completeBut_zephyrSendLoop, zephyrSendmmsg]
    split
    next hnone =>
      rw [Bool.and_eq_true, List.isEmpty_iff] at hnone
      rw [hnone.1]
      exact iff_of_true (fun _ h => nomatch h) (completeBut_nil _)
    next =>
      constructor
      · exact fun h => h _ rfl
      · intro h lens hlens
        cases hlens
        exact h
  constructor
  · exact fun h outq sendmsg hop => (hsend sendmsg _).mp (h outq sendmsg hop)
  · exact fun h outq sendmsg hop => (hsend sendmsg _).mpr (h outq sendmsg hop)

/-- A write with the replacement of `sendmmsg` keeps the order if a short call is followed by a failed one. -/
theorem SocketOut.Ordered.step_zephyr {s : SocketOut} (h : s.Ordered) {op : SocketOp Sendmsg}
    (hop : RefusesAfterShort s op) : (s.step true zephyrSendmmsg op).Ordered := by
  refine h.step true op fun outq sendmsg heq => ?_
  intro msgs hne
  have hcomplete := (completeBut_zephyrSendLoop sendmsg 0 msgs).mpr (hop outq sendmsg heq)
  rw [zephyrSendmmsg]
  split
  next => exact .inl rfl
  next hsome =>
    refine .inr ⟨_, rfl, linuxSent_of_completeBut sendmsg 0 msgs ?_ ?_ hcomplete⟩
    · exact fun m hm => bytes_ne_nil_of_mem_socketBatch h.kept hm
    · intro hnil
      rw [hnil] at hsome
      exact hsome (by simpa using hne)

/-- Along a sequence of operations every write returns as by the contract, and the stream is in order after each of
them, exactly if at every write a short call of `sendmsg` is followed by a failed one. -/
theorem SocketOut.run_zephyr_iff (ops : List (SocketOp Sendmsg)) :
    (Machine.Along (SocketOut.step true zephyrSendmmsg) WritesCompletely SocketOut.init ops ∧
      ∀ k, let s := Machine.run (SocketOut.step true zephyrSendmmsg) SocketOut.init (ops.take k)
        s.wire <+: s.queued ∧ s.Ordered) ↔
    Machine.Along (SocketOut.step true zephyrSendmmsg) RefusesAfterShort SocketOut.init ops := by
  constructor
  · rintro ⟨hcomplete, -⟩
    exact hcomplete.imp fun s op h => (writesCompletely_iff s op).mp h
  · intro hrefuses
    refine ⟨hrefuses.imp fun s op h => (writesCompletely_iff s op).mpr h, fun k => ?_⟩
    have htake : Machine.Along (SocketOut.step true zephyrSendmmsg) RefusesAfterShort SocketOut.init
        (ops.take k) := by
      rw [← List.take_append_drop k ops, Machine.along_append] at hrefuses
      exact hrefuses.1
    have hordered : (Machine.run (SocketOut.step true zephyrSendmmsg) SocketOut.init (ops.take k)).Ordered :=
      Machine.run_invariant (fun s op h hop => h.step_zephyr hop) ordered_init htake
    exact ⟨hordered.isPrefix, hordered⟩

/-- A `sendmsg` that takes one byte of the first message of a batch and all of the others. -/
def Sendmsg.firstShort : Sendmsg where
  call i m := some (if i = 0 then min 1 m.bytes.length else m.bytes.length)
  contract i m n h := by
    cases h
    have hlen (hm : m.bytes ≠ []) : 0 < m.bytes.length := List.length_pos_of_ne_nil hm
    split
    · exact ⟨Nat.min_le_right _ _, fun hm => by have := hlen hm; omega⟩
    · exact ⟨Nat.le_refl _, hlen⟩

/-- The second of two messages is sent after one byte of the first. -/
theorem not_prefix_run_zephyr :
    ¬ ∀ ops : List (SocketOp Sendmsg),
      let s := Machine.run (SocketOut.step true zephyrSendmmsg) SocketOut.init ops
      Machine.Along (SocketOut.step true zephyrSendmmsg) WritesCompletely SocketOut.init ops ∧
        s.wire <+: s.queued := by
  intro h
  have hhead := (h [.queue (.ofByte 1) true, .queue (.ofByte 2) true, .dispatchWrite 0 .firstShort]).2
  exact absurd hhead (by decide)

end DbusBroker
