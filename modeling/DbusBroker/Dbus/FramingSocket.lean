import DbusBroker.Dbus.FramingQueue

/-!
# What a socket takes from its input

The socket holds a part of the stream: the header of the message that is being received, what was
copied to the target, and the window. Taking a line or a message is taking the next item of that
part; reading appends to it.
-/

namespace DbusBroker

/-! ## Items of a growing stream -/

/-- A parser that has decided on the next item does not change its mind when more bytes come. -/
theorem nextItem_append {mode : Mode} {w : Bytes} (u : Bytes) (h : nextItem mode w ≠ .incomplete) :
    nextItem mode (w ++ u) = nextItem mode w := by
  cases mode with
  | lines sofar =>
    simp only [nextItem] at h ⊢
    rw [List.take_append]
    cases hi : crlfIndex (w.take iqueueLineMax) with
    | some i =>
      have hlt := crlfIndex_lt hi
      rw [List.length_take] at hlt
      rw [crlfIndex_append hi]
      dsimp only
      rw [List.take_append_of_le_length (by omega)]
    | none =>
      rw [hi] at h
      dsimp only at h
      have hlong : ¬ w.length < iqueueLineMax := fun hlt => h (if_pos hlt)
      rw [Nat.sub_eq_zero_of_le (Nat.le_of_not_lt hlong), List.take_zero, List.append_nil, hi]
      dsimp only
      rw [if_neg hlong, if_neg (by rw [List.length_append]; omega)]
  | messages =>
    simp only [nextItem] at h ⊢
    have hlen : ¬ w.length < messageHeaderSize := fun hlt => h (if_pos hlt)
    rw [if_neg hlen] at h ⊢
    rw [if_neg (by rw [List.length_append]; omega), List.take_append_of_le_length (Nat.le_of_not_lt hlen)]
    cases hn : messageNewIncoming (w.take messageHeaderSize) with
    | none => rfl
    | some n =>
      rw [hn] at h
      dsimp only at h ⊢
      have hfull : ¬ w.length < n := fun hlt => h (if_pos hlt)
      rw [if_neg hfull, if_neg (by rw [List.length_append]; omega),
        List.take_append_of_le_length (Nat.le_of_not_lt hfull)]

/-- The next message of a stream that starts with a complete header. -/
theorem nextItem_header {header : Bytes} (hlen : header.length = messageHeaderSize) (rest : Bytes) :
    nextItem .messages (header ++ rest) =
      match messageNewIncoming header with
      | none => .violation .invalidHeader
      | some n => if (header ++ rest).length < n then .incomplete else .item (.message ((header ++ rest).take n)) := by
  have hlong : ¬(header ++ rest).length < messageHeaderSize := by
    rw [List.length_append]
    omega
  have htake : (header ++ rest).take messageHeaderSize = header := by rw [← hlen, List.take_left]
  simp only [nextItem, htake]
  exact if_neg hlong

/-! ## The part of the stream that a socket holds -/

/-- What was taken out of the window for the message that is being received. -/
def SocketIn.held (s : SocketIn) : Bytes := s.message.elim [] (·.1) ++ s.queue.target.elim [] (·.copied)

/-- The part of the stream that the socket holds. -/
def SocketIn.rest (s : SocketIn) : Bytes := s.held ++ s.queue.window

/-- The socket expects what the mode says. -/
def SocketIn.InMode (s : SocketIn) : Mode → Prop
  | .lines _ => s.message = none ∧ s.queue.target = none ∧ s.queue.targetFds = none ∧ s.queue.Scanned s.queue.dataCursor
  | .messages => s.queue.dataCursor = s.queue.dataStart ∧
      match s.message with
      | none => ∀ t, s.queue.target = some t → t.nData = messageHeaderSize ∧ t.copied.length ≤ t.nData
      | some (header, n) => header.length = messageHeaderSize ∧ messageNewIncoming header = some n ∧
          ∃ t, s.queue.target = some t ∧ t.nData = n - messageHeaderSize ∧ t.copied.length ≤ t.nData

/-- The socket between two operations: descriptors wait for the end of the window. -/
structure SocketIn.Coherent (s : SocketIn) (mode : Mode) : Prop where
  bounded : s.queue.Bounded
  mode : s.InMode mode
  fds : ∀ set, s.queue.fds = some set → set ≠ [] ∧ s.queue.dataCursor < s.queue.dataEnd
  hup : s.hupIn = s.violation.isSome

theorem coherent_init : SocketIn.init.Coherent (.lines []) := by
  refine ⟨bounded_init, ⟨rfl, rfl, rfl, ⟨rfl, fun h => absurd h (Nat.lt_irrefl 0)⟩⟩, (fun _ h => nomatch h), rfl⟩

/-- A flushed queue is empty. -/
theorem IQueue.Bounded.flush {q : IQueue} (h : q.Bounded) : (iqueueFlush q).Bounded ∧ (iqueueFlush q).window = [] :=
  ⟨⟨Nat.le_refl _, Nat.le_refl _, Nat.zero_le _, h.memory, h.size, h.assertion⟩, rfl⟩

/-- A closed socket holds nothing and expects nothing. -/
theorem SocketIn.coherent_close {s : SocketIn} (h : s.queue.Bounded) (mode : Mode) (v : Violation) :
    (s.close v).Coherent mode ∧ (s.close v).rest = [] := by
  refine ⟨⟨h.flush.1, ?_, (fun _ hset => nomatch hset), ?_⟩, ?_⟩
  · cases mode with
    | lines sofar => exact ⟨rfl, rfl, rfl, ⟨rfl, fun hpos => absurd hpos (Nat.lt_irrefl 0)⟩⟩
    | messages => exact ⟨rfl, fun t ht => nomatch ht⟩
  · simp only [SocketIn.close]
    cases s.violation <;> rfl
  · rw [SocketIn.rest, SocketIn.held]
    exact h.flush.2

/-! ## What taking the next item can do -/

/-- The socket has no complete item. What is in the window may have moved on to the target. -/
structure SocketIn.Waits (s : SocketIn) (mode : Mode) (s' : SocketIn) : Prop where
  coherent : s'.Coherent mode
  rest : s'.rest = s.rest
  violation : s'.violation = s.violation
  fds : (s'.queue.fds, s'.queue.targetFds) = s.queue.movedFds s'.queue.window
  single : ¬(s'.queue.window = [] ∧ s.queue.fds.isSome ∧ s.queue.targetFds.isSome)
  window : ∃ k, s'.queue.window = s.queue.window.drop k
  drained : s'.queue.dataCursor = s'.queue.dataEnd
  stuck : nextItem mode s.rest = .incomplete ∨ nextItem mode s.rest = .violation .lineTooLong

/-- The socket is closed, because of descriptors where there must be none or because of the next item. -/
structure SocketIn.Closes (s : SocketIn) (mode : Mode) (s' : SocketIn) (v : Violation) : Prop where
  coherent : s'.Coherent mode
  rest : s'.rest = []
  violation : s'.violation = s.violation.or (some v)
  cause : nextItem mode s.rest = .violation v ∨
    v = .unexpectedFds ∧ s.queue.fds.isSome ∧ (mode = .messages → s.queue.targetFds.isSome)
  fds : s'.queue.fds = none ∧ s'.queue.targetFds = none

/-- The next item is taken, with the descriptors that came with its bytes. -/
structure SocketIn.Takes (s : SocketIn) (mode : Mode) (s' : SocketIn) (item : Item) (fds : Option (List ℕ)) : Prop where
  coherent : s'.Coherent mode ∧ s'.Coherent .messages
  next : nextItem mode s.rest = .item item
  rest : s'.rest = s.rest.drop item.size
  violation : s'.violation = s.violation
  held : s'.held = []
  window : ∃ k, s'.queue.window = s.queue.window.drop k
  popped : fds = (s.queue.movedFds s'.queue.window).2
  fds : (s'.queue.fds, s'.queue.targetFds) = ((s.queue.movedFds s'.queue.window).1, none)
  single : ¬(s'.queue.window = [] ∧ s.queue.fds.isSome ∧ s.queue.targetFds.isSome)

/-- Descriptors in the input buffer are at least one. -/
theorem SocketIn.Coherent.fds_none {s : SocketIn} {mode : Mode} (h : s.Coherent mode)
    (hcount : s.queue.dataCursor < s.queue.dataEnd → fdlistCount s.queue.fds = 0) : s.queue.fds = none := by
  cases hfds : s.queue.fds with
  | none => rfl
  | some set =>
    obtain ⟨hne, hlt⟩ := h.fds set hfds
    have hzero := hcount hlt
    rw [hfds] at hzero
    exact absurd (List.length_eq_zero_iff.mp hzero) hne

/-- A socket that expects lines holds its window. -/
theorem SocketIn.rest_lines {s : SocketIn} (hm : s.message = none) (ht : s.queue.target = none) :
    s.held = [] ∧ s.rest = s.queue.window := by
  have hheld : s.held = [] := by
    rw [SocketIn.held, hm, ht]
    rfl
  exact ⟨hheld, by rw [SocketIn.rest, hheld, List.nil_append]⟩

/-- `socket_dequeue_line` waits, closes the socket or takes a line. -/
theorem SocketIn.Coherent.dequeueLine {s : SocketIn} {sofar : List Bytes} (h : s.Coherent (.lines sofar)) :
    let r := socketDequeueLine s
    ((∀ bytes, r.2 ≠ .line bytes) ∧
      (s.Waits (.lines sofar) r.1 ∨ ∃ v, s.Closes (.lines sofar) r.1 v)) ∨
    ∃ bytes, r.2 = .line bytes ∧ s.Takes (.lines sofar) r.1 (.line bytes) none := by
  obtain ⟨hm, ht, htf, hscanned⟩ := h.mode
  obtain ⟨hheld, hrest⟩ := SocketIn.rest_lines hm ht
  have hlen := h.bounded.length_window
  have hmax : s.queue.window.length ≤ iqueueLineMax := by
    have hstop := h.bounded.stop
    have hsize := h.bounded.size
    have hrecv : iqueueRecvMax ≤ iqueueLineMax := by decide
    split at hsize <;> omega
  have hpop := linePopped_iqueuePopLine h.bounded hscanned ht
  dsimp only
  rw [socketDequeueLine]
  revert hpop
  obtain ⟨q, r⟩ := iqueuePopLine s.queue
  cases r with
  | pending =>
    rintro ⟨rfl, hs, hnone, hcount⟩
    have hfds := h.fds_none hcount
    refine .inl ⟨fun bytes => ?_, .inl ⟨⟨?_, ⟨hm, ht, htf, hs⟩, ?_, h.hup⟩, ?_, rfl, ?_, ?_, ⟨0, ?_⟩, rfl, ?_⟩⟩
    · simp only [SocketIn.noData]
      split <;> simp
    · exact ⟨Nat.le_trans h.bounded.start h.bounded.cursor, Nat.le_refl _, h.bounded.stop, h.bounded.memory,
        h.bounded.size, h.bounded.assertion⟩
    · intro set hset
      cases hfds.symm.trans hset
    · rfl
    · simp [IQueue.movedFds, hfds]
    · rw [hfds]
      exact fun hc => by cases hc.2.1
    · rfl
    · rw [hrest, nextItem, List.take_of_length_le hmax, hnone]
      dsimp only
      split
      · exact .inl rfl
      · exact .inr rfl
  | violation =>
    rintro ⟨⟨c, rfl, hc, hle⟩, hcount⟩
    have hb : ({ s.queue with dataCursor := c } : IQueue).Bounded :=
      ⟨Nat.le_trans h.bounded.start hle, Nat.le_of_lt hc, h.bounded.stop, h.bounded.memory, h.bounded.size,
        h.bounded.assertion⟩
    have hclose := SocketIn.coherent_close (s := { s with queue := { s.queue with dataCursor := c } }) hb
      (.lines sofar) .unexpectedFds
    refine .inl ⟨(fun bytes hr => by cases hr), .inr ⟨.unexpectedFds, hclose.1, hclose.2, rfl, .inr ⟨rfl, ?_, (by simp)⟩, ⟨rfl, rfl⟩⟩⟩
    cases hfds : s.queue.fds with
    | none =>
      rw [hfds] at hcount
      exact absurd hcount (Nat.lt_irrefl 0)
    | some set => rfl
  | data line fds =>
    rintro ⟨rfl, hcut⟩
    have hlt := crlfIndex_lt hcut.index
    have hlast : s.queue.fds.isSome → q.window ≠ [] := by
      intro hsome hnil
      have hcount := hcut.last hnil
      rw [h.fds_none fun _ => hcount] at hsome
      cases hsome
    have hmoved : s.queue.movedFds q.window = (s.queue.fds, s.queue.targetFds) := by
      rw [IQueue.movedFds]
      split
      next hboth =>
        rw [Bool.and_eq_true, List.isEmpty_iff] at hboth
        exact absurd hboth.1 (hlast hboth.2)
      next => rfl
    have hq : ∀ set, q.fds = some set → set ≠ [] ∧ q.dataCursor < q.dataEnd := by
      intro set hset
      rw [hcut.fds] at hset
      refine ⟨(h.fds set hset).1, ?_⟩
      have hne := List.length_pos_of_ne_nil (hlast (by rw [hset]; rfl))
      have hstart := hcut.bounded.start
      rw [hcut.bounded.length_window] at hne
      have hcursor := hcut.cursor
      omega
    have hheld' := SocketIn.rest_lines (s := { s with queue := q }) hm hcut.target
    refine .inr ⟨line, rfl, ⟨⟨hcut.bounded, ⟨hm, hcut.target, hcut.targetFds.trans htf, hcut.scanned⟩, hq, h.hup⟩,
      ⟨hcut.bounded, ⟨hcut.cursor, ?_⟩, hq, h.hup⟩⟩, ?_, ?_, rfl, hheld'.1, ⟨_, hcut.window⟩, ?_, ?_, ?_⟩
    · show match s.message with
        | none => ∀ t, q.target = some t → t.nData = messageHeaderSize ∧ t.copied.length ≤ t.nData
        | some (header, n) => _
      rw [hm]
      intro t hqt
      cases hcut.target.symm.trans hqt
    · rw [hrest, nextItem, List.take_of_length_le hmax, hcut.index]
      dsimp only
      rw [← hcut.bytes]
    · rw [hheld'.2, hrest]
      exact hcut.window
    · rw [hmoved, htf]
    · rw [hmoved, hcut.fds, hcut.targetFds, htf]
    · rintro ⟨hnil, hsome, -⟩
      exact hlast hsome hnil

/-! ## Messages -/

/-- Descriptors that are left in the input buffer belong to bytes that are left in the window. -/
theorem IQueue.movedFds_fst {q : IQueue} {w : Bytes} {set : List ℕ} (h : (q.movedFds w).1 = some set) :
    q.fds = some set ∧ w ≠ [] := by
  rw [IQueue.movedFds] at h
  split at h
  · cases h
  next hnot =>
    refine ⟨h, fun hnil => hnot ?_⟩
    rw [hnil, show q.fds = some set from h]
    rfl

/-- Two copies in a row move descriptors as one copy does. -/
theorem IQueue.movedFds_trans {q q' : IQueue} {w w' : Bytes} (h : (q'.fds, q'.targetFds) = q.movedFds w)
    (hw : w = [] → w' = []) : q'.movedFds w' = q.movedFds w' := by
  rw [IQueue.movedFds] at h
  split at h
  next hmoved =>
    rw [Bool.and_eq_true, List.isEmpty_iff] at hmoved
    obtain ⟨h1, h2⟩ := Prod.mk.inj h
    rw [IQueue.movedFds, IQueue.movedFds, h1, h2, hw hmoved.1, hmoved.2]
    rfl
  next =>
    obtain ⟨h1, h2⟩ := Prod.mk.inj h
    rw [IQueue.movedFds, IQueue.movedFds, h1, h2]

/-- Two sets that meet after a copy were there before. -/
theorem IQueue.movedFds_both {q q' : IQueue} {w : Bytes} (h : (q'.fds, q'.targetFds) = q.movedFds w)
    (hsome : q'.fds.isSome) : q'.fds = q.fds ∧ q'.targetFds = q.targetFds := by
  rw [IQueue.movedFds] at h
  split at h
  · obtain ⟨h1, -⟩ := Prod.mk.inj h
    rw [h1] at hsome
    cases hsome
  · exact Prod.mk.inj h

/-- The window of a coherent queue that is not empty has bytes to scan. -/
theorem IQueue.Bounded.cursor_lt {q : IQueue} (h : q.Bounded) (hcursor : q.dataCursor = q.dataStart)
    (hne : q.window ≠ []) : q.dataCursor < q.dataEnd := by
  have hlen := List.length_pos_of_ne_nil hne
  rw [h.length_window] at hlen
  omega

/-- An empty window is scanned to its end. -/
theorem IQueue.Bounded.drained {q : IQueue} (h : q.Bounded) (hcursor : q.dataCursor = q.dataStart)
    (hnil : q.window = []) : q.dataCursor = q.dataEnd := by
  have hlen := h.length_window
  have hle := h.cursor
  rw [hnil, List.length_nil] at hlen
  omega

/-- Descriptors wait for bytes of the window. -/
theorem SocketIn.Coherent.window_ne_nil {s : SocketIn} {mode : Mode} (h : s.Coherent mode) (hfds : s.queue.fds.isSome) :
    s.queue.window ≠ [] := by
  obtain ⟨set, hset⟩ := Option.isSome_iff_exists.mp hfds
  have hlt := (h.fds set hset).2
  have hstart := h.bounded.start
  have hlen := h.bounded.length_window
  intro hnil
  rw [hnil, List.length_nil] at hlen
  omega

theorem SocketIn.Coherent.movedFds_window {s : SocketIn} {mode : Mode} (h : s.Coherent mode) :
    s.queue.movedFds s.queue.window = (s.queue.fds, s.queue.targetFds) := by
  rw [IQueue.movedFds, if_neg]
  rw [Bool.and_eq_true, List.isEmpty_iff]
  exact fun hboth => h.window_ne_nil hboth.2 hboth.1

/-- What taking a message from a socket can do. -/
def SocketIn.Dequeued (s : SocketIn) (r : SocketIn × SocketPop) : Prop :=
  ((∀ bytes fds, r.2 ≠ .message bytes fds) ∧ (s.Waits .messages r.1 ∨ ∃ v, s.Closes .messages r.1 v)) ∨
    ∃ bytes fds, r.2 = .message bytes fds ∧ s.Takes .messages r.1 (.message bytes) fds

/-- A queue error closes the socket. -/
theorem SocketIn.dequeued_violation {s s₁ : SocketIn} (hb : s₁.queue.Bounded) (hv : s₁.violation = s.violation)
    (hfds : s.queue.fds.isSome) (htarget : s.queue.targetFds.isSome) :
    s.Dequeued (s₁.close .unexpectedFds, .eof) := by
  have hclose := SocketIn.coherent_close hb .messages .unexpectedFds
  refine .inl ⟨nofun, .inr ⟨.unexpectedFds, hclose.1, hclose.2, ?_, .inr ⟨rfl, hfds, fun _ => htarget⟩, ⟨rfl, rfl⟩⟩⟩
  show s₁.violation.or _ = _
  rw [hv]

/-- With the message allocated, its body is taken from the target and the window. -/
theorem SocketIn.Coherent.dequeueBody {s : SocketIn} (h : s.Coherent .messages) {header : Bytes} {n : ℕ}
    (hm : s.message = some (header, n)) : s.Dequeued (socketDequeueBody s) := by
  obtain ⟨hcursor, hmode⟩ := h.mode
  rw [hm] at hmode
  obtain ⟨hheader, hn, t, ht, htn, hle⟩ := hmode
  have hmin := messageHeaderSize_le hn
  have hcheck : s.queue.check s.message.isSome = s.queue := by
    rw [hm]
    exact s.queue.check_true
  have hheld : s.held = header ++ t.copied := by
    rw [SocketIn.held, hm, ht]
    rfl
  have hrest : s.rest = header ++ (t.copied ++ s.queue.window) := by
    rw [SocketIn.rest, hheld, List.append_assoc]
  have hnext := nextItem_header hheader (t.copied ++ s.queue.window)
  rw [← hrest, hn] at hnext
  dsimp only at hnext
  have hlength : s.rest.length = messageHeaderSize + t.copied.length + s.queue.window.length := by
    rw [hrest, List.length_append, List.length_append, hheader]
    omega
  have hpop := dataPopped_iqueuePopData h.bounded hcursor ht hle true
  rw [socketDequeueBody]
  simp only [hcheck]
  revert hpop
  obtain ⟨q, r⟩ := iqueuePopData s.queue true
  cases r with
  | violation =>
    rintro ⟨hb, -, hfds, htarget⟩
    exact @SocketIn.dequeued_violation _ { s with queue := q } hb rfl hfds htarget
  | pending =>
    rintro ⟨hb, hcur, hshort, hwindow, htarget, hfds, hsingle⟩
    refine .inl ⟨fun bytes fds => ?_, .inl ⟨⟨hb, ⟨hcur, ?_⟩, fun set hset => ?_, h.hup⟩, ?_, rfl, ?_, ?_,
      ⟨s.queue.window.length, ?_⟩, hb.drained hcur hwindow, .inl ?_⟩⟩
    · simp only [SocketIn.noData]
      split <;> exact nofun
    · show match s.message with
        | none => _
        | some (header, n) => header.length = messageHeaderSize ∧ messageNewIncoming header = some n ∧
            ∃ t, q.target = some t ∧ t.nData = n - messageHeaderSize ∧ t.copied.length ≤ t.nData
      rw [hm]
      refine ⟨hheader, hn, _, htarget, htn, ?_⟩
      rw [List.length_append]
      show _ ≤ t.nData
      omega
    · have hset' : (s.queue.movedFds []).1 = some set := by
        rw [← hfds]
        exact hset
      exact absurd rfl (IQueue.movedFds_fst hset').2
    · rw [SocketIn.rest, SocketIn.held, hrest]
      show (s.message.elim [] (·.1) ++ q.target.elim [] (·.copied)) ++ q.window = _
      rw [hm, htarget, hwindow, List.append_nil]
      rfl
    · show (q.fds, q.targetFds) = _
      rw [hfds, hwindow]
    · exact fun hboth => hsingle hboth.2
    · exact hwindow.trans (List.drop_length).symm
    · rw [hnext, if_pos (by omega)]
  | data bytes fds =>
    rintro ⟨hb, hcur, henough, hbytes, hwindow, htarget, hqfds, hpopped, hsingle⟩
    rw [if_pos rfl] at hpopped
    have hsize : (header ++ bytes).length = n := by
      rw [List.length_append, hheader, hbytes, List.length_append, List.length_take]
      omega
    have hsplit : s.rest = (header ++ bytes) ++ q.window := by
      rw [hrest, hbytes, hwindow, List.append_assoc, List.append_assoc, List.take_append_drop]
    have htake : s.rest.take n = header ++ bytes := by
      rw [hsplit, ← hsize, List.take_left]
    have hheld' : ({ s with queue := q, message := none } : SocketIn).held = [] := by
      show [] ++ q.target.elim [] (·.copied) = []
      rw [htarget]
      rfl
    have hcoherent : ({ s with queue := q, message := none } : SocketIn).Coherent .messages := by
      refine ⟨hb, ⟨hcur, fun t ht => nomatch htarget.symm.trans ht⟩, fun set hset => ?_, h.hup⟩
      have hset' := IQueue.movedFds_fst (hqfds.symm.trans hset)
      exact ⟨(h.fds set hset'.1).1, hb.cursor_lt hcur hset'.2⟩
    rw [hm]
    refine .inr ⟨header ++ bytes, fds, rfl, ⟨⟨hcoherent, hcoherent⟩, ?_, ?_, rfl, hheld', ⟨_, hwindow⟩, hpopped.1, ?_, hsingle⟩⟩
    · rw [hnext, if_neg (by omega), htake]
    · rw [SocketIn.rest, hheld', List.nil_append, hsplit]
      show q.window = List.drop (header ++ bytes).length _
      rw [List.drop_left]
    · exact Prod.ext hqfds hpopped.2

/-- What a socket does after some bytes moved from its window to its target, it does as well before. -/
theorem SocketIn.Dequeued.of_moved {s s₁ : SocketIn} {r : SocketIn × SocketPop} (h : s₁.Dequeued r)
    (hrest : s₁.rest = s.rest) (hv : s₁.violation = s.violation)
    (hfds : (s₁.queue.fds, s₁.queue.targetFds) = s.queue.movedFds s₁.queue.window)
    (hsingle : ¬(s₁.queue.window = [] ∧ s.queue.fds.isSome ∧ s.queue.targetFds.isSome))
    (hwindow : ∃ k, s₁.queue.window = s.queue.window.drop k) : s.Dequeued r := by
  obtain ⟨k, hk⟩ := hwindow
  have hempty {w : Bytes} (hw : ∃ k, w = s₁.queue.window.drop k) : s₁.queue.window = [] → w = [] := by
    obtain ⟨j, rfl⟩ := hw
    intro hnil
    rw [hnil, List.drop_nil]
  have hsingle' {w : Bytes} (hw : ¬(w = [] ∧ s₁.queue.fds.isSome ∧ s₁.queue.targetFds.isSome)) :
      ¬(w = [] ∧ s.queue.fds.isSome ∧ s.queue.targetFds.isSome) := by
    rintro ⟨hnil, hboth⟩
    have hne : s₁.queue.window ≠ [] := fun h => hsingle ⟨h, hboth⟩
    have hsame : s.queue.movedFds s₁.queue.window = (s.queue.fds, s.queue.targetFds) := by
      rw [IQueue.movedFds, if_neg]
      rw [Bool.and_eq_true, List.isEmpty_iff]
      exact fun hc => hne hc.1
    rw [hsame] at hfds
    obtain ⟨h1, h2⟩ := Prod.mk.inj hfds
    exact hw ⟨hnil, by rw [h1, h2]; exact hboth⟩
  have hdrop {w : Bytes} (hw : ∃ j, w = s₁.queue.window.drop j) : ∃ j, w = s.queue.window.drop j := by
    obtain ⟨j, rfl⟩ := hw
    exact ⟨k + j, by rw [hk, List.drop_drop]⟩
  rcases h with ⟨hno, hw | ⟨v, hc⟩⟩ | ⟨bytes, fds, hr, ht⟩
  · refine .inl ⟨hno, .inl ⟨hw.coherent, hw.rest.trans hrest, hw.violation.trans hv, ?_, hsingle' hw.single,
      hdrop hw.window, hw.drained, ?_⟩⟩
    · rw [hw.fds, IQueue.movedFds_trans hfds (hempty hw.window)]
    · rw [← hrest]
      exact hw.stuck
  · refine .inl ⟨hno, .inr ⟨v, hc.coherent, hc.rest, ?_, ?_, hc.fds⟩⟩
    · rw [hc.violation, hv]
    · rw [← hrest]
      refine hc.cause.imp_right ?_
      rintro ⟨hv, hsome, htarget⟩
      obtain ⟨h1, h2⟩ := IQueue.movedFds_both hfds hsome
      rw [← h1, ← h2]
      exact ⟨hv, hsome, htarget⟩
  · refine .inr ⟨bytes, fds, hr, ⟨ht.coherent, ?_, ?_, ht.violation.trans hv, ht.held, hdrop ht.window, ?_, ?_,
      hsingle' ht.single⟩⟩
    · rw [← hrest]
      exact ht.next
    · rw [← hrest]
      exact ht.rest
    · rw [ht.popped, IQueue.movedFds_trans hfds (hempty ht.window)]
    · rw [ht.fds, IQueue.movedFds_trans hfds (hempty ht.window)]

/-- Without a message the header is taken from the target and the window, and then the body. -/
theorem SocketIn.Coherent.dequeueHeader {s : SocketIn} (h : s.Coherent .messages) (hm : s.message = none)
    {t : IQueueTarget} (ht : s.queue.target = some t) : s.Dequeued (socketDequeue s true) := by
  obtain ⟨hcursor, hmode⟩ := h.mode
  rw [hm] at hmode
  obtain ⟨htn, hle⟩ := hmode t ht
  have hheld : s.held = t.copied := by
    rw [SocketIn.held, hm, ht]
    rfl
  have hrest : s.rest = t.copied ++ s.queue.window := by rw [SocketIn.rest, hheld]
  have hpop := dataPopped_iqueuePopData h.bounded hcursor ht hle false
  rw [socketDequeue]
  simp only [ht, Option.isNone_some, Bool.false_eq_true, if_false, Bool.not_true, hm, Option.isSome_none]
  revert hpop
  obtain ⟨q, r⟩ := iqueuePopData s.queue false
  cases r with
  | violation =>
    rintro ⟨hb, -, hfds, htarget⟩
    exact @SocketIn.dequeued_violation _ { s with queue := q, message := none } hb rfl hfds htarget
  | pending =>
    rintro ⟨hb, hcur, hshort, hwindow, htarget, hfds, hsingle⟩
    refine .inl ⟨fun bytes fds => ?_, .inl ⟨⟨hb, ⟨hcur, ?_⟩, fun set hset => ?_, h.hup⟩, ?_, rfl, ?_, ?_,
      ⟨s.queue.window.length, ?_⟩, hb.drained hcur hwindow, .inl ?_⟩⟩
    · simp only [SocketIn.noData]
      split <;> exact nofun
    · intro t' ht'
      cases htarget.symm.trans ht'
      refine ⟨htn, ?_⟩
      rw [List.length_append]
      show _ ≤ t.nData
      omega
    · have hset' : (s.queue.movedFds []).1 = some set := by
        rw [← hfds]
        exact hset
      exact absurd rfl (IQueue.movedFds_fst hset').2
    · rw [SocketIn.rest, SocketIn.held, hrest]
      show ([] ++ q.target.elim [] (·.copied)) ++ q.window = _
      rw [htarget, hwindow, List.append_nil]
      rfl
    · show (q.fds, q.targetFds) = _
      rw [hfds, hwindow]
    · exact fun hboth => hsingle hboth.2
    · exact hwindow.trans (List.drop_length).symm
    · rw [nextItem, if_pos]
      rw [hrest, List.length_append]
      omega
  | data header fds =>
    rintro ⟨hb, hcur, henough, hbytes, hwindow, htarget, hqfds, hpopped, hsingle⟩
    rw [if_neg Bool.false_ne_true] at hpopped
    have hsize : header.length = messageHeaderSize := by
      rw [hbytes, List.length_append, List.length_take]
      omega
    have hsplit : s.rest = header ++ q.window := by
      rw [hrest, hbytes, hwindow, List.append_assoc, List.take_append_drop]
    have hnext := nextItem_header hsize q.window
    rw [← hsplit] at hnext
    cases hn : messageNewIncoming header with
    | none =>
      rw [hn] at hnext
      have hclose := SocketIn.coherent_close (s := { s with queue := q, message := none }) hb .messages .invalidHeader
      simp only [hn]
      exact .inl ⟨nofun, .inr ⟨.invalidHeader, hclose.1, hclose.2, rfl, .inl hnext, ⟨rfl, rfl⟩⟩⟩
    | some n =>
      have hcheck : q.check q.target.isNone = q := by
        rw [htarget]
        exact q.check_true
      have hset : iqueueSetTarget q (n - messageHeaderSize) true =
          ({ q with target := some ⟨n - messageHeaderSize, []⟩ }, true) := by
        rw [iqueueSetTarget, hcheck]
        rfl
      simp only [hn, hset, Bool.not_true, Bool.false_eq_true, if_false]
      have hcoherent : ({ s with
          queue := { q with target := some ⟨n - messageHeaderSize, []⟩ }
          message := some (header, n) } : SocketIn).Coherent .messages := by
        refine ⟨⟨hb.start, hb.cursor, hb.stop, hb.memory, hb.size, hb.assertion⟩,
          ⟨hcur, hsize, hn, _, rfl, rfl, Nat.zero_le _⟩, fun set hset => ?_, h.hup⟩
        have hset' := IQueue.movedFds_fst (hqfds.symm.trans hset)
        exact ⟨(h.fds set hset'.1).1, hb.cursor_lt hcur hset'.2⟩
      refine (hcoherent.dequeueBody rfl).of_moved ?_ rfl ?_ hsingle ⟨_, hwindow⟩
      · rw [hsplit]
        show ((header ++ []) ++ q.window) = _
        rw [List.append_nil]
      · exact Prod.ext hqfds hpopped.2

/-- `socket_dequeue` waits, closes the socket or takes a message. -/
theorem SocketIn.Coherent.dequeue {s : SocketIn} (h : s.Coherent .messages) : s.Dequeued (socketDequeue s true) := by
  obtain ⟨hcursor, hmode⟩ := h.mode
  cases hm : s.message with
  | some message =>
    obtain ⟨header, n⟩ := message
    have hbody := h.dequeueBody hm
    rw [hm] at hmode
    obtain ⟨-, -, t, ht, -, -⟩ := hmode
    rw [socketDequeue]
    simp only [ht, Option.isNone_some, Bool.false_eq_true, if_false, Bool.not_true, hm, Option.isSome_some, if_true]
    rw [← hm]
    exact hbody
  | none =>
    cases ht : s.queue.target with
    | some t => exact h.dequeueHeader hm ht
    | none =>
      -- The target for the header is set first; the rest is as if it had been there.
      have hcheck : s.queue.check s.queue.target.isNone = s.queue := by
        rw [ht]
        exact s.queue.check_true
      have hset : iqueueSetTarget s.queue messageHeaderSize true =
          ({ s.queue with target := some ⟨messageHeaderSize, []⟩ }, true) := by
        rw [iqueueSetTarget, hcheck]
        rfl
      have hsame : socketDequeue s true =
          socketDequeue { s with queue := { s.queue with target := some ⟨messageHeaderSize, []⟩ } } true := by
        rw [socketDequeue, socketDequeue]
        simp only [ht, Option.isNone_none, if_true, hset, Option.isNone_some, Bool.false_eq_true, if_false]
      have hcoherent : ({ s with
          queue := { s.queue with target := some ⟨messageHeaderSize, []⟩ } } : SocketIn).Coherent .messages := by
        refine ⟨⟨h.bounded.start, h.bounded.cursor, h.bounded.stop, h.bounded.memory, h.bounded.size,
          h.bounded.assertion⟩, ⟨hcursor, ?_⟩, h.fds, h.hup⟩
        rw [hm]
        intro t ht
        cases ht
        exact ⟨rfl, Nat.zero_le _⟩
      rw [hsame]
      refine (hcoherent.dequeueHeader hm rfl).of_moved ?_ rfl ?_ ?_ ⟨0, rfl⟩
      · rw [SocketIn.rest, SocketIn.rest, SocketIn.held, SocketIn.held, ht]
        rfl
      · exact h.movedFds_window.symm
      · exact fun hboth => h.window_ne_nil hboth.2.1 hboth.1

/-! ## Reading -/

/-- A piece of the stream was read, straight to the target or to the input buffer. Descriptors are kept unless there
are some for the same message already. -/
structure SocketIn.Reads (s : SocketIn) (mode : Mode) (s' : SocketIn) (piece : Bytes) (set : Option (List ℕ))
    (direct spurious : Bool) : Prop where
  coherent : s'.Coherent mode
  rest : s'.rest = s.rest ++ piece
  violation : s'.violation = s.violation
  drained : s.queue.fds = none
  place : (s'.held = s.held ∧ s'.queue.fds = set ∧ s'.queue.targetFds = s.queue.targetFds ∧
      direct = false ∧ spurious = false) ∨
    (s.queue.window = [] ∧ s'.queue.window = [] ∧ s'.queue.fds = none ∧
      s'.queue.targetFds = s.queue.targetFds.or set ∧ direct = true ∧ spurious = s.queue.targetFds.isSome)

/-- Nothing was read; the window may have moved within the buffer. -/
structure SocketIn.Rests (s : SocketIn) (mode : Mode) (s' : SocketIn) : Prop where
  coherent : s'.Coherent mode
  held : s'.held = s.held
  window : s'.queue.window = s.queue.window
  violation : s'.violation = s.violation
  fds : s'.queue.fds = s.queue.fds
  targetFds : s'.queue.targetFds = s.queue.targetFds

/-- A queue with the same window, scanned as far, can take the place of another one. -/
theorem SocketIn.Coherent.replace {s : SocketIn} {mode : Mode} (h : s.Coherent mode) {q : IQueue} (hq : q.Bounded)
    (hwindow : q.window = s.queue.window) (hstart : q.dataStart = 0)
    (hcursor : q.dataCursor = s.queue.dataCursor - s.queue.dataStart) (htarget : q.target = s.queue.target)
    (hfds : q.fds = s.queue.fds) (htargetFds : q.targetFds = s.queue.targetFds) :
    s.Rests mode { s with queue := q } := by
  have hlen := h.bounded.length_window
  have hlen' := hq.length_window
  have hle := h.bounded.start
  refine ⟨⟨hq, ?_, ?_, h.hup⟩, ?_, hwindow, rfl, hfds, htargetFds⟩
  · cases mode with
    | lines sofar =>
      obtain ⟨hm, ht, htf, hs⟩ := h.mode
      refine ⟨hm, htarget.trans ht, htargetFds.trans htf, ⟨?_, fun hpos => absurd hpos (by simp [hstart])⟩⟩
      show crlfIndex (q.window.take (q.dataCursor - q.dataStart)) = none
      rw [hwindow, hstart, Nat.sub_zero, hcursor]
      exact hs.scanned
    | messages =>
      obtain ⟨hcur, hm⟩ := h.mode
      refine ⟨?_, ?_⟩
      · show q.dataCursor = q.dataStart
        omega
      · show match s.message with
          | none => ∀ t, q.target = some t → _
          | some (header, n) => header.length = messageHeaderSize ∧ messageNewIncoming header = some n ∧
              ∃ t, q.target = some t ∧ t.nData = n - messageHeaderSize ∧ t.copied.length ≤ t.nData
        rw [htarget]
        exact hm
  · intro set hset
    obtain ⟨hne, hlt⟩ := h.fds set (hfds.symm.trans hset)
    refine ⟨hne, ?_⟩
    show q.dataCursor < q.dataEnd
    rw [hwindow] at hlen'
    omega
  · rw [SocketIn.held, SocketIn.held]
    show s.message.elim [] (·.1) ++ q.target.elim [] (·.copied) = _
    rw [htarget]

/-- A target means that nothing of the window was scanned ahead of it. -/
theorem SocketIn.Coherent.cursor_of_target {s : SocketIn} {mode : Mode} (h : s.Coherent mode)
    (ht : s.queue.target.isSome) : s.queue.dataCursor = s.queue.dataStart := by
  cases mode with
  | lines sofar =>
    obtain ⟨-, hnone, -⟩ := h.mode
    rw [hnone] at ht
    exact nomatch ht
  | messages => exact h.mode.1

/-- Bytes that were read to the input buffer. -/
theorem SocketIn.Coherent.readBuffer {s : SocketIn} {mode : Mode} (h : s.Coherent mode) {q : IQueue}
    {cursor : IQueueCursor} (hc : CursorAt s.queue q cursor) {piece : Bytes} {room : ℕ} (hne : piece ≠ [])
    (hle : piece.length ≤ q.dataSize - q.dataEnd) (set : Option (List ℕ)) (hset : ∀ fds, set = some fds → fds ≠ []) :
    s.Reads mode { s with queue := iqueueReceive { q with fds := set } (.buffer room) piece } piece set false false := by
  have hfds : s.queue.fds = none := by
    cases hfds : s.queue.fds with
    | none => rfl
    | some set =>
      have hlt := (h.fds set hfds).2
      have hdrained := hc.drained
      omega
  have hcursor : q.dataCursor = s.queue.dataCursor - s.queue.dataStart := by
    have hlen := h.bounded.length_window
    have hlen' := hc.bounded.length_window
    rw [hc.window, hc.start] at hlen'
    have hdrained := hc.drained
    have hscanned := hc.scanned
    omega
  have hr := h.replace hc.bounded hc.window hc.start hcursor hc.target hc.fds hc.targetFds
  have hb : ({ q with fds := set } : IQueue).Bounded :=
    ⟨hc.bounded.start, hc.bounded.cursor, hc.bounded.stop, hc.bounded.memory, hc.bounded.size, hc.bounded.assertion⟩
  obtain ⟨hb', hwindow⟩ := hb.receive room hle hc.room
  have hwindow' : (iqueueReceive { q with fds := set } (.buffer room) piece).window = s.queue.window ++ piece := by
    rw [hwindow, ← hc.window]
    rfl
  have hpos := List.length_pos_of_ne_nil hne
  refine ⟨⟨hb', ?_, ?_, h.hup⟩, ?_, rfl, hfds, .inl ⟨hr.held, rfl, hc.targetFds, rfl, rfl⟩⟩
  · cases mode with
    | lines sofar =>
      obtain ⟨hm, ht, htf, hs⟩ := hr.coherent.mode
      refine ⟨hm, ht, htf, ⟨?_, fun hpos => absurd hpos (by simp [iqueueReceive, hc.start])⟩⟩
      show crlfIndex ((iqueueReceive { q with fds := set } (.buffer room) piece).window.take
        (q.dataCursor - q.dataStart)) = none
      have hlen := hc.bounded.length_window
      have hscanned := hc.scanned
      rw [hwindow', ← hc.window, List.take_append_of_le_length (by omega)]
      exact hs.scanned
    | messages => exact hr.coherent.mode
  · intro fds hfds
    refine ⟨hset fds hfds, ?_⟩
    show q.dataCursor < q.dataEnd + piece.length
    have hscanned := hc.scanned
    omega
  · rw [SocketIn.rest, SocketIn.rest]
    show ({ s with queue := q } : SocketIn).held ++ (iqueueReceive { q with fds := set } (.buffer room) piece).window = _
    rw [hr.held, hwindow', List.append_assoc]

/-- Bytes that were read straight to the target. -/
theorem SocketIn.Coherent.readTarget {s : SocketIn} {mode : Mode} (h : s.Coherent mode) {q : IQueue}
    {cursor : IQueueCursor} (hc : CursorAt s.queue q cursor) {piece : Bytes} {room : ℕ} {t : IQueueTarget}
    (ht : s.queue.target = some t) (hle : piece.length ≤ t.nData - t.copied.length) (set : Option (List ℕ))
    (targetFds : Option (List ℕ)) (hset : targetFds = s.queue.targetFds.or set) :
    s.Reads mode { s with queue := iqueueReceive { q with targetFds := targetFds } (.target room) piece } piece set
      true s.queue.targetFds.isSome := by
  have hfds : s.queue.fds = none := by
    cases hfds : s.queue.fds with
    | none => rfl
    | some set =>
      have hlt := (h.fds set hfds).2
      have hdrained := hc.drained
      omega
  have hcursor := h.cursor_of_target (by rw [ht]; rfl)
  have hnil : s.queue.window = [] := by
    have hdrained := hc.drained
    rw [← List.length_eq_zero_iff, h.bounded.length_window]
    omega
  have hwindow : q.window = [] := hc.window.trans hnil
  have hend : q.dataEnd = 0 := by
    have hlen := hc.bounded.length_window
    rw [hwindow, hc.start] at hlen
    exact hlen.symm
  have hbounded : (iqueueReceive { q with targetFds := targetFds } (.target room) piece).Bounded :=
    ⟨hc.bounded.start, hc.bounded.cursor, hc.bounded.stop, hc.bounded.memory, hc.bounded.size, hc.bounded.assertion⟩
  have hqt : (iqueueReceive { q with targetFds := targetFds } (.target room) piece).target =
      some ⟨t.nData, t.copied ++ piece⟩ := by
    show q.target.map _ = _
    rw [hc.target, ht]
    rfl
  cases mode with
  | lines sofar =>
    obtain ⟨-, hnone, -⟩ := h.mode
    exact nomatch hnone.symm.trans ht
  | messages =>
    obtain ⟨-, hmode⟩ := h.mode
    have hlen : t.copied.length ≤ t.nData → (t.copied ++ piece).length ≤ t.nData := by
      rw [List.length_append]
      omega
    refine ⟨⟨hbounded, ⟨?_, ?_⟩, ?_, h.hup⟩, ?_, rfl, hfds, .inr ⟨hnil, hwindow, hc.fds.trans hfds, hset, rfl, rfl⟩⟩
    · show q.dataCursor = q.dataStart
      rw [hc.scanned, hc.start, hend]
    · show match s.message with
        | none => ∀ t, (iqueueReceive { q with targetFds := targetFds } (.target room) piece).target = some t → _
        | some (header, n) => header.length = messageHeaderSize ∧ messageNewIncoming header = some n ∧
            ∃ t, (iqueueReceive { q with targetFds := targetFds } (.target room) piece).target = some t ∧
              t.nData = n - messageHeaderSize ∧ t.copied.length ≤ t.nData
      rw [hqt]
      revert hmode
      cases s.message with
      | none =>
        intro hmode t' ht'
        cases ht'
        obtain ⟨htn, htl⟩ := hmode t ht
        exact ⟨htn, hlen htl⟩
      | some message =>
        rintro ⟨hheader, hn, t', ht', htn, htl⟩
        cases ht.symm.trans ht'
        exact ⟨hheader, hn, _, rfl, htn, hlen htl⟩
    · intro set hq
      exact nomatch (hc.fds.trans hfds).symm.trans hq
    · rw [SocketIn.rest, SocketIn.rest, SocketIn.held, SocketIn.held, hnil, ht]
      show (s.message.elim [] (·.1) ++
        (iqueueReceive { q with targetFds := targetFds } (.target room) piece).target.elim [] (·.copied)) ++ q.window = _
      rw [hqt, hwindow]
      simp

/-- Some descriptors, or none. -/
def fdsOption (fds : List ℕ) : Option (List ℕ) := if fds.isEmpty then none else some fds

/-- `socket_recvmsg` at a cursor. -/
theorem SocketIn.Coherent.recvmsg {s : SocketIn} {mode : Mode} (h : s.Coherent mode) {q : IQueue}
    {cursor : IQueueCursor} (hc : CursorAt s.queue q cursor) (recv : ℕ → RecvResult) :
    0 < cursor.room ∧
    (recv cursor.room = .again → s.Rests mode (socketRecvmsg { s with queue := q } cursor cursor.room recv true)) ∧
    ∀ piece fds, recv cursor.room = .data piece fds false → piece ≠ [] → piece.length ≤ cursor.room →
      s.Reads mode (socketRecvmsg { s with queue := q } cursor cursor.room recv true) piece (fdsOption fds)
        cursor.isTarget (q.fdsAt cursor).isSome := by
  have hcursor : q.dataCursor = s.queue.dataCursor - s.queue.dataStart := by
    have hlen := h.bounded.length_window
    have hlen' := hc.bounded.length_window
    rw [hc.window, hc.start] at hlen'
    have hdrained := hc.drained
    have hscanned := hc.scanned
    omega
  have hr := h.replace hc.bounded hc.window hc.start hcursor hc.target hc.fds hc.targetFds
  have hsize := hc.room
  have hchoice := hc.choice
  rw [iqueueChoose] at hchoice
  have hpos : 0 < cursor.room := by
    rw [hchoice]
    split
    · simp only [IQueueCursor.room]
      omega
    · have hrecv : 0 < iqueueRecvMax := by decide
      simp only [IQueueCursor.room]
      omega
  have hcheck : q.check (decide (0 < cursor.room)) = q := by
    rw [decide_eq_true hpos]
    exact q.check_true
  refine ⟨hpos, ?_, ?_⟩
  · intro hagain
    rw [socketRecvmsg]
    simp only [hcheck, hagain]
    exact hr
  · intro piece fds hdata hne hle
    have hsets (set : List ℕ) (hset : fdsOption fds = some set) : set ≠ [] := by
      rw [fdsOption] at hset
      split at hset
      · exact nomatch hset
      next hnot =>
        cases hset
        simpa using hnot
    rw [socketRecvmsg]
    simp only [hcheck, hdata, Bool.false_eq_true, if_false, Bool.not_true]
    split at hchoice
    next htarget =>
      subst hchoice
      obtain ⟨t, ht⟩ : ∃ t, s.queue.target = some t := by
        cases ht : s.queue.target with
        | some t => exact ⟨t, rfl⟩
        | none =>
          rw [IQueue.missing, hc.target, ht] at htarget
          simp only [Option.elim_none] at htarget
          omega
      have hmissing : q.missing = t.nData - t.copied.length := by
        rw [IQueue.missing, hc.target, ht]
        rfl
      have hfit : piece.length ≤ t.nData - t.copied.length := by
        rw [← hmissing]
        exact hle
      have hread (targetFds : Option (List ℕ)) (hset : targetFds = s.queue.targetFds.or (fdsOption fds)) :=
        @SocketIn.Coherent.readTarget s _ h _ _ hc _ q.missing _ ht hfit (fdsOption fds) targetFds hset
      have hat : q.fdsAt (.target q.missing) = s.queue.targetFds := hc.targetFds
      rw [hat]
      cases htf : s.queue.targetFds with
      | some set =>
        have hkeep := hread q.targetFds (by rw [hc.targetFds, htf]; rfl)
        rw [htf] at hkeep
        simpa [htf, IQueueCursor.isTarget] using hkeep
      | none =>
        rw [htf] at hread
        by_cases hempty : fds.isEmpty = true
        · have hkeep := hread q.targetFds (by rw [hc.targetFds, htf, fdsOption, if_pos hempty]; rfl)
          simpa [hempty, IQueueCursor.isTarget] using hkeep
        · have hnew := hread (some fds) (by rw [fdsOption, if_neg hempty]; rfl)
          simpa [hempty, IQueue.setFdsAt, IQueueCursor.isTarget] using hnew
    next hbuffer =>
      subst hchoice
      have hfit : piece.length ≤ q.dataSize - q.dataEnd := Nat.le_trans hle (Nat.min_le_left _ _)
      have hread := @SocketIn.Coherent.readBuffer s _ h _ _ hc _ (min (q.dataSize - q.dataEnd) iqueueRecvMax) hne hfit (fdsOption fds) hsets
      have hnone : q.fds = none := hc.fds.trans hread.drained
      have hat : q.fdsAt (.buffer (min (q.dataSize - q.dataEnd) iqueueRecvMax)) = none := hnone
      rw [hat]
      by_cases hempty : fds.isEmpty = true
      · have hsame : ({ q with fds := fdsOption fds } : IQueue) = q := by
          rw [fdsOption, if_pos hempty, ← hnone]
        rw [hsame] at hread
        simpa [hempty, IQueueCursor.isTarget] using hread
      · have hsame : fdsOption fds = some fds := by rw [fdsOption, if_neg hempty]
        rw [hsame] at hread ⊢
        simpa [hempty, IQueue.setFdsAt, IQueueCursor.isTarget] using hread

/-- The line in the window is too long once the largest buffer is full of it. -/
theorem SocketIn.Coherent.lineTooLong {s : SocketIn} {mode : Mode} (h : s.Coherent mode)
    (hdrained : s.queue.dataCursor = s.queue.dataEnd) (hlen : s.queue.window.length = iqueueLineMax) :
    nextItem mode s.rest = .violation .lineTooLong := by
  have hlength := h.bounded.length_window
  cases mode with
  | lines sofar =>
    obtain ⟨hm, ht, -, hs⟩ := h.mode
    obtain ⟨-, hrest⟩ := SocketIn.rest_lines hm ht
    have hscanned := hs.scanned
    rw [hdrained, ← hlength, List.take_length] at hscanned
    rw [hrest, nextItem, List.take_of_length_le (Nat.le_of_eq hlen), hscanned]
    dsimp only
    rw [if_neg (by omega)]
  | messages =>
    have hcursor := h.mode.1
    have hmax : 0 < iqueueLineMax := by decide
    omega

/-- `socket_dispatch_read` reads nothing, closes the socket because of a line that is too long, or reads a piece. -/
theorem SocketIn.Coherent.dispatchRead {s : SocketIn} {mode : Mode} (h : s.Coherent mode) (hup : s.hupIn = false)
    (recv : ℕ → RecvResult) :
    let s' := socketDispatchRead s recv true
    (s.cursor = none ∧
      (s.Rests mode s' ∧ s.queue.dataCursor < s.queue.dataEnd ∨ s.Closes mode s' .lineTooLong)) ∨
    ∃ cursor, s.cursor = some cursor ∧ s.queue.window.length < iqueueLineMax ∧ 0 < cursor.room ∧ (recv cursor.room = .again → s.Rests mode s') ∧
      ∀ piece fds, recv cursor.room = .data piece fds false → piece ≠ [] → piece.length ≤ cursor.room →
        s.Reads mode s' piece (fdsOption fds) cursor.isTarget
          ((iqueueGetCursor s.queue true).1.fdsAt cursor).isSome := by
  have hcases := iqueueGetCursor_cases h.bounded h.cursor_of_target
  have hshift := h.bounded.shift
  have hrests := h.replace (q := iqueueShift s.queue) hshift.1 hshift.2 rfl rfl rfl rfl rfl
  dsimp only at hcases ⊢
  rw [socketDispatchRead, SocketIn.cursor, if_neg (by simp [hup]), if_neg (by simp [hup])]
  revert hcases
  obtain ⟨q, cursor⟩ := iqueueGetCursor s.queue true
  rintro (⟨rfl, rfl, hlt⟩ | ⟨rfl, rfl, hdrained, hlen⟩ | hc)
  · exact .inl ⟨rfl, .inl ⟨hrests, hlt⟩⟩
  · have hclose := SocketIn.coherent_close (s := { s with queue := iqueueShift s.queue }) hshift.1 mode .lineTooLong
    exact .inl ⟨rfl, .inr ⟨hclose.1, hclose.2, rfl, .inl (h.lineTooLong hdrained hlen), ⟨rfl, rfl⟩⟩⟩
  · obtain ⟨hpos, hagain, hread⟩ := h.recvmsg hc recv
    have hshort : s.queue.window.length < iqueueLineMax := by
      have hlen := hc.bounded.length_window
      have hroom := hc.room
      have hsize := hc.bounded.size
      have hrecv : iqueueRecvMax ≤ iqueueLineMax := by decide
      rw [hc.window, hc.start] at hlen
      split at hsize <;> omega
    dsimp only at hpos hagain hread
    cases cursor with
    | target room => exact .inr ⟨_, rfl, hshort, hpos, hagain, hread⟩
    | buffer room => exact .inr ⟨_, rfl, hshort, hpos, hagain, hread⟩
    | pending => exact absurd hpos (Nat.lt_irrefl 0)
    | quota => exact absurd hpos (Nat.lt_irrefl 0)
    | violation => exact absurd hpos (Nat.lt_irrefl 0)

end DbusBroker
