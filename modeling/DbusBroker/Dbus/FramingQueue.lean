import DbusBroker.Dbus.Framing

/-!
# The input queue as a window of the stream

Between two operations the input queue holds a part of the stream: what was copied to the target,
followed by the bytes between `data_start` and `data_end`. Every function of the queue is described by
what it does to these bytes.
-/

namespace DbusBroker

/-! ## The window -/

/-- The bytes in the input buffer that were not taken yet. -/
def IQueue.window (q : IQueue) : Bytes := (q.data.take q.dataEnd).drop q.dataStart

/-- The indices of a queue are in order, and the buffer is one of the two. -/
structure IQueue.Bounded (q : IQueue) : Prop where
  start : q.dataStart ≤ q.dataCursor
  cursor : q.dataCursor ≤ q.dataEnd
  stop : q.dataEnd ≤ q.dataSize
  memory : q.data.length = q.dataSize
  size : q.dataSize = if q.allocated then iqueueLineMax else iqueueRecvMax
  assertion : q.assertFailed = false

theorem IQueue.Bounded.length_window {q : IQueue} (h : q.Bounded) :
    q.window.length = q.dataEnd - q.dataStart := by
  have := h.memory
  have := h.stop
  rw [IQueue.window, List.length_drop, List.length_take]
  omega

theorem bounded_init : IQueue.init.Bounded :=
  ⟨Nat.le_refl _, Nat.le_refl _, Nat.zero_le _, List.length_replicate, rfl, rfl⟩

@[simp] theorem IQueue.check_true (q : IQueue) : q.check true = q := by
  rw [IQueue.check, Bool.not_true, Bool.or_false]

/-! ## The cursor -/

/-- A shift moves the window to the start of the buffer. -/
theorem IQueue.Bounded.shift {q : IQueue} (h : q.Bounded) :
    (iqueueShift q).Bounded ∧ (iqueueShift q).window = q.window := by
  have hstart := h.start
  have hcursor := h.cursor
  have hstop := h.stop
  have hmemory := h.memory
  have hlen : ((q.data.drop q.dataStart).take (q.dataEnd - q.dataStart)).length = q.dataEnd - q.dataStart := by
    rw [List.length_take, List.length_drop]
    omega
  constructor
  · refine ⟨Nat.zero_le _, ?_, ?_, ?_, h.size, h.assertion⟩
    · simp only [iqueueShift]
      omega
    · simp only [iqueueShift]
      omega
    · simp only [iqueueShift, List.length_append, List.length_drop, hlen]
      omega
  · simp only [IQueue.window, iqueueShift, List.drop_zero]
    rw [List.take_append_of_le_length (by omega), List.take_of_length_le (by omega), List.drop_take]

/-- The queue with its window in a buffer of another size. -/
def IQueue.resize (q : IQueue) (allocated : Bool) : IQueue :=
  let n := if allocated then iqueueLineMax else iqueueRecvMax
  { q with data := q.data.take q.dataEnd ++ List.replicate (n - q.dataEnd) 0, allocated := allocated, dataSize := n }

/-- A window at the start of the buffer can be moved to a buffer that it fits. -/
theorem IQueue.Bounded.resize {q : IQueue} (h : q.Bounded) {allocated : Bool}
    (hfit : q.dataEnd ≤ if allocated then iqueueLineMax else iqueueRecvMax) :
    (q.resize allocated).Bounded ∧ (q.resize allocated).window = q.window := by
  have hmemory := h.memory
  have hstop := h.stop
  have htake : (q.data.take q.dataEnd).length = q.dataEnd := by
    rw [List.length_take]
    omega
  constructor
  · refine ⟨h.start, h.cursor, hfit, ?_, rfl, h.assertion⟩
    simp only [IQueue.resize, List.length_append, List.length_replicate, htake]
    omega
  · simp only [IQueue.window, IQueue.resize]
    rw [List.take_append_of_le_length (by omega), List.take_of_length_le (by omega)]

/-- The queue after `iqueue_get_cursor`, when it returns a place to read to: nothing is left to scan, and the window
is the same, at the start of the buffer. -/
structure CursorAt (q q' : IQueue) (cursor : IQueueCursor) : Prop where
  bounded : q'.Bounded
  window : q'.window = q.window
  start : q'.dataStart = 0
  scanned : q'.dataCursor = q'.dataEnd
  drained : q.dataCursor = q.dataEnd
  target : q'.target = q.target
  fds : q'.fds = q.fds
  targetFds : q'.targetFds = q.targetFds
  choice : cursor = iqueueChoose q'
  room : q'.dataEnd < q'.dataSize

/-- What `iqueue_get_cursor` does, where a target means that nothing was scanned ahead of it. -/
theorem iqueueGetCursor_cases {q : IQueue} (h : q.Bounded) (htarget : q.target.isSome → q.dataCursor = q.dataStart) :
    let r := iqueueGetCursor q true
    (r.2 = .pending ∧ r.1 = iqueueShift q ∧ q.dataCursor < q.dataEnd) ∨
    (r.2 = .violation ∧ r.1 = iqueueShift q ∧ q.dataCursor = q.dataEnd ∧ q.window.length = iqueueLineMax) ∨
    CursorAt q r.1 r.2 := by
  obtain ⟨hs, hwindow⟩ := h.shift
  have hlen := h.length_window
  have hstart := h.start
  have hcursor := h.cursor
  have hend : (iqueueShift q).dataEnd = q.dataEnd - q.dataStart := rfl
  have hcur : (iqueueShift q).dataCursor = q.dataCursor - q.dataStart := rfl
  have hsize := hs.size
  have hstop := hs.stop
  dsimp only
  rw [iqueueGetCursor]
  dsimp only
  split
  next hlt => exact .inl ⟨rfl, rfl, by omega⟩
  next hge =>
  have hdrained : q.dataCursor = q.dataEnd := by omega
  have hscanned : (iqueueShift q).dataCursor = (iqueueShift q).dataEnd := by omega
  cases hal : (iqueueShift q).allocated with
  | true =>
    rw [hal, if_pos rfl] at hsize
    split
    next hfull =>
      rw [if_pos (Nat.le_of_eq hsize.symm)]
      exact .inr (.inl ⟨rfl, rfl, hdrained, by omega⟩)
    next hroom =>
      cases ht : (iqueueShift q).target with
      | none => exact .inr (.inr ⟨hs, hwindow, rfl, hscanned, hdrained, rfl, rfl, rfl, rfl, Nat.lt_of_not_le hroom⟩)
      | some t =>
        have hzero := htarget (show q.target.isSome = true by rw [show q.target = some t from ht]; rfl)
        have hend0 : (iqueueShift q).dataEnd = 0 := by omega
        have hfit : (iqueueShift q).dataEnd ≤ if false then iqueueLineMax else iqueueRecvMax := by
          rw [hend0]
          exact Nat.zero_le _
        have hshrink : iqueueShrink (iqueueShift q) = (iqueueShift q).resize false := by
          have hassert : decide ((iqueueShift q).dataEnd ≤ iqueueRecvMax) = true := by
            rw [hend0]
            rfl
          have hstart0 : ((iqueueShift q).dataStart == 0) = true := rfl
          rw [iqueueShrink, hstart0, IQueue.check_true, hassert, IQueue.check_true]
          rfl
        have hr := hs.resize hfit
        rw [Option.isSome_some, Bool.and_true, if_pos rfl, hshrink]
        refine .inr (.inr ⟨hr.1, hr.2.trans hwindow, rfl, hscanned, hdrained, rfl, rfl, rfl, rfl, ?_⟩)
        show (iqueueShift q).dataEnd < iqueueRecvMax
        rw [hend0]
        decide
  | false =>
    rw [hal, if_neg Bool.false_ne_true] at hsize
    split
    next hfull =>
      have hmax : ¬ iqueueLineMax ≤ (iqueueShift q).dataSize := by
        rw [hsize]
        decide
      have hend2 : (iqueueShift q).dataEnd = iqueueRecvMax := by omega
      have hfit : (iqueueShift q).dataEnd ≤ if true then iqueueLineMax else iqueueRecvMax := by
        rw [hend2]
        decide
      have henlarge : iqueueEnlarge (iqueueShift q) = (iqueueShift q).resize true := by
        have hstart0 : ((iqueueShift q).dataStart == 0) = true := rfl
        have hassert : (!(iqueueShift q).allocated) = true := by
          rw [hal]
          rfl
        rw [iqueueEnlarge, hstart0, IQueue.check_true, hassert, IQueue.check_true]
        rfl
      have hr := hs.resize hfit
      rw [if_neg hmax, Bool.not_true, if_neg Bool.false_ne_true, henlarge]
      refine .inr (.inr ⟨hr.1, hr.2.trans hwindow, rfl, hscanned, hdrained, rfl, rfl, rfl, rfl, ?_⟩)
      show (iqueueShift q).dataEnd < iqueueLineMax
      rw [hend2]
      decide
    next hroom =>
      rw [Bool.false_and, if_neg Bool.false_ne_true]
      exact .inr (.inr ⟨hs, hwindow, rfl, hscanned, hdrained, rfl, rfl, rfl, rfl, Nat.lt_of_not_le hroom⟩)

/-- Bytes that fit are appended to the window. -/
theorem IQueue.Bounded.receive {q : IQueue} (h : q.Bounded) {bytes : Bytes} (room : ℕ)
    (hfit : bytes.length ≤ q.dataSize - q.dataEnd) (hroom : q.dataEnd < q.dataSize) :
    (iqueueReceive q (.buffer room) bytes).Bounded ∧
      (iqueueReceive q (.buffer room) bytes).window = q.window ++ bytes := by
  have hmemory := h.memory
  have hstart := h.start
  have hcursor := h.cursor
  have htake : (q.data.take q.dataEnd).length = q.dataEnd := by
    rw [List.length_take]
    omega
  constructor
  · refine ⟨hstart, ?_, ?_, ?_, h.size, h.assertion⟩
    · simp only [iqueueReceive]
      omega
    · simp only [iqueueReceive]
      omega
    · simp only [iqueueReceive, List.length_append, List.length_drop, htake]
      omega
  · have hlen : (q.data.take q.dataEnd ++ bytes).length = q.dataEnd + bytes.length := by
      rw [List.length_append, htake]
    simp only [IQueue.window, iqueueReceive]
    rw [List.take_append_of_le_length (Nat.le_of_eq hlen.symm), List.take_of_length_le (Nat.le_of_eq hlen),
      List.drop_append_of_le_length (by omega)]

/-! ## Lines -/

/-- One more byte ends a line exactly if it is the newline after a carriage return. -/
theorem crlfIndex_concat {xs : Bytes} (h : crlfIndex xs = none) (b : UInt8) :
    crlfIndex (xs ++ [b]) = if xs.getLast? = some 0x0d ∧ b = 0x0a then some (xs.length - 1) else none := by
  induction xs with
  | nil => simp [crlfIndex]
  | cons a rest ih =>
    cases rest with
    | nil =>
      by_cases ha : a = 0x0d ∧ b = 0x0a
      · simp [crlfIndex, ha]
      · simp [crlfIndex, ha]
    | cons c rest =>
      rw [crlfIndex] at h
      split at h
      · cases h
      next hne =>
      have ih := ih (Option.map_eq_none_iff.mp h)
      rw [List.cons_append, List.cons_append, crlfIndex, if_neg hne, ← List.cons_append, ih, List.getLast?_cons_cons]
      split
      · simp
      · rfl

/-- A line end that was found stays the first one. -/
theorem crlfIndex_append {xs : Bytes} {i : ℕ} (h : crlfIndex xs = some i) (ys : Bytes) :
    crlfIndex (xs ++ ys) = some i := by
  induction xs generalizing i with
  | nil => exact nomatch h
  | cons a rest ih =>
    cases rest with
    | nil => exact nomatch h
    | cons b rest =>
      rw [crlfIndex] at h
      rw [List.cons_append, List.cons_append, crlfIndex]
      split
      next heq =>
        rw [if_pos heq] at h
        exact h
      next hne =>
        rw [if_neg hne] at h
        obtain ⟨j, hj, rfl⟩ := Option.map_eq_some_iff.mp h
        rw [← List.cons_append, ih hj]
        rfl

/-- Where a line end is found, the stream has one. -/
theorem crlfIndex_eq_some {s : Bytes} {i : ℕ} (h : crlfIndex s = some i) :
    s = s.take i ++ (0x0d :: 0x0a :: s.drop (i + 2)) := by
  induction s generalizing i with
  | nil => exact nomatch h
  | cons a rest ih =>
    cases rest with
    | nil => exact nomatch h
    | cons b rest =>
      rw [crlfIndex] at h
      split at h
      next heq =>
        cases h
        rw [heq.1, heq.2]
        rfl
      next =>
        obtain ⟨j, hj, rfl⟩ := Option.map_eq_some_iff.mp h
        have := ih hj
        rw [List.take_succ_cons, List.cons_append, List.drop_succ_cons, ← this]

/-- What was scanned of the window has no line end, and the byte before the window is not a carriage return that
could be taken for the start of one. -/
structure IQueue.Scanned (q : IQueue) (cursor : ℕ) : Prop where
  scanned : crlfIndex (q.window.take (cursor - q.dataStart)) = none
  before : 0 < q.dataStart → q.data[q.dataStart - 1]? ≠ some 0x0d

/-- The bytes of the window are those of the buffer. -/
theorem IQueue.getElem?_window (q : IQueue) {i : ℕ} (hi : q.dataStart + i < q.dataEnd) :
    q.window[i]? = q.data[q.dataStart + i]? := by
  rw [IQueue.window, List.getElem?_drop, List.getElem?_take_of_lt hi]

/-- The test of `iqueue_pop_line` at a cursor is the test for a line end in the window. -/
theorem IQueue.Scanned.test {q : IQueue} {cursor : ℕ} (h : q.Scanned cursor) (hq : q.Bounded)
    (hstart : q.dataStart ≤ cursor) (hend : cursor < q.dataEnd) :
    crlfIndex (q.window.take (cursor + 1 - q.dataStart)) =
      if (0 < cursor && q.data[cursor]? == some 0x0a && q.data[cursor - 1]? == some 0x0d) = true
      then some (cursor - 1 - q.dataStart) else none := by
  have hlen := hq.length_window
  obtain ⟨p, rfl⟩ : ∃ p, cursor = q.dataStart + p := ⟨cursor - q.dataStart, by omega⟩
  have hp : p < q.window.length := by omega
  have hscanned := h.scanned
  rw [Nat.add_sub_cancel_left] at hscanned
  have hget := q.getElem?_window hend
  rw [List.getElem?_eq_getElem hp] at hget
  have htake : q.window.take (p + 1) = q.window.take p ++ [q.window.get ⟨p, hp⟩] := by
    rw [List.take_succ_eq_append_getElem hp]
    rfl
  have hsub : q.dataStart + p + 1 - q.dataStart = p + 1 := by omega
  rw [hsub, htake, crlfIndex_concat hscanned, ← hget]
  have hlast : ((q.window.take p).getLast? = some 0x0d) ↔
      (0 < q.dataStart + p ∧ q.data[q.dataStart + p - 1]? = some 0x0d) := by
    cases p with
    | zero =>
      refine iff_of_false (by simp) ?_
      rintro ⟨hpos, hcr⟩
      exact h.before hpos hcr
    | succ k =>
      have hk := q.getElem?_window (i := k) (by omega)
      rw [List.getLast?_take, if_neg (by omega), Nat.add_sub_cancel, hk]
      have : q.dataStart + (k + 1) - 1 = q.dataStart + k := by omega
      rw [this]
      constructor
      · intro hcr
        refine ⟨by omega, ?_⟩
        rw [List.getElem?_eq_getElem (by have := hq.memory; have := hq.stop; omega)] at hcr ⊢
        simpa using hcr
      · rintro ⟨-, hcr⟩
        rw [hcr]
        rfl
  rw [List.length_take, Nat.min_eq_left (Nat.le_of_lt hp)]
  simp only [hlast, Bool.and_eq_true, decide_eq_true_eq, beq_iff_eq, Option.some.injEq, List.get_eq_getElem]
  by_cases hcond : (0 < q.dataStart + p ∧ q.window[p] = 0x0a) ∧ q.data[q.dataStart + p - 1]? = some 0x0d
  · rw [if_pos ⟨⟨hcond.1.1, hcond.2⟩, hcond.1.2⟩, if_pos hcond]
    congr 1
    omega
  · rw [if_neg hcond, if_neg fun hc => hcond ⟨⟨hc.1.1, hc.2⟩, hc.1.2⟩]

/-- What a scan of `n` bytes from a cursor to the end of the window finds. -/
def IQueue.ScanFinds (q : IQueue) (n cursor : ℕ) : LineScan → Prop
  | .pending c => c = q.dataEnd ∧ q.Scanned c ∧ (0 < n → fdlistCount q.fds = 0)
  | .violation c => c < q.dataEnd ∧ cursor ≤ c ∧ 0 < fdlistCount q.fds
  | .found c => c < q.dataEnd ∧ q.dataStart < c ∧ crlfIndex q.window = some (c - 1 - q.dataStart) ∧
      (c + 1 = q.dataEnd → fdlistCount q.fds = 0)

/-- The scan goes on to the first line end, to the descriptors at the end of the window, or to that end. -/
theorem scanFinds_iqueueScan {q : IQueue} (hq : q.Bounded) (n cursor : ℕ) (hstart : q.dataStart ≤ cursor)
    (hend : cursor + n = q.dataEnd) (h : q.Scanned cursor) : q.ScanFinds n cursor (iqueueScan q n cursor) := by
  induction n generalizing cursor with
  | zero => exact ⟨hend, h, fun h => absurd h (Nat.lt_irrefl 0)⟩
  | succ n ih =>
    have htest := h.test hq hstart (by omega)
    rw [iqueueScan]
    split
    next hviolation =>
      rw [Bool.and_eq_true, decide_eq_true_eq, decide_eq_true_eq] at hviolation
      exact ⟨by omega, Nat.le_refl _, hviolation.2⟩
    next hviolation =>
    have hfds : cursor + 1 = q.dataEnd → fdlistCount q.fds = 0 := by
      intro hlast
      rw [Bool.and_eq_true, decide_eq_true_eq, decide_eq_true_eq] at hviolation
      omega
    split
    next hfound =>
      rw [if_pos hfound] at htest
      have hlt := crlfIndex_lt htest
      rw [List.length_take] at hlt
      have hwhole := crlfIndex_append htest (q.window.drop (cursor + 1 - q.dataStart))
      rw [List.take_append_drop] at hwhole
      exact ⟨by omega, by omega, hwhole, hfds⟩
    next hnot =>
      rw [if_neg hnot] at htest
      have hscanned : q.Scanned (cursor + 1) := ⟨htest, h.before⟩
      have ih := ih (cursor + 1) (by omega) (by omega) hscanned
      revert ih
      cases iqueueScan q n (cursor + 1) with
      | pending c =>
        rintro ⟨hc, hs, hn⟩
        refine ⟨hc, hs, fun _ => ?_⟩
        cases n with
        | zero => exact hfds (by omega)
        | succ n => exact hn (Nat.succ_pos n)
      | violation c => exact fun ⟨hc, hle, hn⟩ => ⟨hc, by omega, hn⟩
      | found c => exact id

/-- A line was cut off the front of the window. -/
structure IQueue.LineCut (q q' : IQueue) (line : Bytes) : Prop where
  bounded : q'.Bounded
  scanned : q'.Scanned q'.dataCursor
  index : crlfIndex q.window = some line.length
  bytes : line = q.window.take line.length
  window : q'.window = q.window.drop (line.length + 2)
  cursor : q'.dataCursor = q'.dataStart
  target : q'.target = none
  fds : q'.fds = q.fds
  targetFds : q'.targetFds = q.targetFds
  last : q'.window = [] → fdlistCount q.fds = 0

/-- What `iqueue_pop_line` makes of a queue. -/
def IQueue.LinePopped (q : IQueue) : IQueue × IQueuePop → Prop
  | (q', .pending) => q' = { q with dataCursor := q.dataEnd } ∧ q'.Scanned q'.dataCursor ∧
      crlfIndex q.window = none ∧ (q.dataCursor < q.dataEnd → fdlistCount q.fds = 0)
  | (q', .violation) => (∃ c, q' = { q with dataCursor := c } ∧ c < q.dataEnd ∧ q.dataCursor ≤ c) ∧
      0 < fdlistCount q.fds
  | (q', .data line fds) => fds = none ∧ q.LineCut q' line

/-- Without a target the first line is cut off, if there is one. -/
theorem linePopped_iqueuePopLine {q : IQueue} (hq : q.Bounded) (h : q.Scanned q.dataCursor) (ht : q.target = none) :
    q.LinePopped (iqueuePopLine q) := by
  have hcheck : q.check q.target.isNone = q := by
    rw [ht]
    exact q.check_true
  have hcursor := hq.cursor
  have hstart := hq.start
  have hlen := hq.length_window
  have hscan := scanFinds_iqueueScan hq (q.dataEnd - q.dataCursor) q.dataCursor hq.start (by omega) h
  rw [iqueuePopLine, hcheck]
  revert hscan
  cases hfound : iqueueScan q (q.dataEnd - q.dataCursor) q.dataCursor with
  | pending c =>
    rintro ⟨rfl, hs, hn⟩
    have hall : q.window.take (q.dataEnd - q.dataStart) = q.window := List.take_of_length_le (by omega)
    have hnone := hs.scanned
    rw [hall] at hnone
    exact ⟨rfl, ⟨hs.scanned, hs.before⟩, hnone, fun hlt => hn (by omega)⟩
  | violation c => exact fun ⟨hc, hle, hn⟩ => ⟨⟨c, rfl, hc, hle⟩, hn⟩
  | found c =>
    rintro ⟨hc, hlt, hindex, hfds⟩
    have hmemory := hq.memory
    have hstop := hq.stop
    have hn : c - 1 - q.dataStart = c - q.dataStart - 1 := by omega
    rw [hn] at hindex
    have hline : (q.data.drop q.dataStart).take (c - q.dataStart - 1) = q.window.take (c - q.dataStart - 1) := by
      rw [IQueue.window, List.drop_take, List.take_take, Nat.min_eq_left (by omega)]
    have hlength : ((q.data.drop q.dataStart).take (c - q.dataStart - 1)).length = c - q.dataStart - 1 := by
      rw [List.length_take, List.length_drop]
      omega
    have hcrlf := crlfIndex_eq_some hindex
    have hlf : q.data[c]? = some 0x0a := by
      have hget := q.getElem?_window (i := c - q.dataStart) (by omega)
      have hc' : q.dataStart + (c - q.dataStart) = c := by omega
      rw [hc'] at hget
      rw [← hget, hcrlf, List.getElem?_append_right (by rw [List.length_take]; omega)]
      have hidx : c - q.dataStart - (q.window.take (c - q.dataStart - 1)).length = 1 := by
        rw [List.length_take]
        omega
      rw [hidx]
      rfl
    have hwindow : ((q.data.set (q.dataStart + (c - q.dataStart - 1)) 0).take q.dataEnd).drop (c + 1) =
        q.window.drop (c - q.dataStart - 1 + 2) := by
      rw [IQueue.window, List.drop_drop, List.take_set, List.drop_set_of_lt (by omega)]
      congr 1
      omega
    refine ⟨rfl, ⟨⟨Nat.le_refl _, hc, hstop, ?_, hq.size, hq.assertion⟩, ⟨?_, fun _ => ?_⟩, ?_, ?_, ?_, rfl, ht, rfl, rfl,
      ?_⟩⟩
    · rw [List.length_set]
      exact hmemory
    · simp only [Nat.sub_self, List.take_zero]
      rfl
    · show (q.data.set (q.dataStart + (c - q.dataStart - 1)) 0)[c + 1 - 1]? ≠ some 0x0d
      rw [Nat.add_sub_cancel, List.getElem?_set_ne (by omega), hlf]
      decide
    · rw [hlength]
      exact hindex
    · rw [hlength]
      exact hline
    · rw [hlength]
      exact hwindow
    · intro hnil
      apply hfds
      have hnil' : (q.window.drop (c - q.dataStart - 1 + 2)).length = 0 := by
        rw [← hwindow]
        exact congrArg List.length hnil
      rw [List.length_drop, hlen] at hnil'
      omega

/-! ## Data -/

/-- The descriptors of the input buffer and of the target after a copy that leaves these bytes in the window. -/
def IQueue.movedFds (q : IQueue) (left : Bytes) : Option (List ℕ) × Option (List ℕ) :=
  if left.isEmpty && q.fds.isSome then (none, q.fds) else (q.fds, q.targetFds)

/-- What `iqueue_pop_data` makes of a queue with that target. -/
def IQueue.DataPopped (q : IQueue) (t : IQueueTarget) (wanted : Bool) : IQueue × IQueuePop → Prop
  | (q', .violation) => q'.Bounded ∧ q.window.length ≤ t.nData - t.copied.length ∧ q.fds.isSome ∧ q.targetFds.isSome
  | (q', .pending) => q'.Bounded ∧ q'.dataCursor = q'.dataStart ∧ q.window.length < t.nData - t.copied.length ∧
      q'.window = [] ∧ q'.target = some ⟨t.nData, t.copied ++ q.window⟩ ∧ (q'.fds, q'.targetFds) = q.movedFds [] ∧
      ¬(q.fds.isSome ∧ q.targetFds.isSome)
  | (q', .data bytes fds) => q'.Bounded ∧ q'.dataCursor = q'.dataStart ∧
      t.nData - t.copied.length ≤ q.window.length ∧
      bytes = t.copied ++ q.window.take (t.nData - t.copied.length) ∧
      q'.window = q.window.drop (t.nData - t.copied.length) ∧ q'.target = none ∧
      q'.fds = (q.movedFds q'.window).1 ∧
      (if wanted then fds = (q.movedFds q'.window).2 ∧ q'.targetFds = none
        else fds = none ∧ q'.targetFds = (q.movedFds q'.window).2) ∧
      ¬(q'.window = [] ∧ q.fds.isSome ∧ q.targetFds.isSome)

/-- The target is filled from the window. -/
theorem dataPopped_iqueuePopData {q : IQueue} (hq : q.Bounded) (hcursor : q.dataCursor = q.dataStart) {t : IQueueTarget}
    (ht : q.target = some t) (hle : t.copied.length ≤ t.nData) (wanted : Bool) :
    q.DataPopped t wanted (iqueuePopData q wanted) := by
  have hlen := hq.length_window
  have hcur := hq.cursor
  have hcheck : q.check (decide (t.copied.length ≤ t.nData)) = q := by
    rw [decide_eq_true hle]
    exact q.check_true
  obtain ⟨n, hn⟩ : ∃ n, n = min (q.dataEnd - q.dataStart) (t.nData - t.copied.length) := ⟨_, rfl⟩
  have hbounded (target : Option IQueueTarget) (fds targetFds : Option (List ℕ)) :
      ({ q with
          dataStart := q.dataStart + n
          dataCursor := q.dataCursor + n
          target := target
          fds := fds
          targetFds := targetFds } : IQueue).Bounded := by
    refine ⟨?_, ?_, hq.stop, hq.memory, hq.size, hq.assertion⟩
    · show q.dataStart + n ≤ q.dataCursor + n
      omega
    · show q.dataCursor + n ≤ q.dataEnd
      omega
  have hstart : q.dataCursor + n = q.dataStart + n := by omega
  have hwindow : (q.data.take q.dataEnd).drop (q.dataStart + n) = q.window.drop n := by
    rw [IQueue.window, List.drop_drop]
  have hcopied : (q.data.drop q.dataStart).take n = q.window.take n := by
    rw [IQueue.window, List.drop_take, List.take_take, Nat.min_eq_left (by omega)]
  have hempty : (q.dataEnd - (q.dataStart + n) == 0) = (q.window.drop n).isEmpty := by
    rw [Bool.eq_iff_iff, beq_iff_eq, List.isEmpty_iff, List.drop_eq_nil_iff, hlen]
    omega
  have hnew : (t.copied ++ q.window.take n).length = t.copied.length + n := by
    rw [List.length_append, List.length_take, hlen]
    omega
  rw [iqueuePopData, ht]
  simp only [hcheck, iqueueCopy, ← hn, hcopied, hempty, hnew]
  by_cases hviolation : (q.window.drop n).isEmpty = true ∧ q.fds.isSome = true ∧ q.targetFds.isSome = true
  · rw [if_pos (by simpa [and_assoc] using hviolation)]
    have hnil := hviolation.1
    rw [List.isEmpty_iff, List.drop_eq_nil_iff] at hnil
    exact ⟨hbounded _ _ _, by omega, hviolation.2⟩
  rw [if_neg (by simpa [and_assoc] using hviolation)]
  have hmove : (if (q.window.drop n).isEmpty && q.fds.isSome then
      { q with
        dataStart := q.dataStart + n
        dataCursor := q.dataCursor + n
        target := some ⟨t.nData, t.copied ++ q.window.take n⟩
        targetFds := q.fds
        fds := none }
      else
      { q with
        dataStart := q.dataStart + n
        dataCursor := q.dataCursor + n
        target := some ⟨t.nData, t.copied ++ q.window.take n⟩ }) =
      { q with
        dataStart := q.dataStart + n
        dataCursor := q.dataCursor + n
        target := some ⟨t.nData, t.copied ++ q.window.take n⟩
        fds := (q.movedFds (q.window.drop n)).1
        targetFds := (q.movedFds (q.window.drop n)).2 } := by
    rw [IQueue.movedFds]
    split <;> rfl
  rw [hmove]
  by_cases hfull : t.copied.length + n < t.nData
  · have hshort : q.window.length < t.nData - t.copied.length := by omega
    have hall : n = q.window.length := by omega
    have hnil : q.window.drop n = [] := by rw [hall, List.drop_length]
    have htake : q.window.take n = q.window := by rw [hall, List.take_length]
    rw [if_pos hfull, hnil, htake]
    rw [hnil] at hviolation
    exact ⟨hbounded _ _ _, hstart, hshort, hwindow.trans hnil, rfl, rfl, fun h => hviolation ⟨rfl, h⟩⟩
  · have hmiss : n = t.nData - t.copied.length := by omega
    have hboth : ¬((q.data.take q.dataEnd).drop (q.dataStart + n) = [] ∧ q.fds.isSome ∧ q.targetFds.isSome) := by
      rw [hwindow]
      exact fun h => hviolation ⟨List.isEmpty_iff.mpr h.1, h.2⟩
    have hdrop : (q.data.take q.dataEnd).drop (q.dataStart + n) = q.window.drop (t.nData - t.copied.length) := by
      rw [hwindow, hmiss]
    have hbytes : t.copied ++ q.window.take n = t.copied ++ q.window.take (t.nData - t.copied.length) := by
      rw [hmiss]
    rw [if_neg hfull]
    cases wanted with
    | true =>
      refine ⟨hbounded _ _ _, hstart, by omega, hbytes, hdrop, rfl, ?_, ⟨?_, rfl⟩, hboth⟩
      · exact congrArg (fun left => (q.movedFds left).1) hwindow.symm
      · exact congrArg (fun left => (q.movedFds left).2) hwindow.symm
    | false =>
      refine ⟨hbounded _ _ _, hstart, by omega, hbytes, hdrop, rfl, ?_, ⟨rfl, ?_⟩, hboth⟩
      · exact congrArg (fun left => (q.movedFds left).1) hwindow.symm
      · exact congrArg (fun left => (q.movedFds left).2) hwindow.symm

end DbusBroker
