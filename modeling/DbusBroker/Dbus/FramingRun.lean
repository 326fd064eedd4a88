import DbusBroker.Dbus.FramingSocket

/-!
# Framing of whole runs

However the stream is cut into reads and whenever lines and messages are taken, the items and the
violation are those of the plain parser.
-/

namespace DbusBroker

/-! ## The operations on a feed -/

/-- What taking the next item does to a feed. -/
theorem Feed.pop_cases (auth : Sasl) {f : Feed} (h : f.socket.Coherent f.mode) :
    (∃ s', f.socket.Waits f.mode s' ∧ f.pop auth = { f with socket := s' }) ∨
    (∃ s' v, f.socket.Closes f.mode s' v ∧ f.pop auth = { f with socket := s' }) ∨
    ∃ s' item fds, f.socket.Takes f.mode s' item fds ∧ s'.Coherent (f.mode.after auth item) ∧
      f.pop auth =
        { f with socket := s', mode := f.mode.after auth item, items := f.items ++ [(item, fds)] } := by
  rw [Feed.pop]
  cases hmode : f.mode with
  | lines sofar =>
    rw [hmode] at h
    have hdeq := h.dequeueLine
    dsimp only at hdeq ⊢
    revert hdeq
    obtain ⟨s', r⟩ := socketDequeueLine f.socket
    rintro (⟨hno, hw | ⟨v, hc⟩⟩ | ⟨bytes, hr, ht⟩)
    · refine .inl ⟨s', hw, ?_⟩
      cases r with
      | line bytes => exact absurd rfl (hno bytes)
      | _ => rw [← hmode]
    · refine .inr (.inl ⟨s', v, hc, ?_⟩)
      cases r with
      | line bytes => exact absurd rfl (hno bytes)
      | _ => rw [← hmode]
    · dsimp only at hr
      subst hr
      refine .inr (.inr ⟨s', .line bytes, none, ht, ?_, rfl⟩)
      rw [Mode.after, Sasl.next]
      split
      · exact ht.coherent.2
      · exact ⟨ht.coherent.1.bounded, ht.coherent.1.mode, ht.coherent.1.fds, ht.coherent.1.hup⟩
  | messages =>
    rw [hmode] at h
    have hdeq := h.dequeue
    dsimp only
    revert hdeq
    obtain ⟨s', r⟩ := socketDequeue f.socket true
    rintro (⟨hno, hw | ⟨v, hc⟩⟩ | ⟨bytes, fds, hr, ht⟩)
    · refine .inl ⟨s', hw, ?_⟩
      cases r with
      | message bytes fds => exact absurd rfl (hno bytes fds)
      | _ => rw [← hmode]
    · refine .inr (.inl ⟨s', v, hc, ?_⟩)
      cases r with
      | message bytes fds => exact absurd rfl (hno bytes fds)
      | _ => rw [← hmode]
    · dsimp only at hr
      subst hr
      exact .inr (.inr ⟨s', .message bytes, fds, ht, ht.coherent.1, by dsimp only [Mode.after]⟩)

/-- What is taken and what is left after it are the whole, also when less is there than was asked for. -/
theorem take_append_drop_length (n : ℕ) (bytes : Bytes) :
    bytes.take n ++ bytes.drop (bytes.take n).length = bytes := by
  by_cases h : n ≤ bytes.length
  · rw [List.length_take_of_le h, List.take_append_drop]
  · rw [List.take_of_length_le (by omega), List.drop_length, List.append_nil]

/-- What a read does to a feed. -/
theorem Feed.read_cases {f : Feed} (h : f.socket.Coherent f.mode) (size : ℕ) (fds : List ℕ) :
    (∃ s', f.socket.Rests f.mode s' ∧ f.read size fds = { f with socket := s' } ∧
      (f.socket.violation = none → f.socket.queue.dataCursor < f.socket.queue.dataEnd ∨
        f.unread = [] ∧ f.socket.queue.window.length < iqueueLineMax)) ∨
    (∃ s', f.socket.Closes f.mode s' .lineTooLong ∧ f.read size fds = { f with socket := s' }) ∨
    ∃ s' piece direct spurious, f.socket.Reads f.mode s' piece (fdsOption fds) direct spurious ∧ piece ≠ [] ∧
      f.socket.violation = none ∧ f.unread = piece ++ f.unread.drop piece.length ∧
      f.read size fds =
        { f with
          socket := s'
          unread := f.unread.drop piece.length
          received := f.received + piece.length
          sets := f.sets ++ (fdsOption fds).toList.map (⟨f.received + piece.length, ·, direct⟩)
          discarded := f.discarded ++
            if spurious then (fdsOption fds).toList.map (⟨f.received + piece.length, ·, direct⟩) else [] } := by
  have hnothing (s' : SocketIn) (hcursor : f.socket.cursor = none)
      (hs : socketDispatchRead f.socket (f.recv size fds) true = s') : f.read size fds = { f with socket := s' } := by
    rw [Feed.read, hcursor, hs]
    simp
  cases hup : f.socket.hupIn with
  | true =>
    have hcursor : f.socket.cursor = none := by rw [SocketIn.cursor, if_pos hup]
    have hsame : socketDispatchRead f.socket (f.recv size fds) true = f.socket := by
      rw [socketDispatchRead, if_pos hup]
    refine .inl ⟨f.socket, ⟨h, rfl, rfl, rfl, rfl, rfl⟩, hnothing _ hcursor hsame, fun hnone => ?_⟩
    rw [h.hup, hnone] at hup
    cases hup
  | false =>
    have hopen : f.socket.violation = none := by
      have hhup := h.hup
      rw [hup] at hhup
      exact Option.isSome_eq_false_iff.mp hhup.symm |> Option.isNone_iff_eq_none.mp
    rcases h.dispatchRead hup (f.recv size fds) with
      ⟨hcursor, ⟨hr, hlt⟩ | hc⟩ | ⟨cursor, hcursor, hshort, hpos, hagain, hread⟩
    · exact .inl ⟨_, hr, hnothing _ hcursor rfl, fun _ => .inl hlt⟩
    · exact .inr (.inl ⟨_, hc, hnothing _ hcursor rfl⟩)
    · by_cases hunread : f.unread = []
      · refine .inl ⟨_, hagain (by rw [Feed.recv, hunread]; rfl), ?_, fun _ => .inr ⟨hunread, hshort⟩⟩
        rw [Feed.read, hcursor]
        simp [Feed.piece, hunread]
      · have hpiece : f.piece size cursor.room ≠ [] := by
          rw [Feed.piece, Ne, List.take_eq_nil_iff]
          rintro (hzero | hnil)
          · omega
          · exact hunread hnil
        have hle : (f.piece size cursor.room).length ≤ cursor.room := by
          rw [Feed.piece, List.length_take]
          omega
        have hrecv : f.recv size fds cursor.room = .data (f.piece size cursor.room) fds false := by
          rw [Feed.recv, if_neg (by simpa using hunread)]
        have hdrop : f.unread = f.piece size cursor.room ++ f.unread.drop (f.piece size cursor.room).length := by
          rw [Feed.piece, take_append_drop_length]
        refine .inr (.inr ⟨_, _, _, _, hread _ fds hrecv hpiece hle, hpiece, hopen, hdrop, ?_⟩)
        have hnot : (f.piece size cursor.room).isEmpty = false := by simpa using hpiece
        rw [Feed.read, hcursor]
        simp only [Option.elim_some, hnot, Bool.false_or, Option.any_some]
        rw [fdsOption]
        by_cases hempty : fds.isEmpty = true
        · simp [hempty]
        · simp [hempty]

/-! ## The parse of what was received -/

/-- Several items at the front. -/
def Parse.prepend (items : List Item) (p : Parse) : Parse := items.foldr Parse.cons p

theorem Parse.prepend_append (xs ys : List Item) (p : Parse) :
    Parse.prepend (xs ++ ys) p = Parse.prepend xs (Parse.prepend ys p) := List.foldr_append

/-- The items taken so far make up the whole parse if nothing more is found, or a violation is. -/
theorem Parse.prepend_stop (items : List Item) (stop : Option Violation) :
    Parse.prepend items ⟨[], stop.map (0, ·)⟩ = ⟨items, stop.map ((items.map Item.size).sum, ·)⟩ := by
  induction items with
  | nil => rfl
  | cons item rest ih =>
    rw [Parse.prepend, List.foldr_cons, ← Parse.prepend, ih, Parse.cons]
    cases stop <;> rfl

theorem plainParse_incomplete {auth : Sasl} {mode : Mode} {stream : Bytes} (h : nextItem mode stream = .incomplete) :
    plainParse auth mode stream = ⟨[], none⟩ := by
  rw [plainParse]
  split <;> simp_all

theorem plainParse_violation {auth : Sasl} {mode : Mode} {stream : Bytes} {v : Violation}
    (h : nextItem mode stream = .violation v) : plainParse auth mode stream = ⟨[], some (0, v)⟩ := by
  rw [plainParse]
  split <;> simp_all

theorem plainParse_item {auth : Sasl} {mode : Mode} {stream : Bytes} {item : Item}
    (h : nextItem mode stream = .item item) :
    plainParse auth mode stream = (plainParse auth (mode.after auth item) (stream.drop item.size)).cons item := by
  rw [plainParse]
  split <;> simp_all

/-- The feed and the plain parser agree on the stream: an open socket has taken the first items and has the next bytes
of the stream, and a closed one has found what the parser finds, unless it was closed because of descriptors. -/
structure Feed.Framed (auth : Sasl) (stream : Bytes) (f : Feed) : Prop where
  socket : f.socket.Coherent f.mode
  parse : f.socket.violation = none → plainParse auth (.lines []) stream =
    Parse.prepend (f.items.map (·.1)) (plainParse auth f.mode (f.socket.rest ++ f.unread))
  offset : f.socket.violation = none → f.received = itemsSize f.items + f.socket.rest.length
  closed : f.socket.violation.isSome → f.socket.rest = [] ∧
    (f.socket.violation = some .unexpectedFds ∧ f.sets ≠ [] ∨ plainParse auth (.lines []) stream = f.outcome)
  plain : f.sets = [] → f.socket.queue.fds = none ∧ f.socket.queue.targetFds = none
  total : f.received + f.unread.length = stream.length

theorem framed_init (auth : Sasl) (stream : Bytes) : (Feed.init stream).Framed auth stream :=
  ⟨coherent_init, fun _ => rfl, fun _ => rfl, nofun, fun _ => ⟨rfl, rfl⟩, Nat.zero_add _⟩

/-- A closed socket has nothing to take. -/
theorem nextItem_nil (mode : Mode) : nextItem mode [] = .incomplete := by
  cases mode <;> rfl

/-- Closing because of the next item agrees with the parser. -/
theorem Feed.Framed.closes {auth : Sasl} {stream : Bytes} {f : Feed} (h : f.Framed auth stream) {s' : SocketIn}
    {v : Violation} (hc : f.socket.Closes f.mode s' v) : ({ f with socket := s' } : Feed).Framed auth stream := by
  have hopen : f.socket.violation = none := by
    by_contra hsome
    obtain ⟨hnil, -⟩ := h.closed (Option.isSome_iff_ne_none.mpr hsome)
    rcases hc.cause with hnext | ⟨-, hfds, -⟩
    · rw [hnil, nextItem_nil] at hnext
      cases hnext
    · have hne := h.socket.window_ne_nil hfds
      rw [SocketIn.rest, List.append_eq_nil_iff] at hnil
      exact hne hnil.2
  have hv : s'.violation = some v := by
    rw [hc.violation, hopen]
    rfl
  refine ⟨hc.coherent, ?_, ?_, fun _ => ⟨hc.rest, ?_⟩, ?_, h.total⟩
  · exact fun hnone => by cases hv.symm.trans hnone
  · exact fun hnone => by cases hv.symm.trans hnone
  · rcases hc.cause with hnext | ⟨rfl, hfds, -⟩
    · refine .inr ?_
      have hdecided : nextItem f.mode (f.socket.rest ++ f.unread) = .violation v := by
        rw [nextItem_append _ (by rw [hnext]; exact (by simp)), hnext]
      rw [h.parse hopen, plainParse_violation hdecided, Feed.outcome]
      show _ = Parse.mk _ (s'.violation.map _)
      rw [hv]
      have hstop := Parse.prepend_stop (f.items.map (·.1)) (some v)
      rw [List.map_map] at hstop
      exact hstop
    · refine .inl ⟨hv, fun hsets => ?_⟩
      rw [(h.plain hsets).1] at hfds
      cases hfds
  · exact fun _ => hc.fds

/-- A socket that holds the same bytes agrees as well. -/
theorem Feed.Framed.rests {auth : Sasl} {stream : Bytes} {f : Feed} (h : f.Framed auth stream) {s' : SocketIn}
    (hco : s'.Coherent f.mode) (hv : s'.violation = f.socket.violation) (hrest : s'.rest = f.socket.rest)
    (hplain : f.sets = [] → s'.queue.fds = none ∧ s'.queue.targetFds = none) :
    ({ f with socket := s' } : Feed).Framed auth stream := by
  refine ⟨hco, ?_, ?_, ?_, hplain, h.total⟩
  · show s'.violation = none → _ = Parse.prepend _ (plainParse auth f.mode (s'.rest ++ f.unread))
    rw [hv, hrest]
    exact h.parse
  · show s'.violation = none → _ = itemsSize f.items + s'.rest.length
    rw [hv, hrest]
    exact h.offset
  · show s'.violation.isSome → s'.rest = [] ∧ (s'.violation = _ ∧ _ ∨ _ = Parse.mk _ (s'.violation.map _))
    rw [hv, hrest]
    exact h.closed

/-- Taking the next item keeps the agreement. -/
theorem Feed.Framed.pop {auth : Sasl} {stream : Bytes} {f : Feed} (h : f.Framed auth stream) :
    (f.pop auth).Framed auth stream := by
  rcases Feed.pop_cases auth h.socket with ⟨s', hw, heq⟩ | ⟨s', v, hc, heq⟩ | ⟨s', item, fds, ht, hco, heq⟩
  · rw [heq]
    refine h.rests hw.coherent hw.violation hw.rest fun hsets => ?_
    obtain ⟨h1, h2⟩ := h.plain hsets
    have hfds := hw.fds
    rw [IQueue.movedFds, h1, h2] at hfds
    simpa using hfds
  · rw [heq]
    exact h.closes hc
  · have hopen : f.socket.violation = none := by
      by_contra hsome
      obtain ⟨hnil, -⟩ := h.closed (Option.isSome_iff_ne_none.mpr hsome)
      have hnext := ht.next
      rw [hnil, nextItem_nil] at hnext
      cases hnext
    have hopen' : s'.violation = none := ht.violation.trans hopen
    have hsize := size_of_nextItem ht.next
    have hdecided : nextItem f.mode (f.socket.rest ++ f.unread) = .item item := by
      rw [nextItem_append _ (by rw [ht.next]; exact (by simp)), ht.next]
    rw [heq]
    refine ⟨hco, fun _ => ?_, fun _ => ?_, fun hsome => ?_, ?_, h.total⟩
    · show _ = Parse.prepend ((f.items ++ [(item, fds)]).map (·.1)) (plainParse auth _ (s'.rest ++ f.unread))
      rw [h.parse hopen, plainParse_item hdecided, List.map_append, ht.rest,
        List.drop_append_of_le_length hsize.2, Parse.prepend_append]
      rfl
    · show f.received = itemsSize (f.items ++ [(item, fds)]) + s'.rest.length
      have hlen : (f.socket.rest.drop item.size).length = f.socket.rest.length - item.size := List.length_drop
      have hsum : itemsSize (f.items ++ [(item, fds)]) = itemsSize f.items + item.size := by
        simp [itemsSize]
      rw [h.offset hopen, ht.rest, hlen, hsum]
      omega
    · rw [show s'.violation = none from hopen'] at hsome
      cases hsome
    · intro hsets
      obtain ⟨h1, h2⟩ := h.plain hsets
      have hfds := ht.fds
      rw [IQueue.movedFds, h1, h2] at hfds
      simpa using hfds

/-- A read keeps the agreement. -/
theorem Feed.Framed.read {auth : Sasl} {stream : Bytes} {f : Feed} (h : f.Framed auth stream) (size : ℕ)
    (fds : List ℕ) : (f.read size fds).Framed auth stream := by
  rcases Feed.read_cases h.socket size fds with
    ⟨s', hr, heq, -⟩ | ⟨s', hc, heq⟩ | ⟨s', piece, direct, spurious, hr, hne, hopen, hunread, heq⟩
  · have hrest : s'.rest = f.socket.rest := by rw [SocketIn.rest, SocketIn.rest, hr.held, hr.window]
    rw [heq]
    refine h.rests hr.coherent hr.violation hrest ?_
    rw [hr.fds, hr.targetFds]
    exact h.plain
  · rw [heq]
    exact h.closes hc
  · have hopen' : s'.violation = none := hr.violation.trans hopen
    rw [heq]
    refine ⟨hr.coherent, fun _ => ?_, fun _ => ?_, fun hsome => ?_, ?_, ?_⟩
    · show _ = Parse.prepend _ (plainParse auth f.mode (s'.rest ++ f.unread.drop piece.length))
      rw [hr.rest, List.append_assoc, ← hunread]
      exact h.parse hopen
    · show f.received + piece.length = itemsSize f.items + s'.rest.length
      rw [h.offset hopen, hr.rest, List.length_append]
      omega
    · rw [show s'.violation = none from hopen'] at hsome
      cases hsome
    · intro hsets
      obtain ⟨hnil, hnone⟩ := List.append_eq_nil_iff.mp hsets
      obtain ⟨h1, h2⟩ := h.plain hnil
      have hset : fdsOption fds = none := by
        cases hfds : fdsOption fds with
        | none => rfl
        | some set =>
          rw [hfds] at hnone
          cases hnone
      rcases hr.place with ⟨-, hf, ht, -⟩ | ⟨-, -, hf, ht, -⟩
      · exact ⟨hf.trans hset, ht.trans h2⟩
      · refine ⟨hf, ht.trans ?_⟩
        rw [h2, hset]
        rfl
    · have hlen := congrArg List.length hunread
      rw [List.length_append] at hlen
      show f.received + piece.length + (f.unread.drop piece.length).length = stream.length
      have htotal := h.total
      omega

/-- Every operation keeps the agreement. -/
theorem Feed.Framed.step {auth : Sasl} {stream : Bytes} {f : Feed} (h : f.Framed auth stream) (op : FeedOp) :
    (f.step auth op).Framed auth stream := by
  cases op with
  | read size fds => exact h.read size fds
  | pop => exact h.pop

/-- After every run the feed agrees with the plain parser. -/
theorem framed_run (auth : Sasl) (stream : Bytes) (ops : List FeedOp) :
    (Machine.run (Feed.step auth) (Feed.init stream) ops).Framed auth stream :=
  Machine.run_invariant (fun _ op h _ => h.step op) (framed_init auth stream) (Machine.along_true _ _)

/-! ## Streams that were received completely -/

/-- The feed is done: the socket was closed, or everything was received and one more attempt to take something and to
read changes nothing. -/
def Feed.Settled (auth : Sasl) (f : Feed) : Prop :=
  f.socket.violation.isSome ∨ f.unread = [] ∧ ((f.pop auth).read 0 []).outcome = f.outcome

/-- Only a line can be too long. -/
theorem nextItem_lineTooLong {mode : Mode} {w : Bytes} (h : nextItem mode w = .violation .lineTooLong) :
    iqueueLineMax ≤ w.length ∧ mode ≠ .messages := by
  cases mode with
  | lines sofar =>
    simp only [nextItem] at h
    split at h
    · cases h
    · split at h
      · cases h
      · exact ⟨by omega, (by simp)⟩
  | messages =>
    simp only [nextItem] at h
    split at h
    · cases h
    · split at h
      · cases h
      · split at h <;> cases h

/-- A socket that expects lines holds what is in its window. -/
theorem SocketIn.Coherent.rest_of_lines {s : SocketIn} {mode : Mode} (h : s.Coherent mode) (hmode : mode ≠ .messages) :
    s.rest = s.queue.window := by
  cases mode with
  | lines sofar => exact (SocketIn.rest_lines h.mode.1 h.mode.2.1).2
  | messages => exact absurd rfl hmode

/-- A feed without descriptors that is done has nothing left but an incomplete item. -/
theorem Feed.Framed.incomplete {auth : Sasl} {stream : Bytes} {f : Feed} (h : f.Framed auth stream)
    (hopen : f.socket.violation = none) (hs : f.Settled auth) :
    f.unread = [] ∧ nextItem f.mode f.socket.rest = .incomplete := by
  rcases hs with hsome | ⟨hunread, hsame⟩
  · rw [hopen] at hsome
    cases hsome
  refine ⟨hunread, ?_⟩
  have hgrow {g : Feed} (hco : g.socket.Coherent g.mode) (hv : g.socket.violation = none) (hg : g.unread = []) :
      (g.read 0 []).outcome.items = g.items.map (·.1) ∧
        ((g.read 0 []).outcome.violation = none →
          g.socket.queue.dataCursor < g.socket.queue.dataEnd ∨ g.socket.queue.window.length < iqueueLineMax) := by
    rcases Feed.read_cases hco 0 [] with ⟨s', hr, heq, hwhy⟩ | ⟨s', hc, heq⟩ | ⟨s', piece, _, _, -, hne, -, hpiece, -⟩
    · rw [heq]
      exact ⟨rfl, fun _ => (hwhy hv).imp_right And.right⟩
    · rw [heq]
      refine ⟨rfl, fun hnone => ?_⟩
      have hclosed : s'.violation = some .lineTooLong := by
        rw [hc.violation, hv]
        rfl
      rw [Feed.outcome] at hnone
      dsimp only at hnone
      rw [hclosed] at hnone
      cases hnone
    · rw [hg] at hpiece
      exact absurd (List.append_eq_nil_iff.mp hpiece.symm).1 hne
  rcases Feed.pop_cases auth h.socket with ⟨s', hw, heq⟩ | ⟨s', v, hc, heq⟩ | ⟨s', item, fds, ht, hco, heq⟩
  · rcases hw.stuck with hincomplete | hlong
    · exact hincomplete
    · -- The window is full and scanned, so the read would have found the line too long.
      have hv := hw.violation.trans hopen
      have hread := (hgrow (g := { f with socket := s' }) hw.coherent hv hunread).2
      rw [heq] at hsame
      rw [hsame, Feed.outcome, hopen] at hread
      obtain ⟨hlen, hmode⟩ := nextItem_lineTooLong hlong
      rw [← hw.rest, hw.coherent.rest_of_lines hmode] at hlen
      have hdrained := hw.drained
      rcases hread rfl with hlt | hlt
      · dsimp only at hlt
        omega
      · dsimp only at hlt
        omega
  · have hclosed : s'.violation = some v := by
      rw [hc.violation, hopen]
      rfl
    rw [heq] at hsame
    have hread : (({ f with socket := s' } : Feed).read 0 []).socket = s' := by
      have hhup : s'.hupIn = true := by
        rw [hc.coherent.hup, hclosed]
        rfl
      rw [Feed.read]
      show socketDispatchRead s' _ true = s'
      rw [socketDispatchRead, if_pos hhup]
    have hviolation := congrArg Parse.violation hsame
    rw [Feed.outcome, Feed.outcome, hread, hclosed, hopen] at hviolation
    cases hviolation
  · have hitems := (hgrow (g := f.pop auth) (by rw [heq]; exact hco) (by rw [heq]; exact ht.violation.trans hopen)
      (by rw [heq]; exact hunread)).1
    rw [hsame, heq, Feed.outcome] at hitems
    have hlen := congrArg List.length hitems
    simp at hlen

/-- A feed without descriptors that is done has made of the stream what the plain parser makes of it. -/
theorem Feed.Framed.outcome_eq {auth : Sasl} {stream : Bytes} {f : Feed} (h : f.Framed auth stream)
    (hsets : f.sets = []) (hs : f.Settled auth) : f.outcome = plainParse auth (.lines []) stream := by
  cases hv : f.socket.violation with
  | some v =>
    rcases (h.closed (by rw [hv]; rfl)).2 with ⟨-, hne⟩ | hparse
    · exact absurd hsets hne
    · exact hparse.symm
  | none =>
    obtain ⟨hunread, hincomplete⟩ := h.incomplete hv hs
    rw [h.parse hv, hunread, List.append_nil, plainParse_incomplete hincomplete, Feed.outcome, hv]
    exact (Parse.prepend_stop (f.items.map (·.1)) none).symm

/-! ## Reads that fill the cursor -/

/-- The socket was closed, or nothing more can be taken from it and all of its window was scanned. -/
def Feed.Drained (f : Feed) : Prop :=
  f.socket.violation.isSome ∨ f.socket.queue.dataCursor = f.socket.queue.dataEnd ∧
    (nextItem f.mode f.socket.rest = .incomplete ∨ nextItem f.mode f.socket.rest = .violation .lineTooLong)

/-- Taking an item leaves the feed drained, or with less to take. -/
theorem Feed.Framed.pop_progress {auth : Sasl} {stream : Bytes} {f : Feed} (h : f.Framed auth stream) :
    (f.pop auth).unread = f.unread ∧ (f.pop auth).sets = f.sets ∧
    ((f.pop auth).Drained ∨ ¬f.Drained ∧ (f.pop auth).socket.rest.length < f.socket.rest.length) := by
  rcases Feed.pop_cases auth h.socket with ⟨s', hw, heq⟩ | ⟨s', v, hc, heq⟩ | ⟨s', item, fds, ht, hco, heq⟩
  · rw [heq]
    refine ⟨rfl, rfl, .inl (.inr ⟨hw.drained, ?_⟩)⟩
    show nextItem f.mode s'.rest = _ ∨ nextItem f.mode s'.rest = _
    rw [hw.rest]
    exact hw.stuck
  · rw [heq]
    refine ⟨rfl, rfl, .inl (.inl ?_)⟩
    show s'.violation.isSome
    rw [hc.violation]
    cases f.socket.violation <;> rfl
  · have hsize := size_of_nextItem ht.next
    rw [heq]
    refine ⟨rfl, rfl, .inr ⟨?_, ?_⟩⟩
    · rintro (hsome | ⟨-, hstuck | hstuck⟩)
      · have hnext := ht.next
        rw [(h.closed hsome).1, nextItem_nil] at hnext
        exact nomatch hnext
      · exact nomatch hstuck.symm.trans ht.next
      · exact nomatch hstuck.symm.trans ht.next
    · show s'.rest.length < _
      rw [ht.rest, List.length_drop]
      omega

/-- Enough attempts drain the feed. -/
theorem Feed.Framed.pops {auth : Sasl} {stream : Bytes} (n : ℕ) {f : Feed} (h : f.Framed auth stream)
    (hn : f.Drained ∨ f.socket.rest.length < n) :
    let g := Machine.run (Feed.step auth) f (List.replicate n .pop)
    g.Framed auth stream ∧ g.unread = f.unread ∧ g.sets = f.sets ∧ g.Drained := by
  induction n generalizing f with
  | zero =>
    rcases hn with hd | hlt
    · exact ⟨h, rfl, rfl, hd⟩
    · exact absurd hlt (Nat.not_lt_zero _)
  | succ n ih =>
    obtain ⟨hunread, hsets, hprogress⟩ := h.pop_progress
    have hnext : (f.pop auth).Drained ∨ (f.pop auth).socket.rest.length < n := by
      rcases hprogress with hd | ⟨hnot, hless⟩
      · exact .inl hd
      · rcases hn with hd | hlt
        · exact absurd hd hnot
        · exact .inr (by omega)
    have ih := ih h.pop hnext
    dsimp only at ih ⊢
    rw [List.replicate_succ, Machine.run_cons]
    exact ⟨ih.1, ih.2.1.trans hunread, ih.2.2.1.trans hsets, ih.2.2.2⟩

/-- An incomplete item at the end of the stream stays so. -/
theorem Feed.Framed.settled {auth : Sasl} {stream : Bytes} {f : Feed} (h : f.Framed auth stream) (hsets : f.sets = [])
    (hunread : f.unread = []) (hnext : nextItem f.mode f.socket.rest = .incomplete) : f.Settled auth := by
  refine .inr ⟨hunread, ?_⟩
  rcases Feed.pop_cases auth h.socket with ⟨s', hw, heq⟩ | ⟨s', v, hc, heq⟩ | ⟨s', item, fds, ht, hco, heq⟩
  · rw [heq]
    rcases Feed.read_cases (f := { f with socket := s' }) hw.coherent 0 [] with
      ⟨s'', hr, hread, -⟩ | ⟨s'', hc, -⟩ | ⟨_, piece, _, _, -, hne, -, hpiece, -⟩
    · rw [hread]
      show Parse.mk _ (s''.violation.map _) = Parse.mk _ _
      rw [hr.violation, hw.violation]
    · rcases hc.cause with hviolation | ⟨hv, -⟩
      · rw [show ({ f with socket := s' } : Feed).socket.rest = f.socket.rest from hw.rest] at hviolation
        exact nomatch hnext.symm.trans hviolation
      · exact nomatch hv
    · rw [show ({ f with socket := s' } : Feed).unread = [] from hunread] at hpiece
      exact absurd (List.append_eq_nil_iff.mp hpiece.symm).1 hne
  · rcases hc.cause with hviolation | ⟨-, hfds, -⟩
    · exact nomatch hnext.symm.trans hviolation
    · rw [(h.plain hsets).1] at hfds
      exact nomatch hfds
  · exact nomatch hnext.symm.trans ht.next

/-- Everything is taken that can be taken, and then as much is read as fits. -/
def fillRound (n : ℕ) : List FeedOp := List.replicate (n + 1) .pop ++ [.read n []]

/-- The stream delivered in reads that always fill the cursor. -/
def fillOps (stream : Bytes) : List FeedOp :=
  (List.replicate (stream.length + 1) (fillRound stream.length)).flatten

/-- A closed socket stays closed. -/
theorem Feed.Framed.step_closed {auth : Sasl} {stream : Bytes} {f : Feed} (h : f.Framed auth stream) (op : FeedOp)
    (hsome : f.socket.violation.isSome) : (f.step auth op).socket.violation.isSome := by
  cases op with
  | pop =>
    show (f.pop auth).socket.violation.isSome
    rcases Feed.pop_cases auth h.socket with ⟨s', hw, heq⟩ | ⟨s', v, hc, heq⟩ | ⟨s', item, fds, ht, hco, heq⟩
    · rw [heq, show ({ f with socket := s' } : Feed).socket.violation = _ from hw.violation]
      exact hsome
    · rw [heq, show ({ f with socket := s' } : Feed).socket.violation = _ from hc.violation]
      exact Option.isSome_or.trans (by rw [hsome]; rfl)
    · rw [heq]
      show s'.violation.isSome
      rw [ht.violation]
      exact hsome
  | read size fds =>
    show (f.read size fds).socket.violation.isSome
    rcases Feed.read_cases h.socket size fds with ⟨s', hr, heq, -⟩ | ⟨s', hc, heq⟩ | ⟨_, _, _, _, -, -, hopen, -, -⟩
    · rw [heq, show ({ f with socket := s' } : Feed).socket.violation = _ from hr.violation]
      exact hsome
    · rw [heq, show ({ f with socket := s' } : Feed).socket.violation = _ from hc.violation]
      exact Option.isSome_or.trans (by rw [hsome]; rfl)
    · rw [hopen] at hsome
      exact nomatch hsome

/-- A round closes the socket, reads something, or finds the feed done. -/
theorem Feed.Framed.round {auth : Sasl} {stream : Bytes} {f : Feed} (h : f.Framed auth stream) (hsets : f.sets = []) :
    let g := Machine.run (Feed.step auth) f (fillRound stream.length)
    g.Framed auth stream ∧ g.sets = [] ∧
      (g.socket.violation.isSome ∨ g.unread.length < f.unread.length ∨ g.unread = [] ∧ g.Settled auth) := by
  have hbound : f.socket.rest.length < stream.length + 1 := by
    cases hv : f.socket.violation with
    | none =>
      have hoffset := h.offset hv
      have htotal := h.total
      omega
    | some v =>
      rw [(h.closed (by rw [hv]; rfl)).1]
      exact Nat.succ_pos _
  obtain ⟨hg, hunread, hgsets, hd⟩ := h.pops (stream.length + 1) (.inr hbound)
  dsimp only
  rw [fillRound, Machine.run_append]
  revert hg hunread hgsets hd
  generalize Machine.run (Feed.step auth) f (List.replicate (stream.length + 1) .pop) = g
  intro hg hunread hgsets hd
  rw [Machine.run_cons, Machine.run_nil]
  have hread := hg.read stream.length []
  refine ⟨hread, ?_⟩
  show (g.read stream.length []).sets = [] ∧ ((g.read stream.length []).socket.violation.isSome ∨
    (g.read stream.length []).unread.length < f.unread.length ∨
    (g.read stream.length []).unread = [] ∧ (g.read stream.length []).Settled auth)
  rcases Feed.read_cases hg.socket stream.length [] with
    ⟨s', hr, heq, hwhy⟩ | ⟨s', hc, heq⟩ | ⟨s', piece, _, _, hr, hne, -, hpiece, heq⟩
  · rw [heq] at hread ⊢
    refine ⟨hgsets.trans hsets, ?_⟩
    cases hv : g.socket.violation with
    | some v =>
      refine .inl ?_
      rw [show ({ g with socket := s' } : Feed).socket.violation = _ from hr.violation, hv]
      rfl
    | none =>
      rcases hd with hsome | ⟨hdrained, hstuck⟩
      · rw [hv] at hsome
        exact nomatch hsome
      rcases hwhy hv with hlt | ⟨hnil, hshort⟩
      · omega
      have hrest : s'.rest = g.socket.rest := by rw [SocketIn.rest, SocketIn.rest, hr.held, hr.window]
      refine .inr (.inr ⟨hnil, hread.settled (hgsets.trans hsets) hnil ?_⟩)
      show nextItem g.mode s'.rest = .incomplete
      rw [hrest]
      rcases hstuck with hincomplete | hlong
      · exact hincomplete
      · obtain ⟨hlen, hmode⟩ := nextItem_lineTooLong hlong
        rw [hg.socket.rest_of_lines hmode] at hlen
        omega
  · rw [heq]
    refine ⟨hgsets.trans hsets, .inl ?_⟩
    rw [show ({ g with socket := s' } : Feed).socket.violation = _ from hc.violation]
    exact Option.isSome_or.trans (by rw [Bool.or_comm]; rfl)
  · have hlen := congrArg List.length hpiece
    rw [List.length_append] at hlen
    have hpos := List.length_pos_of_ne_nil hne
    rw [heq]
    refine ⟨?_, .inr (.inl ?_)⟩
    · show g.sets ++ (fdsOption []).toList.map _ = []
      rw [hgsets, hsets]
      rfl
    · show (g.unread.drop piece.length).length < f.unread.length
      rw [← hunread]
      omega

/-- A run that starts closed ends closed. -/
theorem Feed.Framed.run_closed {auth : Sasl} {stream : Bytes} (ops : List FeedOp) {f : Feed}
    (h : f.Framed auth stream) (hsome : f.socket.violation.isSome) :
    (Machine.run (Feed.step auth) f ops).socket.violation.isSome := by
  induction ops generalizing f with
  | nil => exact hsome
  | cons op rest ih => exact ih (h.step op) (h.step_closed op hsome)

/-- After enough rounds the feed is done. -/
theorem Feed.Framed.rounds {auth : Sasl} {stream : Bytes} (n : ℕ) {f : Feed} (h : f.Framed auth stream)
    (hsets : f.sets = []) (hn : f.unread.length < n) :
    (Machine.run (Feed.step auth) f (List.replicate n (fillRound stream.length)).flatten).Settled auth := by
  induction n generalizing f with
  | zero => exact absurd hn (Nat.not_lt_zero _)
  | succ n ih =>
    obtain ⟨hg, hgsets, hround⟩ := h.round hsets
    rw [List.replicate_succ, List.flatten_cons, Machine.run_append]
    rcases hround with hsome | hless | ⟨hnil, hsettled⟩
    · exact .inl (hg.run_closed _ hsome)
    · exact ih hg hgsets (by omega)
    · cases n with
      | zero => exact hsettled
      | succ n => exact ih hg hgsets (by rw [hnil]; exact Nat.succ_pos n)

/-- Reads without descriptors leave no sets. -/
theorem run_sets_nil (auth : Sasl) (ops : List FeedOp) (hops : ∀ size fds, FeedOp.read size fds ∈ ops → fds = [])
    {f : Feed} (hf : f.sets = []) : (Machine.run (Feed.step auth) f ops).sets = [] := by
  induction ops generalizing f with
  | nil => exact hf
  | cons op rest ih =>
    refine ih (fun size fds h => hops size fds (List.mem_cons_of_mem op h)) ?_
    cases op with
    | pop =>
      show (f.pop auth).sets = []
      rw [Feed.pop]
      split
      · split <;> exact hf
      · split <;> exact hf
    | read size fds =>
      show (f.read size fds).sets = []
      rw [hops size fds List.mem_cons_self, Feed.read]
      simp [hf]

/-- The parsed items extend those that were taken. -/
theorem Parse.prepend_items (items : List Item) (p : Parse) : (Parse.prepend items p).items = items ++ p.items := by
  induction items with
  | nil => rfl
  | cons item rest ih =>
    rw [Parse.prepend, List.foldr_cons, ← Parse.prepend, Parse.cons, ih]
    rfl

/-- For every stream without descriptors and every way to read it and to take from it what is there: the indices of the
input queue stay in order and no assertion fails; what was taken is the beginning of what the plain parser finds; and
when everything was received, the lines, the messages and the first violation are the ones of the plain parser, and so
the same as with reads that always fill the cursor. -/
theorem Feed.run_outcome_eq_plainParse (auth : Sasl) (stream : Bytes) (ops : List FeedOp)
    (hops : ∀ size fds, FeedOp.read size fds ∈ ops → fds = []) :
    let f := Machine.run (Feed.step auth) (Feed.init stream) ops
    let filled := Machine.run (Feed.step auth) (Feed.init stream) (fillOps stream)
    let q := f.socket.queue
    (q.dataStart ≤ q.dataCursor ∧ q.dataCursor ≤ q.dataEnd ∧ q.dataEnd ≤ q.dataSize ∧ q.assertFailed = false) ∧
    f.outcome.items <+: (plainParse auth (.lines []) stream).items ∧
    filled.Settled auth ∧ filled.outcome = plainParse auth (.lines []) stream ∧
    (f.Settled auth → f.outcome = plainParse auth (.lines []) stream ∧ f.outcome = filled.outcome) := by
  intro f filled q
  have hf : f.Framed auth stream := framed_run auth stream ops
  have hsets : f.sets = [] := run_sets_nil auth ops hops rfl
  have hfilled : filled.Framed auth stream := framed_run auth stream (fillOps stream)
  have hfill : ∀ size fds, FeedOp.read size fds ∈ fillOps stream → fds = [] := by
    intro size fds hmem
    obtain ⟨round, hround, hmem⟩ := List.mem_flatten.mp hmem
    rw [(List.mem_replicate.mp hround).2, fillRound] at hmem
    rcases List.mem_append.mp hmem with hmem | hmem
    · exact nomatch (List.mem_replicate.mp hmem).2
    · cases List.mem_singleton.mp hmem
      rfl
  have hsettled : filled.Settled auth :=
    (framed_init auth stream).rounds (stream.length + 1) rfl (Nat.lt_succ_self _)
  have hparse := hfilled.outcome_eq (run_sets_nil auth _ hfill rfl) hsettled
  refine ⟨⟨hf.socket.bounded.start, hf.socket.bounded.cursor, hf.socket.bounded.stop, hf.socket.bounded.assertion⟩,
    ?_, hsettled, hparse, fun hs => ?_⟩
  · cases hv : f.socket.violation with
    | none =>
      rw [hf.parse hv, Parse.prepend_items]
      exact List.prefix_append _ _
    | some v =>
      rcases (hf.closed (by rw [hv]; rfl)).2 with ⟨-, hne⟩ | heq
      · exact absurd hsets hne
      · exact heq.symm ▸ List.prefix_refl _
  · have heq := hf.outcome_eq hsets hs
    exact ⟨heq, heq.trans hparse.symm⟩

/-- The header of a message without fields and body. -/
def bareHeader : Bytes := [0x6c, 1, 0, 1, 0, 0, 0, 0, 1, 0, 0, 0, 0, 0, 0, 0]

/-- A line that ends the authentication, a message, and the start of another one. -/
def lineAndMessage : Bytes := lit "BEGIN" ++ [0x0d, 0x0a] ++ bareHeader ++ bareHeader.take 5

/-- The stream cut within the line end and within the header. -/
theorem run_outcome_lineAndMessage :
    (Machine.run (Feed.step fun _ => true) (Feed.init lineAndMessage)
      [.read 5 [], .pop, .read 6 [], .pop, .pop, .read 99 [], .pop, .pop]).outcome =
      plainParse (fun _ => true) (.lines []) lineAndMessage := by
  refine ((Feed.run_outcome_eq_plainParse (fun _ => true) lineAndMessage
    [.read 5 [], .pop, .read 6 [], .pop, .pop, .read 99 [], .pop, .pop] ?_).2.2.2.2 (.inr ⟨?_, ?_⟩)).1
  · intro size fds hmem
    simp only [List.mem_cons, FeedOp.read.injEq, reduceCtorEq, List.not_mem_nil, or_false, false_or] at hmem
    rcases hmem with ⟨-, hfds⟩ | ⟨-, hfds⟩ | ⟨-, hfds⟩ <;> exact hfds
  · rfl
  · rfl

end DbusBroker
