import DbusBroker.Dbus.Socket

/-!
# The end of a socket

A direction that was hung up stays so, and what was queued for it is gone. The socket ends when both
directions are hung up, the kernel has sent everything, and the input is used up; from then on nothing
changes any more. A call that looks for input and finds none notices the end.
-/

namespace DbusBroker

open Machine

/-! ## The input queue at its end -/

section Queue

variable {q : IQueue}

/-- An input that has ended has no byte that was not looked at. -/
theorem iqueueIsEof_iff : iqueueIsEof q = true ↔
    q.dataEnd ≤ q.dataCursor ∧ ∀ t ∈ q.target, t.copied.length < t.nData := by
  rw [iqueueIsEof, Bool.and_eq_true, decide_eq_true_iff]
  cases q.target <;> simp

/-- No line is found in an input that has ended. -/
theorem iqueuePopLine_of_eof (h : iqueueIsEof q = true) : iqueuePopLine q = (q.check q.target.isNone, .pending) := by
  have hend : (q.check q.target.isNone).dataEnd - (q.check q.target.isNone).dataCursor = 0 :=
    Nat.sub_eq_zero_of_le (iqueueIsEof_iff.mp h).1
  rw [iqueuePopLine]
  dsimp only
  rw [hend]
  rfl

/-- A queue with a target that still misses bytes, or with none, has ended if there are no bytes to look at. -/
theorem iqueueIsEof_of_target (h : q.dataEnd ≤ q.dataCursor) {t : IQueueTarget} (ht : q.target = some t)
    (hmissing : t.copied.length < t.nData) : iqueueIsEof q = true := by
  refine iqueueIsEof_iff.mpr ⟨h, fun t' ht' => ?_⟩
  rw [ht] at ht'
  exact Option.some.inj ht' ▸ hmissing

/-- A queue without a target has ended if there are no bytes to look at. -/
theorem iqueueIsEof_of_no_target (h : q.dataEnd ≤ q.dataCursor) (ht : q.target = none) : iqueueIsEof q = true := by
  refine iqueueIsEof_iff.mpr ⟨h, fun t ht' => ?_⟩
  rw [ht] at ht'
  cases ht'

/-- Taking data from an input without bytes to look at leaves none, and ends it unless it is closed. -/
theorem iqueuePopData_ends (h : q.dataEnd ≤ q.dataCursor) (wanted : Bool) :
    (iqueuePopData q wanted).1.dataEnd ≤ (iqueuePopData q wanted).1.dataCursor ∧
      ((iqueuePopData q wanted).2 ≠ .violation → iqueueIsEof (iqueuePopData q wanted).1 = true) := by
  rw [iqueuePopData]
  cases htarget : q.target with
  | none => exact ⟨h, fun _ => iqueueIsEof_of_no_target (q := q.check false) h htarget⟩
  | some t =>
    have hcopied : (iqueueCopy (q.check (t.copied.length ≤ t.nData)) t).1.dataEnd ≤
        (iqueueCopy (q.check (t.copied.length ≤ t.nData)) t).1.dataCursor := Nat.le_add_right_of_le h
    dsimp only
    generalize iqueueCopy (q.check (t.copied.length ≤ t.nData)) t = copy at hcopied ⊢
    obtain ⟨q', t'⟩ := copy
    by_cases hviolation : (q'.dataEnd - q'.dataStart == 0 && q'.fds.isSome && q'.targetFds.isSome) = true
    · rw [if_pos hviolation]
      exact ⟨hcopied, fun hpop => absurd rfl hpop⟩
    rw [if_neg hviolation]
    obtain ⟨q'', hq'', hdrained, ht''⟩ : ∃ q'' : IQueue,
        (if (q'.dataEnd - q'.dataStart == 0 && q'.fds.isSome) = true then
          { q' with target := some t', targetFds := q'.fds, fds := none } else { q' with target := some t' }) = q'' ∧
        q''.dataEnd ≤ q''.dataCursor ∧ q''.target = some t' := by
      refine ⟨_, rfl, ?_⟩
      split_ifs
      · exact ⟨hcopied, rfl⟩
      · exact ⟨hcopied, rfl⟩
    rw [hq'']
    by_cases hmissing : t'.copied.length < t'.nData
    · rw [if_pos hmissing]
      exact ⟨hdrained, fun _ => iqueueIsEof_of_target hdrained ht'' hmissing⟩
    rw [if_neg hmissing]
    cases wanted with
    | true => exact ⟨hdrained, fun _ => iqueueIsEof_of_no_target hdrained rfl⟩
    | false => exact ⟨hdrained, fun _ => iqueueIsEof_of_no_target hdrained rfl⟩

end Queue

namespace Socket

variable {s s' s'' : Socket}

/-! ## What a socket keeps -/

/-- The output that was hung up is gone, and a socket that was reset is over. -/
structure Sound (s : Socket) : Prop where
  discarded : s.output.hupOut = true → s.output.queue = []
  finished : s.reset = true → s.isOver = true

/-- The output that was hung up is gone, and a socket that was reset is hung up. -/
structure Half (s : Socket) : Prop where
  discarded : s.output.hupOut = true → s.output.queue = []
  hungUp : s.reset = true → s.isHungUp = true

/-- No flag of a socket was taken back. -/
structure Follows (s s' : Socket) : Prop where
  hupIn : s.input.hupIn = true → s'.input.hupIn = true
  hupOut : s.output.hupOut = true → s'.output.hupOut = true
  shutdown : s.output.shutdown = true → s'.output.shutdown = true
  reset : s.reset = true → s'.reset = true

/-- A socket that is over was reset. -/
def Settled (s : Socket) : Prop := s.isOver = true → s.reset = true

/-- Nothing was done. -/
theorem Follows.refl (s : Socket) : Follows s s := ⟨id, id, id, id⟩

/-- One step after another. -/
theorem Follows.trans (h : Follows s s') (h' : Follows s' s'') : Follows s s'' :=
  ⟨fun hs => h'.hupIn (h.hupIn hs), fun hs => h'.hupOut (h.hupOut hs), fun hs => h'.shutdown (h.shutdown hs),
    fun hs => h'.reset (h.reset hs)⟩

/-- A socket is hung up in both directions and nothing is with the kernel. -/
theorem isHungUp_iff : s.isHungUp = true ↔
    s.input.hupIn = true ∧ s.output.hupOut = true ∧ s.output.pending = [] := by
  rw [isHungUp, Bool.and_eq_true, Bool.and_eq_true, List.isEmpty_iff, and_assoc]

/-- A socket is over. -/
theorem isOver_iff : s.isOver = true ↔ s.isHungUp = true ∧ iqueueIsEof s.input.queue = true := by
  rw [isOver, Bool.and_eq_true]

/-- `socket_might_reset` sets the flag of a socket that is over, and nothing else. -/
theorem mightReset_eq (s : Socket) : s.mightReset = { s with reset := s.reset || s.isOver } := by
  obtain ⟨input, output, reset⟩ := s
  cases reset with
  | true => rfl
  | false =>
    cases hover : isOver ⟨input, output, false⟩ with
    | true => rw [mightReset, hover]; rfl
    | false => rw [mightReset, hover]; rfl

/-- A step that takes back no flag and keeps a socket sound. -/
structure Keeps (s s' : Socket) : Prop where
  follows : Follows s s'
  sound : s.Sound → s'.Sound
  half : s.Half → s'.Half

/-- Nothing was done. -/
theorem Keeps.refl (s : Socket) : Keeps s s := ⟨.refl s, id, id⟩

/-- One step after another. -/
theorem Keeps.trans (h : Keeps s s') (h' : Keeps s' s'') : Keeps s s'' :=
  ⟨h.follows.trans h'.follows, fun hs => h'.sound (h.sound hs), fun hs => h'.half (h.half hs)⟩

/-- A socket is hung up and has ended, or at least the former. -/
theorem Sound.half (h : s.Sound) : s.Half := ⟨h.discarded, fun hreset => (isOver_iff.mp (h.finished hreset)).1⟩

/-- A socket that is hung up and has ended. -/
theorem Half.sound (h : s.Half) (hended : s.reset = true → iqueueIsEof s.input.queue = true) : s.Sound :=
  ⟨h.discarded, fun hreset => isOver_iff.mpr ⟨h.hungUp hreset, hended hreset⟩⟩

/-- A step that only concerns what a reset socket does not look at. -/
theorem keeps_of_hungUp (hin : s.input.hupIn = true → s'.input.hupIn = true)
    (hout : s.output.hupOut = true → s'.output.hupOut = true)
    (hshutdown : s.output.shutdown = true → s'.output.shutdown = true) (hreset : s'.reset = s.reset)
    (hqueue : (s.output.hupOut = true → s.output.queue = []) → s'.output.hupOut = true → s'.output.queue = [])
    (hhungUp : s.isHungUp = true → s'.isHungUp = true)
    (hended : iqueueIsEof s.input.queue = true → iqueueIsEof s'.input.queue = true) : Keeps s s' := by
  have hhalf (h : s.Half) : s'.Half :=
    ⟨hqueue h.discarded, fun hreset' => hhungUp (h.hungUp (hreset.symm.trans hreset'))⟩
  refine ⟨⟨hin, hout, hshutdown, fun hs => hreset.trans hs⟩, fun hs => (hhalf hs.half).sound fun hreset' => ?_, hhalf⟩
  exact hended (isOver_iff.mp (hs.finished (hreset.symm.trans hreset'))).2

/-- `socket_might_reset` only sets the flag of a socket that is over. -/
theorem keeps_mightReset (s : Socket) : Keeps s s.mightReset := by
  rw [mightReset_eq]
  refine ⟨⟨id, id, id, fun hs => by rw [hs, Bool.true_or]⟩, fun h => ⟨h.discarded, fun hreset => ?_⟩,
    fun h => ⟨h.discarded, fun hreset => ?_⟩⟩
  · obtain hreset | hover := Bool.or_eq_true_iff.mp hreset
    · exact h.finished hreset
    · exact hover
  · obtain hreset | hover := Bool.or_eq_true_iff.mp hreset
    · exact h.hungUp hreset
    · exact (isOver_iff.mp hover).1

/-- `socket_might_reset` notices the end. -/
theorem settled_mightReset (s : Socket) : s.mightReset.Settled := by
  intro hover
  rw [mightReset_eq] at hover ⊢
  have hs : s.isOver = true := hover
  rw [hs, Bool.or_true]

/-- Hanging up the input. -/
theorem keeps_hangupInput (s : Socket) : Keeps s s.hangupInput := by
  rw [hangupInput]
  cases hin : s.input.hupIn with
  | true => exact .refl s
  | false =>
    refine .trans ?_ (keeps_mightReset _)
    refine keeps_of_hungUp (fun _ => rfl) id id rfl id (fun hhungUp => ?_) id
    exact absurd (isHungUp_iff.mp hhungUp).1 (Bool.eq_false_iff.mp hin)

/-- Hanging up the output, which discards it. -/
theorem keeps_hangupOutput (s : Socket) : Keeps s s.hangupOutput := by
  rw [hangupOutput]
  cases hout : s.output.hupOut with
  | true => exact .refl s
  | false =>
    have hhangup : s.output.hangup = { s.output with hupOut := true, queue := [] } := by
      rw [SocketOut.hangup, hout]
      rfl
    rw [hhangup]
    refine .trans ?_ (keeps_mightReset _)
    refine keeps_of_hungUp id (fun _ => rfl) id rfl (fun _ _ => rfl) (fun hhungUp => ?_) id
    exact absurd (isHungUp_iff.mp hhungUp).2.1 (Bool.eq_false_iff.mp hout)

/-- Shutting down. -/
theorem keeps_shutdown (s : Socket) : Keeps s s.shutdown := by
  rw [shutdown]
  cases hshutdown : s.output.shutdown with
  | true => exact .refl s
  | false =>
    have hset : Keeps s { s with output := { s.output with shutdown := true } } :=
      keeps_of_hungUp id id (fun _ => rfl) rfl id id id
    rw [if_neg (by simp)]
    by_cases hempty : s.output.queue.isEmpty = true
    · exact (if_pos hempty) ▸ hset.trans (keeps_hangupOutput _)
    · exact (if_neg hempty) ▸ hset

/-- Discarding the input, which ends it. -/
theorem keeps_discardInput (s : Socket) : Keeps s s.discardInput := keeps_of_hungUp id id id rfl id id fun _ => rfl

/-- Closing. -/
theorem keeps_close (s : Socket) : Keeps s s.close :=
  (keeps_hangupInput s).trans <| (keeps_shutdown _).trans <| (keeps_discardInput _).trans (keeps_mightReset _)

/-- Closing a socket ends its input. -/
theorem Half.close (h : s.Half) : s.close.Sound := by
  have hshutdown : s.hangupInput.shutdown.Half := (keeps_shutdown _).half ((keeps_hangupInput s).half h)
  have hdiscarded : s.hangupInput.shutdown.discardInput.Sound := ((keeps_discardInput _).half hshutdown).sound fun _ => rfl
  exact (keeps_mightReset _).sound hdiscarded

/-- Closing notices the end. -/
theorem settled_close (s : Socket) : s.close.Settled := settled_mightReset _

/-- Closing because of a violation. -/
theorem keeps_violate (s : Socket) (v : Violation) : Keeps s (s.violate v) := by
  have hrecorded : Keeps s { s with input := { s.input with violation := s.input.violation.or (some v) } } :=
    keeps_of_hungUp id id id rfl id id id
  exact hrecorded.trans (keeps_close _)

/-- A violation notices the end. -/
theorem settled_violate (s : Socket) (v : Violation) : (s.violate v).Settled := settled_close _

/-- A change of the input queue that leaves an ended input ended. -/
theorem keeps_setQueue {q : IQueue} (h : iqueueIsEof s.input.queue = true → iqueueIsEof q = true) :
    Keeps s (s.setQueue q) :=
  keeps_of_hungUp id id id rfl id id h

/-! ## Looking for input -/

/-- What a call that looks for input leaves: no flag is taken back, and if it found none then the end was noticed. -/
structure Looks (s : Socket) (r : Socket × SocketPop) : Prop where
  keeps : Keeps s r.1
  notices : r.2 = .nothing ∨ r.2 = .eof → r.1.Settled

/-- A violation is noticed. -/
theorem looks_violate (h : Keeps s s') (v : Violation) (pop : SocketPop) : Looks s (s'.violate v, pop) :=
  ⟨h.trans (keeps_violate s' v), fun _ => settled_violate s' v⟩

/-- The end of a call that found nothing. -/
theorem looks_noData (h : Keeps s s') : Looks s s'.noData :=
  ⟨h.trans (keeps_mightReset s'), fun _ => settled_mightReset s'⟩

/-- A call that found something. -/
theorem looks_found (h : Keeps s s') {pop : SocketPop} (hnothing : pop ≠ .nothing) (heof : pop ≠ .eof) :
    Looks s (s', pop) :=
  ⟨h, fun hpop => absurd hpop (not_or.mpr ⟨hnothing, heof⟩)⟩

/-- A call that the quota does not admit. -/
theorem looks_quota (h : Keeps s s') : Looks s (s', .quota) := looks_found h (by simp) (by simp)

/-- `socket_dequeue_line` looks for a line. -/
theorem looks_dequeueLine (s : Socket) : Looks s s.dequeueLine := by
  have hkeeps : Keeps s (s.setQueue (iqueuePopLine s.input.queue).1) := by
    refine keeps_setQueue fun heof => ?_
    rw [iqueuePopLine_of_eof heof]
    exact heof
  rw [dequeueLine]
  generalize iqueuePopLine s.input.queue = r at hkeeps ⊢
  obtain ⟨q, pop⟩ := r
  cases pop with
  | pending => exact looks_noData hkeeps
  | violation => exact looks_violate hkeeps _ _
  | data bytes fds => exact looks_found hkeeps (by simp) (by simp)

/-! ### Messages -/

/-- A step within a call that takes data: no bytes to look at came to a socket that is over. -/
structure Drains (s s' : Socket) : Prop where
  follows : Follows s s'
  half : s.Half → s'.Half
  drained : s.Sound → s'.reset = true → s'.input.queue.dataEnd ≤ s'.input.queue.dataCursor

/-- A step that keeps the end of the input. -/
theorem Keeps.drains (h : Keeps s s') : Drains s s' :=
  ⟨h.follows, h.half, fun hs hreset => (iqueueIsEof_iff.mp (isOver_iff.mp ((h.sound hs).finished hreset)).2).1⟩

/-- Another queue without more bytes to look at. -/
theorem Drains.setQueue (h : Drains s s') {q : IQueue}
    (hq : s'.input.queue.dataEnd ≤ s'.input.queue.dataCursor → q.dataEnd ≤ q.dataCursor) : Drains s (s'.setQueue q) :=
  ⟨⟨h.follows.hupIn, h.follows.hupOut, h.follows.shutdown, h.follows.reset⟩,
    fun hs => ⟨(h.half hs).discarded, (h.half hs).hungUp⟩, fun hs hreset => hq (h.drained hs hreset)⟩

/-- Another queue, which ended the input again. -/
theorem Drains.keeps (h : Drains s s') {q : IQueue}
    (hq : s'.input.queue.dataEnd ≤ s'.input.queue.dataCursor → iqueueIsEof q = true) : Keeps s (s'.setQueue q) := by
  have hset : Drains s (s'.setQueue q) := h.setQueue fun hend => (iqueueIsEof_iff.mp (hq hend)).1
  exact ⟨hset.follows, fun hs => (hset.half hs.half).sound fun hreset => hq (h.drained hs hreset), hset.half⟩

/-- The message that is read does not matter. -/
theorem Drains.setMessage (h : Drains s s') (message : Option (Bytes × ℕ)) :
    Drains s { s' with input := { s'.input with message := message } } :=
  ⟨⟨h.follows.hupIn, h.follows.hupOut, h.follows.shutdown, h.follows.reset⟩,
    fun hs => ⟨(h.half hs).discarded, (h.half hs).hungUp⟩, h.drained⟩

/-- The message that is read does not matter. -/
theorem Keeps.setMessage (h : Keeps s s') (message : Option (Bytes × ℕ)) :
    Keeps s { s' with input := { s'.input with message := message } } :=
  h.trans (keeps_of_hungUp id id id rfl id id id)

/-- A violation in the middle of a call is noticed. -/
theorem Drains.looks_violate (h : Drains s s') (v : Violation) (pop : SocketPop) : Looks s (s'.violate v, pop) := by
  have hrecorded (hs : s'.Half) :
      Half { s' with input := { s'.input with violation := s'.input.violation.or (some v) } } :=
    ⟨hs.discarded, hs.hungUp⟩
  refine ⟨⟨h.follows.trans (keeps_violate s' v).follows, fun hs => ?_, fun hs => ?_⟩, fun _ => settled_violate s' v⟩
  · exact (hrecorded (h.half hs.half)).close
  · exact (keeps_violate s' v).half (h.half hs)

/-- The end of `socket_dequeue` looks for the rest of the message. -/
theorem Drains.looks_dequeueBody (h : Drains s s') : Looks s s'.dequeueBody := by
  have hchecked : Drains s (s'.setQueue (s'.input.queue.check s'.input.message.isSome)) := h.setQueue id
  rw [dequeueBody]
  generalize s'.setQueue (s'.input.queue.check s'.input.message.isSome) = t at hchecked ⊢
  dsimp only
  have hends := fun hend => iqueuePopData_ends (q := t.input.queue) hend true
  generalize iqueuePopData t.input.queue true = r at hends ⊢
  obtain ⟨q, pop⟩ := r
  cases pop with
  | pending => exact looks_noData (hchecked.keeps fun hend => (hends hend).2 (by simp))
  | violation => exact (hchecked.setQueue fun hend => (hends hend).1).looks_violate _ _
  | data bytes fds =>
    exact looks_found ((hchecked.keeps fun hend => (hends hend).2 (by simp)).setMessage none) (by simp) (by simp)

/-- The start of `socket_dequeue` looks for a header, and then for the rest of its message. -/
theorem Keeps.looks_dequeueHeader (h : Keeps s s') (admittedBody : Bool) : Looks s (s'.dequeueHeader admittedBody) := by
  rw [dequeueHeader]
  have hends := fun hend => iqueuePopData_ends (q := s'.input.queue) hend false
  generalize iqueuePopData s'.input.queue false = r at hends ⊢
  obtain ⟨q, pop⟩ := r
  cases pop with
  | pending => exact looks_noData (h.drains.keeps fun hend => (hends hend).2 (by simp))
  | violation => exact (h.drains.setQueue fun hend => (hends hend).1).looks_violate _ _
  | data header fds =>
    have hpopped : Keeps s (s'.setQueue q) := h.drains.keeps fun hend => (hends hend).2 (by simp)
    dsimp only
    cases messageNewIncoming header with
    | none => exact looks_violate hpopped _ _
    | some nData =>
      cases admittedBody with
      | false => exact looks_quota (hpopped.trans (keeps_setQueue id))
      | true =>
        -- the target of a message without a body is complete at once
        have htarget : Drains s ((s'.setQueue q).setQueue
            { q.check q.target.isNone with target := some ⟨nData - messageHeaderSize, []⟩ }) := hpopped.drains.setQueue id
        exact (htarget.setMessage (some (header, nData))).looks_dequeueBody

/-- `socket_dequeue` looks for a message. -/
theorem looks_dequeue (s : Socket) (admittedHeader admittedBody : Bool) :
    Looks s (s.dequeue admittedHeader admittedBody) := by
  have hrest {q : IQueue} (hq : Keeps s (s.setQueue q)) :
      Looks s (if (s.setQueue q).input.message.isSome then (s.setQueue q).dequeueBody
        else (s.setQueue q).dequeueHeader admittedBody) := by
    split_ifs
    · exact hq.drains.looks_dequeueBody
    · exact hq.looks_dequeueHeader admittedBody
  rw [dequeue]
  cases htarget : s.input.queue.target with
  | some t => exact hrest (keeps_setQueue id)
  | none =>
    cases admittedHeader with
    | false => exact looks_quota (keeps_setQueue id)
    | true =>
      refine hrest (keeps_setQueue fun heof => ?_)
      exact iqueueIsEof_of_target (iqueueIsEof_iff.mp heof).1 rfl (by decide)

/-! ## The other operations -/

/-- A step of the output of a socket that can still be written to. -/
theorem keeps_setOutput {output : SocketOut} (hout : s.output.hupOut = false) (hout' : output.hupOut = false)
    (hshutdown : s.output.shutdown = true → output.shutdown = true) : Keeps s { s with output := output } := by
  have hopen : output.hupOut ≠ true := Bool.eq_false_iff.mp hout'
  refine keeps_of_hungUp id (fun h => absurd h (Bool.eq_false_iff.mp hout)) hshutdown rfl
    (fun _ h => absurd h hopen) (fun hhungUp => ?_) id
  exact absurd (isHungUp_iff.mp hhungUp).2.1 (Bool.eq_false_iff.mp hout)

/-- A step of the input of a socket that can still be read from. -/
theorem keeps_read (hin : s.input.hupIn = false) (q : IQueue) : Keeps s (s.setQueue q) := by
  have hreset (hs : s.Half) : s.reset ≠ true := fun hreset =>
    Bool.eq_false_iff.mp hin (isHungUp_iff.mp (hs.hungUp hreset)).1
  refine ⟨⟨id, id, id, id⟩, fun hs => ⟨hs.discarded, fun h => absurd h (hreset hs.half)⟩,
    fun hs => ⟨hs.discarded, fun h => absurd h (hreset hs)⟩⟩

/-- Queueing a line. -/
theorem keeps_queueLine (s : Socket) (line : Bytes) (admitted : Bool) : Keeps s (s.queueLine line admitted).1 := by
  rw [queueLine, socketQueueLine]
  by_cases hclosed : (s.output.hupOut || s.output.shutdown) = true
  · rw [if_pos hclosed]
    exact .refl s
  have hout : s.output.hupOut = false := by
    rw [Bool.or_eq_true, not_or] at hclosed
    exact Bool.eq_false_iff.mpr hclosed.1
  rw [if_neg hclosed]
  dsimp only
  cases s.output.queue.getLast? with
  | none =>
    cases admitted with
    | true => exact keeps_setOutput hout hout id
    | false => exact .refl s
  | some b =>
    dsimp only
    split_ifs
    · exact keeps_setOutput hout hout id
    · exact keeps_setOutput hout hout id
    · exact .refl s
    · exact keeps_setOutput hout hout id

/-- Queueing a message. -/
theorem keeps_queue (s : Socket) (message : SocketMessage) (admitted : Bool) :
    Keeps s (s.queue message admitted).1 := by
  rw [queue, socketQueue]
  by_cases hclosed : (s.output.hupOut || s.output.shutdown) = true
  · rw [if_pos hclosed]
    exact .refl s
  have hout : s.output.hupOut = false := by
    rw [Bool.or_eq_true, not_or] at hclosed
    exact Bool.eq_false_iff.mpr hclosed.1
  rw [if_neg hclosed]
  cases admitted with
  | true => exact keeps_setOutput hout hout id
  | false => exact .refl s

/-- Reading from the kernel. -/
theorem keeps_recvmsg (hin : s.input.hupIn = false) (cursor : IQueueCursor) (room : ℕ) (recv : ℕ → RecvResult)
    (admittedFds : Bool) : Keeps s (s.recvmsg cursor room recv admittedFds) := by
  have hchecked : Keeps s (s.setQueue (s.input.queue.check (0 < room))) := keeps_read hin _
  have hin' : (s.setQueue (s.input.queue.check (0 < room))).input.hupIn = false := hin
  rw [recvmsg]
  generalize s.setQueue (s.input.queue.check (0 < room)) = t at hchecked hin' ⊢
  dsimp only
  refine hchecked.trans ?_
  cases recv room with
  | again => exact .refl t
  | fatal => exact .refl t
  | reset => exact (keeps_hangupInput t).trans (keeps_hangupOutput _)
  | eof => exact keeps_hangupInput t
  | data bytes fds truncated =>
    dsimp only
    split_ifs
    · exact keeps_violate t _
    · exact keeps_read hin' _
    · exact keeps_violate t _
    · exact keeps_read hin' _
    · exact keeps_read hin' _
    · exact keeps_violate t _
    · exact keeps_read hin' _

/-- Reading, unless the input is hung up. -/
theorem keeps_dispatchRead (s : Socket) (recv : ℕ → RecvResult) (admittedBuffer admittedFds : Bool) :
    Keeps s (s.dispatchRead recv admittedBuffer admittedFds) := by
  rw [dispatchRead]
  cases hin : s.input.hupIn with
  | true => exact .refl s
  | false =>
    rw [if_neg (by simp)]
    have hqueue (q : IQueue) : Keeps s (s.setQueue q) := keeps_read hin q
    generalize iqueueGetCursor s.input.queue admittedBuffer = r
    obtain ⟨q, cursor⟩ := r
    cases cursor with
    | pending => exact hqueue q
    | quota => exact (hqueue q).trans (keeps_violate _ _)
    | violation => exact (hqueue q).trans (keeps_violate _ _)
    | target room => exact (hqueue q).trans (keeps_recvmsg (s := s.setQueue q) hin _ _ _ _)
    | buffer room => exact (hqueue q).trans (keeps_recvmsg (s := s.setQueue q) hin _ _ _ _)

/-- Writing to the kernel. -/
theorem keeps_sendmsg (hout : s.output.hupOut = false) (msgs : List MsgHdr) (sent : SendResult) :
    Keeps s (s.sendmsg msgs sent) := by
  cases sent with
  | again => exact .refl s
  | fatal => exact .refl s
  | hangup => exact keeps_hangupOutput s
  | sent lens =>
    rw [sendmsg]
    generalize socketConsume lens s.output.queue = r
    obtain ⟨queue, done, ok⟩ := r
    dsimp only
    split_ifs
    · refine .trans ?_ (keeps_hangupOutput _)
      exact keeps_setOutput hout hout id
    · exact keeps_setOutput hout hout id

/-- Writing, unless the output is hung up. -/
theorem keeps_dispatchWrite (zephyr : Bool) (s : Socket) (outq : ℕ) (sendmmsg : List MsgHdr → SendResult) :
    Keeps s (s.dispatchWrite zephyr outq sendmmsg) := by
  have hcleared : Keeps s (if s.output.pending.isEmpty then s
      else ({ s with output := { s.output with pending := [] } } : Socket).mightReset) := by
    split_ifs
    · exact .refl s
    · have hpending : Keeps s { s with output := { s.output with pending := [] } } := by
        refine keeps_of_hungUp id id id rfl id (fun hhungUp => ?_) id
        exact isHungUp_iff.mpr ⟨(isHungUp_iff.mp hhungUp).1, (isHungUp_iff.mp hhungUp).2.1, rfl⟩
      exact hpending.trans (keeps_mightReset _)
  rw [dispatchWrite]
  generalize (if s.output.pending.isEmpty then s
      else ({ s with output := { s.output with pending := [] } } : Socket).mightReset) = t at hcleared ⊢
  by_cases hbusy : (!s.output.pending.isEmpty && !zephyr && decide (128 < outq)) = true
  · rw [if_pos hbusy]
    exact .refl s
  rw [if_neg hbusy]
  dsimp only
  by_cases hout : t.output.hupOut = true
  · rw [if_pos hout]
    exact hcleared
  rw [if_neg hout]
  split_ifs
  · exact hcleared
  · exact hcleared.trans (keeps_sendmsg (Bool.eq_false_iff.mpr hout) _ _)

/-- No operation takes back a flag, and all of them keep a socket sound. -/
theorem keeps_step (zephyr : Bool) (s : Socket) (op : Op) : Keeps s (s.step zephyr op) := by
  cases op with
  | queueLine line admitted => exact keeps_queueLine s line admitted
  | queue message admitted => exact keeps_queue s message admitted
  | dequeueLine => exact (looks_dequeueLine s).keeps
  | dequeue admittedHeader admittedBody => exact (looks_dequeue s admittedHeader admittedBody).keeps
  | dispatch event answers =>
    cases event with
    | epollin => exact keeps_dispatchRead s _ _ _
    | epollout => exact keeps_dispatchWrite zephyr s _ _
    | epollhup => exact (keeps_hangupOutput s).trans (keeps_dispatchRead _ _ _ _)
  | shutdown => exact keeps_shutdown s
  | close => exact keeps_close s

/-- Runs keep what steps keep. -/
theorem keeps_run (zephyr : Bool) (s : Socket) (ops : List Op) : Keeps s (run (step zephyr) s ops) := by
  induction ops generalizing s with
  | nil => exact .refl s
  | cons op ops ih => exact (keeps_step zephyr s op).trans (ih _)

/-- A new socket is sound. -/
theorem sound_init : Socket.init.Sound := ⟨fun _ => rfl, fun hreset => by cases hreset⟩

/-- Nothing is queued after a shutdown or a hangup. -/
theorem queue_closed (h : s.output.shutdown = true ∨ s.output.hupOut = true) :
    (∀ line admitted, s.queueLine line admitted = (s, .shutdown)) ∧
      ∀ message admitted, s.queue message admitted = (s, .shutdown) := by
  have hclosed : (s.output.hupOut || s.output.shutdown) = true := Bool.or_eq_true_iff.mpr h.symm
  refine ⟨fun line admitted => ?_, fun message admitted => ?_⟩
  · rw [queueLine, socketQueueLine, if_pos hclosed]
  · rw [queue, socketQueue, if_pos hclosed]

/-- In every run a flag that is set stays set, hung-up output is gone and no output is accepted after a shutdown; a
socket that was reset is over for good; and a call that looks for input and finds none notices the end, as does
closing the socket. -/
theorem run_lifecycle (zephyr : Bool) (ops : List Op) :
    let s := run (step zephyr) Socket.init ops
    (s.output.hupOut = true → ∀ more, (run (step zephyr) s more).output.hupOut = true ∧
        (run (step zephyr) s more).output.queue = []) ∧
      (s.output.shutdown = true ∨ s.output.hupOut = true → ∀ more,
        (∀ line admitted, (run (step zephyr) s more).queueLine line admitted = (run (step zephyr) s more, .shutdown)) ∧
        ∀ message admitted, (run (step zephyr) s more).queue message admitted = (run (step zephyr) s more, .shutdown)) ∧
      (s.reset = true → ∀ more, (run (step zephyr) s more).reset = true ∧
        (run (step zephyr) s more).input.hupIn = true ∧ (run (step zephyr) s more).output.hupOut = true ∧
        (run (step zephyr) s more).output.pending = [] ∧
        iqueueIsEof (run (step zephyr) s more).input.queue = true) ∧
      (s.dequeueLine.2 = .nothing ∨ s.dequeueLine.2 = .eof → s.dequeueLine.1.isOver = true →
        s.dequeueLine.1.reset = true) ∧
      (∀ admittedHeader admittedBody, (s.dequeue admittedHeader admittedBody).2 = .nothing ∨
          (s.dequeue admittedHeader admittedBody).2 = .eof →
        (s.dequeue admittedHeader admittedBody).1.isOver = true →
        (s.dequeue admittedHeader admittedBody).1.reset = true) ∧
      (s.close.isOver = true → s.close.reset = true) := by
  intro s
  have hsound (more : List Op) : (run (step zephyr) s more).Sound :=
    (keeps_run zephyr s more).sound ((keeps_run zephyr _ ops).sound sound_init)
  refine ⟨fun hout more => ?_, fun hclosed more => queue_closed ?_, fun hreset more => ?_, (looks_dequeueLine s).notices,
    fun admittedHeader admittedBody => (looks_dequeue s admittedHeader admittedBody).notices, settled_close s⟩
  · have hout' := (keeps_run zephyr s more).follows.hupOut hout
    exact ⟨hout', (hsound more).discarded hout'⟩
  · exact hclosed.imp (keeps_run zephyr s more).follows.shutdown (keeps_run zephyr s more).follows.hupOut
  · have hreset' := (keeps_run zephyr s more).follows.reset hreset
    obtain ⟨hhungUp, hended⟩ := isOver_iff.mp ((hsound more).finished hreset')
    obtain ⟨hin, hout, hpending⟩ := isHungUp_iff.mp hhungUp
    exact ⟨hreset', hin, hout, hpending, hended⟩

end Socket

end DbusBroker
