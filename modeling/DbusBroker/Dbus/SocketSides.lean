import DbusBroker.Dbus.SocketLife
import DbusBroker.Dbus.SocketStream

/-!
# The sides of a socket

What happens to the incoming side of a socket does not depend on its outgoing side, and the other way
round: each operation is the one of that side alone, but for the incoming side that ends the outgoing one when the
connection is reset or closed.
-/

namespace DbusBroker

open Machine

namespace Socket

/-- The flag is not a part of the input. -/
@[simp] theorem mightReset_input (s : Socket) : s.mightReset.input = s.input := by rw [mightReset_eq]

/-- The flag is not a part of the output. -/
@[simp] theorem mightReset_output (s : Socket) : s.mightReset.output = s.output := by rw [mightReset_eq]

/-- Hanging up the output leaves the input. -/
@[simp] theorem hangupOutput_input (s : Socket) : s.hangupOutput.input = s.input := by
  rw [hangupOutput]
  split_ifs
  · rfl
  · exact mightReset_input _

/-- Hanging up the output is `socket_hangup_output` of the outgoing side. -/
@[simp] theorem hangupOutput_output (s : Socket) : s.hangupOutput.output = s.output.hangup := by
  rw [hangupOutput]
  split_ifs with hout
  · rw [SocketOut.hangup, if_pos hout]
  · exact mightReset_output _

/-- Hanging up the input sets its flag. -/
@[simp] theorem hangupInput_input (s : Socket) : s.hangupInput.input = { s.input with hupIn := true } := by
  rw [hangupInput]
  split_ifs with hin
  · rw [← hin]
  · exact mightReset_input _

/-- Shutting down leaves the input. -/
@[simp] theorem shutdown_input (s : Socket) : s.shutdown.input = s.input := by
  rw [shutdown]
  by_cases hshutdown : s.output.shutdown = true
  · rw [if_pos hshutdown]
  rw [if_neg hshutdown]
  by_cases hempty : s.output.queue.isEmpty = true
  · exact (if_pos hempty) ▸ hangupOutput_input _
  · exact (if_neg hempty) ▸ rfl

/-- Shutting down is `socket_shutdown` of the outgoing side. -/
@[simp] theorem shutdown_output (s : Socket) : s.shutdown.output = socketShutdown s.output := by
  rw [shutdown, socketShutdown]
  by_cases hshutdown : s.output.shutdown = true
  · rw [if_pos hshutdown, if_pos hshutdown]
  rw [if_neg hshutdown, if_neg hshutdown]
  by_cases hempty : s.output.queue.isEmpty = true
  · exact (if_pos hempty) ▸ (if_pos hempty) ▸ hangupOutput_output _
  · exact (if_neg hempty) ▸ (if_neg hempty) ▸ rfl

/-- A violation closes the incoming side. -/
@[simp] theorem violate_input (s : Socket) (v : Violation) : (s.violate v).input = s.input.close v := by
  rw [violate, close, mightReset_input, discardInput, shutdown_input, hangupInput_input]
  rfl

/-- A call that found nothing leaves the incoming side. -/
theorem noData_input (s : Socket) : (s.noData.1.input, s.noData.2) = (s.input, s.input.noData) :=
  Prod.ext (mightReset_input s) (congrArg SocketIn.noData (mightReset_input s))

/-- Lines are taken from the incoming side. -/
theorem dequeueLine_input (s : Socket) : (s.dequeueLine.1.input, s.dequeueLine.2) = socketDequeueLine s.input := by
  rw [dequeueLine, socketDequeueLine]
  generalize iqueuePopLine s.input.queue = r
  obtain ⟨q, pop⟩ := r
  cases pop with
  | pending => exact noData_input _
  | violation => exact Prod.ext (violate_input _ _) rfl
  | data bytes fds => rfl

/-- The end of `socket_dequeue` concerns the incoming side. -/
theorem dequeueBody_input (s : Socket) : (s.dequeueBody.1.input, s.dequeueBody.2) = socketDequeueBody s.input := by
  rw [dequeueBody, socketDequeueBody]
  dsimp only [setQueue]
  generalize iqueuePopData (s.input.queue.check s.input.message.isSome) true = r
  obtain ⟨q, pop⟩ := r
  cases pop with
  | pending => exact noData_input _
  | violation => exact Prod.ext (violate_input _ _) rfl
  | data bytes fds => rfl

/-- Messages are taken from the incoming side. -/
theorem dequeue_input (s : Socket) (admitted : Bool) :
    ((s.dequeue admitted admitted).1.input, (s.dequeue admitted admitted).2) = socketDequeue s.input admitted := by
  rw [dequeue, socketDequeue]
  generalize (if s.input.queue.target.isNone then iqueueSetTarget s.input.queue messageHeaderSize admitted
    else (s.input.queue, true)) = r
  obtain ⟨q, ok⟩ := r
  cases ok with
  | false => rfl
  | true =>
    have hok : ¬(!true) = true := by simp
    dsimp only
    rw [if_neg hok, if_neg hok]
    by_cases hmessage : s.input.message.isSome = true
    · rw [if_pos (show (s.setQueue q).input.message.isSome = true from hmessage), if_pos hmessage]
      exact dequeueBody_input _
    rw [if_neg (show ¬(s.setQueue q).input.message.isSome = true from hmessage), if_neg hmessage, dequeueHeader]
    dsimp only [setQueue]
    generalize iqueuePopData q false = r
    obtain ⟨q, pop⟩ := r
    cases pop with
    | pending => exact noData_input _
    | violation => exact Prod.ext (violate_input _ _) rfl
    | data header fds =>
      dsimp only
      cases messageNewIncoming header with
      | none => exact Prod.ext (violate_input _ _) rfl
      | some nData =>
        dsimp only
        generalize iqueueSetTarget q (nData - messageHeaderSize) admitted = r
        obtain ⟨q, ok⟩ := r
        cases ok with
        | false => rfl
        | true => exact dequeueBody_input _

/-- Receiving concerns the incoming side. -/
theorem recvmsg_input (s : Socket) (cursor : IQueueCursor) (room : ℕ) (recv : ℕ → RecvResult) (admitted : Bool) :
    (s.recvmsg cursor room recv admitted).input = socketRecvmsg s.input cursor room recv admitted := by
  rw [recvmsg, socketRecvmsg]
  cases recv room with
  | again => rfl
  | fatal => rfl
  | reset => exact (hangupOutput_input _).trans (hangupInput_input _)
  | eof => exact hangupInput_input _
  | data bytes fds truncated =>
    dsimp only
    generalize s.input.queue.check (0 < room) = q
    by_cases htruncated : truncated = true
    · rw [if_pos htruncated, if_pos htruncated]
      exact violate_input _ _
    rw [if_neg htruncated, if_neg htruncated]
    obtain ⟨kept, hkept⟩ : ∃ kept, (if (q.fdsAt cursor).isSome then [] else fds) = kept := ⟨_, rfl⟩
    show Socket.input (if (if (q.fdsAt cursor).isSome then [] else fds).isEmpty then
        (s.setQueue q).setQueue (iqueueReceive q cursor bytes)
      else if !admitted then (s.setQueue q).violate .quota
      else (s.setQueue q).setQueue
        (iqueueReceive (q.setFdsAt cursor (some (if (q.fdsAt cursor).isSome then [] else fds))) cursor bytes)) = _
    rw [hkept]
    split_ifs
    · rfl
    · exact violate_input _ _
    · rfl

/-- Reading concerns the incoming side. -/
theorem dispatchRead_input (s : Socket) (recv : ℕ → RecvResult) (admitted : Bool) :
    (s.dispatchRead recv admitted admitted).input = socketDispatchRead s.input recv admitted := by
  rw [dispatchRead, socketDispatchRead]
  split_ifs
  · rfl
  generalize iqueueGetCursor s.input.queue admitted = r
  obtain ⟨q, cursor⟩ := r
  cases cursor with
  | pending => rfl
  | quota => exact violate_input _ _
  | violation => exact violate_input _ _
  | target room => exact recvmsg_input _ _ _ _ _
  | buffer room => exact recvmsg_input _ _ _ _ _

/-- Writing concerns the outgoing side. -/
theorem dispatchWrite_output (zephyr : Bool) (s : Socket) (outq : ℕ) (sendmmsg : List MsgHdr → SendResult) :
    (s.dispatchWrite zephyr outq sendmmsg).output = (socketDispatchWrite zephyr outq sendmmsg s.output).1 := by
  have hcleared : (if s.output.pending.isEmpty then s
      else ({ s with output := { s.output with pending := [] } } : Socket).mightReset).output =
      { s.output with pending := [] } := by
    split_ifs with hempty
    · rw [← List.isEmpty_iff.mp hempty]
    · exact mightReset_output _
  have hpending : ({ s.output with pending := [] } : SocketOut).pending = [] := rfl
  rw [dispatchWrite, socketDispatchWrite]
  generalize (if s.output.pending.isEmpty then s
      else ({ s with output := { s.output with pending := [] } } : Socket).mightReset) = t at hcleared ⊢
  by_cases hbusy : (!s.output.pending.isEmpty && !zephyr && decide (128 < outq)) = true
  · rw [if_pos hbusy, if_pos hbusy]
  rw [if_neg hbusy, if_neg hbusy]
  generalize ({ s.output with pending := [] } : SocketOut) = output at hcleared hpending ⊢
  subst hcleared
  dsimp only
  by_cases hout : t.output.hupOut = true
  · rw [if_pos hout, if_pos hout]
  rw [if_neg hout, if_neg hout]
  by_cases hempty : (socketBatch zephyr socketMmsgMax t.output.queue).isEmpty = true
  · rw [if_pos hempty, if_pos hempty]
  rw [if_neg hempty, if_neg hempty]
  cases sendmmsg (socketBatch zephyr socketMmsgMax t.output.queue) with
  | again => rfl
  | fatal => rfl
  | hangup => exact hangupOutput_output t
  | sent lens =>
    obtain ⟨queue, done, ok, hconsume⟩ : ∃ queue done ok, socketConsume lens t.output.queue = (queue, done, ok) :=
      ⟨_, _, _, rfl⟩
    rw [sendmsg, hpending]
    simp only [hconsume]
    rw [List.nil_append]
    by_cases hqueue : queue.isEmpty = true
    · by_cases hshutdown : t.output.shutdown = true
      · rw [if_pos (by rw [hqueue, hshutdown]; rfl), if_pos hqueue, if_pos hshutdown, hangupOutput_output]
        split_ifs <;> rfl
      · rw [if_neg (by simp [hshutdown]), if_pos hqueue, if_neg hshutdown]
        split_ifs <;> rfl
    · rw [if_neg (by simp [hqueue]), if_neg hqueue]

/-! ## Runs of the incoming side -/

/-- Writing leaves the incoming side. -/
theorem dispatchWrite_input (zephyr : Bool) (s : Socket) (outq : ℕ) (sendmmsg : List MsgHdr → SendResult) :
    (s.dispatchWrite zephyr outq sendmmsg).input = s.input := by
  have hsendmsg (t : Socket) (msgs : List MsgHdr) (sent : SendResult) : (t.sendmsg msgs sent).input = t.input := by
    cases sent with
    | again => rfl
    | fatal => rfl
    | hangup => exact hangupOutput_input t
    | sent lens =>
      rw [sendmsg]
      dsimp only
      split
      · exact hangupOutput_input _
      · rfl
  have hcleared : (if s.output.pending.isEmpty then s
      else ({ s with output := { s.output with pending := [] } } : Socket).mightReset).input = s.input := by
    split
    · rfl
    · exact mightReset_input _
  rw [dispatchWrite]
  generalize (if s.output.pending.isEmpty then s
      else ({ s with output := { s.output with pending := [] } } : Socket).mightReset) = t at hcleared ⊢
  split
  · rfl
  dsimp only
  split
  · exact hcleared
  split
  · exact hcleared
  · rw [hsendmsg, hcleared]

/-- The verdicts of an operation agree. -/
def Op.Agrees : Op → Prop
  | .dequeue admittedHeader admittedBody => admittedHeader = admittedBody
  | .dispatch _ answers => answers.admittedBuffer = answers.admittedFds
  | _ => True

/-- What an operation does to the incoming side. -/
def stepInput (s : SocketIn) : Op → SocketIn
  | .dequeueLine => (socketDequeueLine s).1
  | .dequeue admitted _ => (socketDequeue s admitted).1
  | .dispatch .epollout _ => s
  | .dispatch _ answers => socketDispatchRead s answers.recv answers.admittedBuffer
  | .close => { s with queue := iqueueFlush s.queue, message := none, hupIn := true }
  | _ => s

/-- One operation on the incoming side. -/
theorem step_input (zephyr : Bool) (s : Socket) {op : Op} (hagrees : op.Agrees) :
    (s.step zephyr op).input = stepInput s.input op := by
  cases op with
  | queueLine line admitted => rfl
  | queue message admitted => rfl
  | dequeueLine => exact congrArg Prod.fst s.dequeueLine_input
  | dequeue admittedHeader admittedBody =>
    obtain rfl : admittedHeader = admittedBody := hagrees
    exact congrArg Prod.fst (s.dequeue_input admittedHeader)
  | dispatch event answers =>
    have hagrees : answers.admittedBuffer = answers.admittedFds := hagrees
    cases event with
    | epollin =>
      rw [step, dispatch, ← hagrees]
      exact s.dispatchRead_input _ _
    | epollout => exact s.dispatchWrite_input zephyr _ _
    | epollhup =>
      rw [step, dispatch, ← hagrees, dispatchRead_input, hangupOutput_input]
      rfl
  | shutdown => exact s.shutdown_input
  | close =>
    rw [step, close, mightReset_input, discardInput, shutdown_input, hangupInput_input]
    rfl

/-- A run of a socket is a run of its incoming side. -/
theorem run_input (zephyr : Bool) (s : Socket) {ops : List Op} (hagree : ∀ op ∈ ops, op.Agrees) :
    (run (step zephyr) s ops).input = run stepInput s.input ops := by
  induction ops generalizing s with
  | nil => rfl
  | cons op rest ih =>
    rw [run_cons, run_cons, ih _ fun op hop => hagree op (List.mem_cons_of_mem _ hop),
      step_input zephyr s (hagree op List.mem_cons_self)]

/-! ## Runs of the outgoing side -/

/-- The outgoing side was left as it is, shut down or hung up. -/
def Ends (output output' : SocketOut) : Prop :=
  output' = output ∨ output' = socketShutdown output ∨ output' = output.hangup

/-- Hanging up the input leaves the output. -/
theorem hangupInput_output (s : Socket) : s.hangupInput.output = s.output := by
  rw [hangupInput]
  split
  · rfl
  · exact mightReset_output _

/-- Closing shuts the outgoing side down. -/
theorem close_output (s : Socket) : s.close.output = socketShutdown s.output := by
  rw [close, mightReset_output, discardInput, shutdown_output, hangupInput_output]

/-- A violation shuts the outgoing side down. -/
theorem violate_output (s : Socket) (v : Violation) : (s.violate v).output = socketShutdown s.output := close_output _

/-- A call that found nothing leaves the outgoing side. -/
theorem noData_output (s : Socket) : s.noData.1.output = s.output := mightReset_output s

/-- Taking a line may end the outgoing side. -/
theorem ends_dequeueLine (s : Socket) : Ends s.output s.dequeueLine.1.output := by
  rw [dequeueLine]
  generalize iqueuePopLine s.input.queue = r
  obtain ⟨q, pop⟩ := r
  cases pop with
  | pending => exact .inl (noData_output _)
  | violation => exact .inr (.inl (violate_output _ _))
  | data bytes fds => exact .inl rfl

/-- The end of `socket_dequeue` may end the outgoing side. -/
theorem ends_dequeueBody (s : Socket) : Ends s.output s.dequeueBody.1.output := by
  rw [dequeueBody]
  dsimp only
  generalize iqueuePopData (s.setQueue (s.input.queue.check s.input.message.isSome)).input.queue true = r
  obtain ⟨q, pop⟩ := r
  cases pop with
  | pending => exact .inl (noData_output _)
  | violation => exact .inr (.inl (violate_output _ _))
  | data bytes fds => exact .inl rfl

/-- Taking a message may end the outgoing side. -/
theorem ends_dequeue (s : Socket) (admittedHeader admittedBody : Bool) :
    Ends s.output (s.dequeue admittedHeader admittedBody).1.output := by
  rw [dequeue]
  generalize (if s.input.queue.target.isNone then iqueueSetTarget s.input.queue messageHeaderSize admittedHeader
    else (s.input.queue, true)) = r
  obtain ⟨q, ok⟩ := r
  dsimp only
  split
  · exact .inl rfl
  split
  · exact ends_dequeueBody (s.setQueue q)
  rw [dequeueHeader]
  generalize iqueuePopData (s.setQueue q).input.queue false = r
  obtain ⟨q', pop⟩ := r
  cases pop with
  | pending => exact .inl (noData_output _)
  | violation => exact .inr (.inl (violate_output _ _))
  | data header fds =>
    dsimp only
    cases messageNewIncoming header with
    | none => exact .inr (.inl (violate_output _ _))
    | some nData =>
      dsimp only
      split
      · exact .inl rfl
      · exact ends_dequeueBody { (s.setQueue q) with
          input := { (s.setQueue q).input with
            queue := (iqueueSetTarget q' (nData - messageHeaderSize) admittedBody).1
            message := some (header, nData) } }

/-- Reading may end the outgoing side. -/
theorem ends_dispatchRead (s : Socket) (recv : ℕ → RecvResult) (admittedBuffer admittedFds : Bool) :
    Ends s.output (s.dispatchRead recv admittedBuffer admittedFds).output := by
  have hrecvmsg (t : Socket) (ht : t.output = s.output) (cursor : IQueueCursor) (room : ℕ) :
      Ends s.output (t.recvmsg cursor room recv admittedFds).output := by
    rw [← ht, recvmsg]
    cases recv room with
    | again => exact .inl rfl
    | fatal => exact .inl rfl
    | eof => exact .inl (hangupInput_output _)
    | reset =>
      refine .inr (.inr ?_)
      rw [hangupOutput_output, hangupInput_output]
      rfl
    | data bytes fds truncated =>
      dsimp only
      -- the socket is closed, or only its input queue changes
      split_ifs
      all_goals first
        | exact .inl rfl
        | exact .inr (.inl (violate_output _ _))
  rw [dispatchRead]
  split
  · exact .inl rfl
  generalize iqueueGetCursor s.input.queue admittedBuffer = r
  obtain ⟨q, cursor⟩ := r
  cases cursor with
  | pending => exact .inl rfl
  | quota => exact .inr (.inl (violate_output _ _))
  | violation => exact .inr (.inl (violate_output _ _))
  | target room => exact hrecvmsg (s.setQueue q) rfl _ _
  | buffer room => exact hrecvmsg (s.setQueue q) rfl _ _

end Socket

/-! ## The stream of a whole socket -/

/-- The stream is in order, or the output hung up: then what the kernel got is the start of what was queued. -/
def SocketOut.Streams (s : SocketOut) : Prop :=
  s.Ordered ∨ s.hupOut = true ∧ s.queue = [] ∧ s.wire <+: s.queued

section Streams

variable {s : SocketOut}

/-- In any case the kernel got the start of what was queued. -/
theorem SocketOut.Streams.isPrefix (h : s.Streams) : s.wire <+: s.queued := by
  obtain hordered | ⟨-, -, hprefix⟩ := h
  · exact hordered.isPrefix
  · exact hprefix

/-- Whatever is still queued may be given up. -/
theorem SocketOut.Streams.hangup (h : s.Streams) : s.hangup.Streams := by
  rw [SocketOut.hangup]
  split
  · exact h
  · exact .inr ⟨rfl, rfl, h.isPrefix⟩

/-- A shutdown waits for the queue. -/
theorem SocketOut.Streams.shutdown (h : s.Streams) : (socketShutdown s).Streams := by
  obtain hordered | ⟨hout, hqueue, hprefix⟩ := h
  · exact .inl hordered.shutdown
  · rw [socketShutdown]
    split
    · exact .inr ⟨hout, hqueue, hprefix⟩
    · dsimp only
      rw [SocketOut.hangup, if_pos hout]
      split <;> exact .inr ⟨hout, hqueue, hprefix⟩

/-- An outgoing side that ended. -/
theorem SocketOut.Streams.ends {s' : SocketOut} (h : s.Streams) (hends : Socket.Ends s s') : s'.Streams := by
  obtain rfl | rfl | rfl := hends
  · exact h
  · exact h.shutdown
  · exact h.hangup

/-- A write whose messages are taken as by the contract, if they are taken. -/
theorem SocketOut.Streams.dispatchWrite (h : s.Streams) (zephyr : Bool) (outq : ℕ) {sendmmsg : List MsgHdr → SendResult}
    (hsend : ∀ msgs lens, sendmmsg msgs = .sent lens → LinuxSent msgs lens) :
    (socketDispatchWrite zephyr outq sendmmsg s).1.Streams := by
  obtain hordered | ⟨hout, hqueue, hprefix⟩ := h
  · have hcleared : SocketOut.Ordered { s with pending := [] } :=
      ⟨hordered.stream, hordered.content, hordered.kept, hordered.gone, hordered.assertion⟩
    obtain hs | hs | ⟨-, -, hs⟩ | ⟨lens, -, hsent, hs | ⟨hempty, hs⟩⟩ := socketDispatchWrite_cases zephyr outq sendmmsg s
    · rw [hs]
      exact .inl hordered
    · rw [hs]
      exact .inl hcleared
    · rw [hs]
      exact SocketOut.Streams.hangup (.inl hcleared)
    · rw [hs]
      exact .inl (hordered.written (hsend _ lens hsent))
    · rw [hs]
      exact .inl ((hordered.written (hsend _ lens hsent)).hangup hempty)
  · rw [socketDispatchWrite]
    split
    · exact .inr ⟨hout, hqueue, hprefix⟩
    · dsimp only
      rw [if_pos hout]
      exact .inr ⟨hout, hqueue, hprefix⟩

end Streams

namespace Socket

/-- The kernel takes messages as by the contract of `sendmmsg`, if it takes them. -/
def Op.KeepsContract : Op → Prop
  | .dispatch .epollout answers => ∀ msgs lens, answers.sendmmsg msgs = .sent lens → LinuxSent msgs lens
  | _ => True

/-- One operation keeps the stream. -/
theorem streams_step (zephyr : Bool) {s : Socket} (h : s.output.Streams) {op : Op} (hkernel : op.KeepsContract) :
    (s.step zephyr op).output.Streams := by
  cases op with
  | queueLine line admitted =>
    obtain hordered | hout := h
    · exact .inl (hordered.queueLine line admitted)
    · rw [step, (queue_closed (.inr hout.1)).1]
      exact .inr hout
  | queue message admitted =>
    obtain hordered | hout := h
    · exact .inl (hordered.queueMessage message admitted)
    · rw [step, (queue_closed (.inr hout.1)).2]
      exact .inr hout
  | dequeueLine => exact h.ends s.ends_dequeueLine
  | dequeue admittedHeader admittedBody => exact h.ends (s.ends_dequeue admittedHeader admittedBody)
  | dispatch event answers =>
    cases event with
    | epollin => exact h.ends (s.ends_dispatchRead _ _ _)
    | epollout =>
      rw [step, dispatch, dispatchWrite_output]
      exact h.dispatchWrite zephyr _ hkernel
    | epollhup =>
      have hhung : s.hangupOutput.output.Streams := by
        rw [hangupOutput_output]
        exact h.hangup
      exact hhung.ends (s.hangupOutput.ends_dispatchRead _ _ _)
  | shutdown =>
    rw [step, shutdown_output]
    exact h.shutdown
  | close =>
    rw [step, close_output]
    exact h.shutdown

/-- In every run of a socket the kernel gets the start of what was queued, whichever side ends first and however. -/
theorem run_output (zephyr : Bool) {ops : List Op} (hkernel : ∀ op ∈ ops, op.KeepsContract) :
    (run (step zephyr) .init ops).output.Streams := by
  have hrun (s : Socket) (h : s.output.Streams) : (run (step zephyr) s ops).output.Streams := by
    induction ops generalizing s with
    | nil => exact h
    | cons op rest ih =>
      exact ih (fun op hop => hkernel op (List.mem_cons_of_mem _ hop)) _
        (streams_step zephyr h (hkernel op List.mem_cons_self))
  exact hrun .init (.inl ordered_init)

end Socket

end DbusBroker
