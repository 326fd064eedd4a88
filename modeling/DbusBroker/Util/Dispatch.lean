import DbusBroker.Lib.Run
import Mathlib.Data.List.Nodup
import Mathlib.Data.List.Perm.Basic
import Mathlib.Logic.Function.Basic

/-!
# The dispatcher

The files, masks and lists of `util/dispatch.c`. A round over the ready files is a sequence of
steps: it starts, each callback performs any operations, and each callback returns. The context,
the callback and the descriptor of a file are set and cleared together, so that one flag says
whether the file is registered. A list with an entry twice is one whose links are broken.
-/

namespace DbusBroker

/-- A file of the dispatcher. -/
abbrev FileId := ℕ

/-- `DispatchFile`. -/
structure DispatchFile where
  registered : Bool
  userMask : UInt32
  kernelMask : UInt32
  events : UInt32
  deriving DecidableEq, Repr

/-- `DISPATCH_FILE_NULL`. -/
def DispatchFile.null : DispatchFile := ⟨false, 0, 0, 0⟩

/-- `dispatch_file_events`. -/
def dispatchFileEvents (file : DispatchFile) : UInt32 := file.events &&& file.userMask

/-- `DispatchContext`, with the list of the round that is going on and the file whose callback runs. -/
structure DispatchContext where
  file : FileId → DispatchFile
  files : List FileId
  ready : List FileId
  todo : List FileId
  running : Option FileId

/-- `dispatch_context_init`. -/
def DispatchContext.init : DispatchContext := ⟨fun _ => .null, [], [], [], none⟩

variable (ctx : DispatchContext) (f : FileId)

/-- `c_list_is_linked` of a file. -/
def DispatchContext.Linked : Prop := f ∈ ctx.ready ++ ctx.todo
  deriving Decidable

/-- `c_list_unlink` of a file. -/
def DispatchContext.unlink : DispatchContext :=
  { ctx with ready := ctx.ready.erase f, todo := ctx.todo.erase f }

/-- `c_list_link_tail` of a file onto the ready list. -/
def DispatchContext.link : DispatchContext := { ctx with ready := ctx.ready ++ [f] }

/-- Write to a file. -/
def DispatchContext.set (file : DispatchFile) : DispatchContext :=
  { ctx with file := Function.update ctx.file f file }

/-- `dispatch_file_init`. -/
def dispatchFileInit (mask events : UInt32) : DispatchContext :=
  { ctx.set f ⟨true, events, mask, events⟩ with files := ctx.files ++ [f] }

/-- The removal from the poll array: the last element moves into the gap. -/
def pollArrayRemove (files : List FileId) : List FileId :=
  match files.getLast? with
  | none => files
  | some last => (files.set (files.idxOf f) last).dropLast

/-- `dispatch_file_deinit`. -/
def dispatchFileDeinit : DispatchContext :=
  if !(ctx.file f).registered then ctx
  else
    let ctx := if f ∈ ctx.files then { ctx.unlink f with files := pollArrayRemove f ctx.files } else ctx
    ctx.set f { ctx.file f with registered := false }

/-- `dispatch_file_select`. -/
def dispatchFileSelect (mask : UInt32) : DispatchContext :=
  let file := { ctx.file f with userMask := (ctx.file f).userMask ||| mask }
  if dispatchFileEvents file ≠ 0 ∧ ¬ctx.Linked f then (ctx.set f file).link f else ctx.set f file

/-- `dispatch_file_deselect`. -/
def dispatchFileDeselect (mask : UInt32) : DispatchContext :=
  let file := { ctx.file f with userMask := (ctx.file f).userMask &&& ~~~mask }
  if dispatchFileEvents file = 0 then (ctx.set f file).unlink f else ctx.set f file

/-- `dispatch_file_clear`. -/
def dispatchFileClear (mask : UInt32) : DispatchContext :=
  let file := { ctx.file f with events := (ctx.file f).events &&& ~~~mask }
  if dispatchFileEvents file = 0 then (ctx.set f file).unlink f else ctx.set f file

/-- What the kernel reports: nothing since it was interrupted, the events of `poll` for every file, or
the files and events of `epoll_wait`. -/
inductive KernelReport where
  | interrupted
  | poll (revents : FileId → UInt32)
  | epoll (events : List (FileId × UInt32))

/-- One file of `dispatch_context_poll` in the build for Zephyr, where the events are replaced. -/
def dispatchPollFile (revents : FileId → UInt32) (ctx : DispatchContext) (f : FileId) : DispatchContext :=
  if !(ctx.file f).registered then ctx
  else if revents f ≠ 0 then
    let events := revents f &&& (ctx.file f).kernelMask &&& (ctx.file f).userMask
    let polled := ctx.set f { ctx.file f with events := events }
    if events ≠ 0 ∧ ¬ctx.Linked f then polled.link f else polled
  else (ctx.set f { ctx.file f with events := 0 }).unlink f

/-- One report of `dispatch_context_poll` in the build for Linux, where the events are merged. -/
def dispatchEpollFile (report : FileId × UInt32) (ctx : DispatchContext) : DispatchContext :=
  let file := { ctx.file report.1 with
    events := (ctx.file report.1).events ||| (report.2 &&& (ctx.file report.1).kernelMask) }
  if dispatchFileEvents file ≠ 0 ∧ ¬ctx.Linked report.1 then (ctx.set report.1 file).link report.1
  else ctx.set report.1 file

/-- `dispatch_context_poll`. -/
def dispatchContextPoll (ctx : DispatchContext) : KernelReport → DispatchContext
  | .interrupted => ctx
  | .poll revents => ctx.files.foldl (dispatchPollFile revents) ctx
  | .epoll events => events.foldr dispatchEpollFile ctx

/-- The loop of `dispatch_context_dispatch` up to the next callback; a file that is not registered is skipped. -/
def dispatchNext (ctx : DispatchContext) : List FileId → DispatchContext
  | [] => { ctx with todo := [], running := none }
  | f :: rest =>
    if (ctx.file f).registered then { ctx with todo := rest, running := some f } else dispatchNext ctx rest

/-- `dispatch_context_dispatch` behind its poll, up to the first callback. -/
def dispatchStart (ctx : DispatchContext) : DispatchContext := dispatchNext { ctx with ready := [] } ctx.ready

/-- The callback returns to `dispatch_context_dispatch`, which goes on to the next one unless it failed. -/
def dispatchReturn (ctx : DispatchContext) (failed : Bool) : DispatchContext :=
  match ctx.running with
  | none => ctx
  | some f =>
    if failed then { ctx with ready := ctx.ready ++ ctx.todo, todo := [], running := none }
    else
      let ctx := if dispatchFileEvents (ctx.file f) ≠ 0 then ctx.link f else ctx
      dispatchNext ctx ctx.todo

/-- The operations. A call of `dispatch_context_dispatch` is a poll, a start, and what its callbacks
do with their returns in between. -/
inductive DispatchOp where
  | init (f : FileId) (mask events : UInt32)
  | deinit (f : FileId)
  | select (f : FileId) (mask : UInt32)
  | deselect (f : FileId) (mask : UInt32)
  | clear (f : FileId) (mask : UInt32)
  | poll (report : KernelReport)
  | start
  | returns (failed : Bool)

/-- One operation. -/
def DispatchContext.step (ctx : DispatchContext) : DispatchOp → DispatchContext
  | .init f mask events => dispatchFileInit ctx f mask events
  | .deinit f => dispatchFileDeinit ctx f
  | .select f mask => dispatchFileSelect ctx f mask
  | .deselect f mask => dispatchFileDeselect ctx f mask
  | .clear f mask => dispatchFileClear ctx f mask
  | .poll report => dispatchContextPoll ctx report
  | .start => dispatchStart ctx
  | .returns failed => dispatchReturn ctx failed

/-- The operation may be called: a file is initialised while it is not registered and selected while it
is, the kernel reports registered files, and a round starts when none is going on. -/
def DispatchOp.Proper : DispatchOp → Prop
  | .init f _ _ => (ctx.file f).registered = false
  | .select f _ => (ctx.file f).registered = true
  | .poll (.epoll events) => ∀ report ∈ events, (ctx.file report.1).registered = true
  | .start => ctx.running = none
  | .returns _ => ctx.running ≠ none
  | _ => True

/-- Each file is linked at most once, and exactly when it is registered and has a selected event. The
file whose callback runs is excepted. -/
structure DispatchContext.Exact : Prop where
  nodup : (ctx.ready ++ ctx.todo).Nodup
  linked : ∀ f, ctx.running ≠ some f →
    (ctx.Linked f ↔ (ctx.file f).registered = true ∧ dispatchFileEvents (ctx.file f) ≠ 0)

/-- The condition of an operation. A file is initialised without events unless its own callback does it.
What `poll` reports for a linked file has a selected event in it, if there is anything. A callback
that returns has not linked its file again, and has not deinitialised it with a selected event
left; one that fails has the file linked if it still has one. -/
def DispatchOp.Meets : DispatchOp → Prop
  | .init f _ events => ctx.running ≠ some f → events = 0
  | .poll (.poll revents) => ∀ f, ctx.running ≠ some f → ctx.Linked f → revents f ≠ 0 →
      revents f &&& (ctx.file f).kernelMask &&& (ctx.file f).userMask ≠ 0
  | .returns failed => ∀ f, ctx.running = some f →
      if failed then ctx.Linked f ↔ (ctx.file f).registered = true ∧ dispatchFileEvents (ctx.file f) ≠ 0
      else ¬ctx.Linked f ∧ (dispatchFileEvents (ctx.file f) ≠ 0 → (ctx.file f).registered = true)
  | _ => True

/-- What the lists and the poll array agree on beside the selected events. -/
structure DispatchContext.Sound : Prop where
  files : ctx.files.Nodup
  registered : ∀ f, f ∈ ctx.files ↔ (ctx.file f).registered = true
  linked : ∀ f, ctx.Linked f → (ctx.file f).registered = true
  idle : ctx.running = none → ctx.todo = []
  running : ∀ f, ctx.running = some f → f ∉ ctx.todo

variable {ctx ctx' : DispatchContext} {f : FileId}

@[simp] theorem set_file (file : DispatchFile) : (ctx.set f file).file f = file := Function.update_self ..

@[simp] theorem set_file_of_ne {g : FileId} (h : g ≠ f) (file : DispatchFile) : (ctx.set f file).file g = ctx.file g :=
  Function.update_of_ne h ..

@[simp] theorem linked_set (g : FileId) (file : DispatchFile) : (ctx.set f file).Linked g ↔ ctx.Linked g := Iff.rfl

/-- A file that was linked is on the list beside the others. -/
theorem linked_link (g : FileId) : (ctx.link f).Linked g ↔ g = f ∨ ctx.Linked g := by
  simp only [DispatchContext.Linked, DispatchContext.link, List.mem_append, List.mem_singleton]
  tauto

/-- A file that was unlinked is on no list, and the others are where they were. -/
theorem linked_unlink (ctx : DispatchContext) (h : (ctx.ready ++ ctx.todo).Nodup) (g : FileId) :
    (ctx.unlink f).Linked g ↔ g ≠ f ∧ ctx.Linked g := by
  obtain ⟨hready, htodo, -⟩ := List.nodup_append.mp h
  simp only [DispatchContext.Linked, DispatchContext.unlink, List.mem_append, hready.mem_erase_iff,
    htodo.mem_erase_iff]
  tauto

/-- A step that writes to one file and moves no other one. -/
structure Touches (ctx ctx' : DispatchContext) (f : FileId) : Prop where
  running : ctx'.running = ctx.running
  todo : ∀ g ∈ ctx'.todo, g ∈ ctx.todo
  nodup : (ctx'.ready ++ ctx'.todo).Nodup
  file : ∀ g, g ≠ f → ctx'.file g = ctx.file g
  linked : ∀ g, g ≠ f → (ctx'.Linked g ↔ ctx.Linked g)

/-- A write touches the file. -/
theorem touches_set (h : (ctx.ready ++ ctx.todo).Nodup) (file : DispatchFile) : Touches ctx (ctx.set f file) f :=
  ⟨rfl, fun _ hg => hg, h, fun _ hg => set_file_of_ne hg file, fun _ _ => Iff.rfl⟩

/-- Linking a file that is not linked puts it on the list once. -/
theorem nodup_link (h : (ctx.ready ++ ctx.todo).Nodup) (hfree : ¬ctx.Linked f) :
    ((ctx.link f).ready ++ (ctx.link f).todo).Nodup := by
  have hperm : (ctx.ready ++ [f] ++ ctx.todo).Perm (f :: (ctx.ready ++ ctx.todo)) := by
    rw [List.append_assoc]
    exact List.perm_middle
  exact hperm.nodup_iff.mpr (List.nodup_cons.mpr ⟨hfree, h⟩)

/-- A write that links the file touches it. -/
theorem touches_link (h : (ctx.ready ++ ctx.todo).Nodup) (hfree : ¬ctx.Linked f) (file : DispatchFile) :
    Touches ctx ((ctx.set f file).link f) f := by
  refine ⟨rfl, fun _ hg => hg, nodup_link h hfree, fun _ hg => set_file_of_ne hg file, fun g hg => ?_⟩
  rw [linked_link]
  exact or_iff_right hg

/-- A write that unlinks the file touches it. -/
theorem touches_unlink (h : (ctx.ready ++ ctx.todo).Nodup) (file : DispatchFile) :
    Touches ctx ((ctx.set f file).unlink f) f := by
  refine ⟨rfl, fun _ hg => List.mem_of_mem_erase hg, ?_, fun _ hg => set_file_of_ne hg file, fun g hg => ?_⟩
  · exact h.sublist (List.erase_sublist.append List.erase_sublist)
  · exact (linked_unlink (ctx.set f file) h g).trans (and_iff_right hg)

/-- After a step that touches one file the lists are exact as soon as they are right about that one. -/
theorem Touches.exact_iff (ht : Touches ctx ctx' f) (h : ctx.Exact) :
    ctx'.Exact ↔ (ctx.running ≠ some f →
      (ctx'.Linked f ↔ (ctx'.file f).registered = true ∧ dispatchFileEvents (ctx'.file f) ≠ 0)) := by
  refine ⟨fun h' hrunning => h'.linked f (ht.running ▸ hrunning), fun hf => ⟨ht.nodup, fun g hrunning => ?_⟩⟩
  rw [ht.running] at hrunning
  by_cases hg : g = f
  · exact hg ▸ hf (hg ▸ hrunning)
  · rw [ht.linked g hg, ht.file g hg]
    exact h.linked g hrunning

/-- A step that touches one file keeps the rest sound. -/
theorem Touches.sound (ht : Touches ctx ctx' f) (h : ctx.Sound) (hfiles : ctx'.files.Nodup)
    (hregistered : ∀ g, g ∈ ctx'.files ↔ (ctx'.file g).registered = true)
    (hlinked : ctx'.Linked f → (ctx'.file f).registered = true) : ctx'.Sound := by
  refine ⟨hfiles, hregistered, fun g hg => ?_, fun hnone => ?_, fun g hg hmem => ?_⟩
  · by_cases hgf : g = f
    · exact hgf ▸ hlinked (hgf ▸ hg)
    · rw [ht.file g hgf]
      exact h.linked g ((ht.linked g hgf).mp hg)
  · have hempty := h.idle (ht.running ▸ hnone)
    exact List.eq_nil_iff_forall_not_mem.mpr fun g hg => by simpa [hempty] using ht.todo g hg
  · exact h.running g (ht.running ▸ hg) (ht.todo g hmem)

/-- A step that touches one file and leaves its registration keeps the rest sound. -/
theorem Touches.sound_of_kept (ht : Touches ctx ctx' f) (h : ctx.Sound) (hfiles : ctx'.files = ctx.files)
    (hkept : (ctx'.file f).registered = (ctx.file f).registered)
    (hlinked : ctx'.Linked f → (ctx.file f).registered = true) : ctx'.Sound := by
  refine ht.sound h (hfiles ▸ h.files) (fun g => ?_) (fun hl => hkept ▸ hlinked hl)
  rw [hfiles, h.registered g]
  by_cases hg : g = f
  · rw [hg, hkept]
  · rw [ht.file g hg]

/-- The poll array without a file is the old one without it, in another order. -/
theorem pollArrayRemove_perm (files : List FileId) (hf : f ∈ files) : (pollArrayRemove f files).Perm (files.erase f) := by
  obtain ⟨pre, last, rfl⟩ : ∃ pre last, files = pre ++ [last] := by
    rcases List.eq_nil_or_concat files with rfl | ⟨pre, last, rfl⟩
    · exact absurd hf List.not_mem_nil
    · exact ⟨pre, last, List.concat_eq_append⟩
  have hremove : pollArrayRemove f (pre ++ [last]) =
      ((pre ++ [last]).set ((pre ++ [last]).idxOf f) last).dropLast := by
    rw [pollArrayRemove, List.getLast?_concat]
  rw [hremove]
  by_cases hpre : f ∈ pre
  · have hlt : pre.idxOf f < pre.length := List.idxOf_lt_length_iff.mpr hpre
    have hset : (pre ++ [last]).set ((pre ++ [last]).idxOf f) last = pre.set (pre.idxOf f) last ++ [last] := by
      rw [List.idxOf_append_of_mem hpre, List.set_append_left _ _ hlt]
    rw [hset, List.dropLast_concat, List.erase_append_left _ hpre,
      List.erase_eq_eraseIdx_of_idxOf rfl]
    exact (List.set_perm_cons_eraseIdx hlt last).trans (List.perm_append_singleton last _).symm
  · have hlast : f = last := by simpa [hpre] using hf
    subst hlast
    have hset : (pre ++ [f]).set ((pre ++ [f]).idxOf f) f = pre ++ [f] := by
      rw [List.idxOf_append_of_notMem hpre]
      simp
    rw [hset, List.dropLast_concat, List.erase_append_right _ hpre]
    simp

/-- An initialised file is linked as it should be when it has no events. -/
theorem init_exact_iff (hs : ctx.Sound) (h : ctx.Exact) (hf : (ctx.file f).registered = false) (mask events : UInt32) :
    (dispatchFileInit ctx f mask events).Sound ∧
      ((dispatchFileInit ctx f mask events).Exact ↔ (ctx.running ≠ some f → events = 0)) := by
  have hfree : ¬ctx.Linked f := fun hl => by simp [hs.linked f hl] at hf
  have hnew : f ∉ ctx.files := fun hmem => by simp [(hs.registered f).mp hmem] at hf
  have ht : Touches ctx (dispatchFileInit ctx f mask events) f := by
    obtain ⟨hrunning, htodo, hnodup, hfile, hlinked⟩ := touches_set h.nodup (f := f) ⟨true, events, mask, events⟩
    exact ⟨hrunning, htodo, hnodup, hfile, hlinked⟩
  have hself : (dispatchFileInit ctx f mask events).file f = ⟨true, events, mask, events⟩ := set_file _
  refine ⟨ht.sound hs ?_ (fun g => ?_) (fun _ => by rw [hself]), ?_⟩
  · exact List.nodup_append.mpr ⟨hs.files, List.nodup_singleton f, fun a ha b hb hab =>
      hnew (List.mem_singleton.mp hb ▸ hab ▸ ha)⟩
  · by_cases hg : g = f
    · subst hg
      rw [hself]
      simp [dispatchFileInit]
    · rw [ht.file g hg, ← hs.registered g]
      simp [dispatchFileInit, hg]
  · rw [ht.exact_iff h, hself]
    have hfree' : ¬(dispatchFileInit ctx f mask events).Linked f := hfree
    simp [hfree', dispatchFileEvents]

/-- A deinitialised file is on no list. -/
theorem deinit_exact (hs : ctx.Sound) (h : ctx.Exact) (f : FileId) :
    (dispatchFileDeinit ctx f).Sound ∧ (dispatchFileDeinit ctx f).Exact := by
  cases hf : (ctx.file f).registered with
  | false =>
    have hsame : dispatchFileDeinit ctx f = ctx := by simp [dispatchFileDeinit, hf]
    rw [hsame]
    exact ⟨hs, h⟩
  | true =>
    have hmem : f ∈ ctx.files := (hs.registered f).mpr hf
    have hperm := pollArrayRemove_perm ctx.files hmem
    obtain ⟨hrunning, htodo, hnodup, hfile, hlinked⟩ :=
      touches_unlink h.nodup (f := f) { ctx.file f with registered := false }
    have hnow : dispatchFileDeinit ctx f =
        { (ctx.set f { ctx.file f with registered := false }).unlink f with files := pollArrayRemove f ctx.files } := by
      simp [dispatchFileDeinit, hf, hmem, DispatchContext.set, DispatchContext.unlink]
    have ht : Touches ctx (dispatchFileDeinit ctx f) f := by
      rw [hnow]
      exact ⟨hrunning, htodo, hnodup, hfile, hlinked⟩
    have hself : (dispatchFileDeinit ctx f).file f = { ctx.file f with registered := false } := by
      rw [hnow]
      exact set_file _
    have hfree : ¬(dispatchFileDeinit ctx f).Linked f := by
      rw [hnow]
      exact fun hl => ((linked_unlink (ctx.set f _) h.nodup f).mp hl).1 rfl
    have hfiles : (dispatchFileDeinit ctx f).files = pollArrayRemove f ctx.files := by rw [hnow]
    refine ⟨ht.sound hs ?_ (fun g => ?_) (fun hl => absurd hl hfree), ?_⟩
    · rw [hfiles]
      exact hperm.nodup_iff.mpr (hs.files.erase f)
    · rw [hfiles, hperm.mem_iff, hs.files.mem_erase_iff, hs.registered g]
      by_cases hg : g = f
      · simp [hg, hself]
      · rw [ht.file g hg]
        exact and_iff_right hg
    · rw [ht.exact_iff h, hself]
      simp [hfree]

/-- Bits that are selected by either mask. -/
theorem and_or_eq_zero_iff (a b c : UInt32) : a &&& (b ||| c) = 0 ↔ a &&& b = 0 ∧ a &&& c = 0 := by
  rw [← UInt32.or_eq_zero_iff]
  simp [← UInt32.toBitVec_inj, BitVec.and_or_distrib_left]

/-- Selecting more leaves no fewer selected events. -/
theorem dispatchFileEvents_select {file : DispatchFile} (h : dispatchFileEvents file ≠ 0) (mask : UInt32) :
    dispatchFileEvents { file with userMask := file.userMask ||| mask } ≠ 0 :=
  fun hzero => h ((and_or_eq_zero_iff _ _ _).mp hzero).1

/-- More events leave no fewer selected ones. -/
theorem dispatchFileEvents_merge {file : DispatchFile} (h : dispatchFileEvents file ≠ 0) (events : UInt32) :
    dispatchFileEvents { file with events := file.events ||| events } ≠ 0 := by
  intro hzero
  rw [dispatchFileEvents, UInt32.and_comm, and_or_eq_zero_iff, UInt32.and_comm] at hzero
  exact h hzero.1

/-- Deselecting leaves no more selected events. -/
theorem dispatchFileEvents_deselect {file : DispatchFile} {mask : UInt32}
    (h : dispatchFileEvents { file with userMask := file.userMask &&& mask } ≠ 0) : dispatchFileEvents file ≠ 0 := by
  intro hzero
  apply h
  show file.events &&& (file.userMask &&& mask) = 0
  rw [← UInt32.and_assoc, show file.events &&& file.userMask = 0 from hzero, UInt32.zero_and]

/-- Clearing leaves no more selected events. -/
theorem dispatchFileEvents_clear {file : DispatchFile} {mask : UInt32}
    (h : dispatchFileEvents { file with events := file.events &&& mask } ≠ 0) : dispatchFileEvents file ≠ 0 := by
  intro hzero
  apply h
  show file.events &&& mask &&& file.userMask = 0
  rw [UInt32.and_assoc, UInt32.and_comm mask, ← UInt32.and_assoc,
    show file.events &&& file.userMask = 0 from hzero, UInt32.zero_and]

/-- What a write does that links the file if it has a selected event. -/
theorem raise_spec (h : (ctx.ready ++ ctx.todo).Nodup) {file : DispatchFile}
    (hctx : ctx' = if dispatchFileEvents file ≠ 0 ∧ ¬ctx.Linked f then (ctx.set f file).link f else ctx.set f file) :
    Touches ctx ctx' f ∧ ctx'.file f = file ∧ ctx'.files = ctx.files ∧
      (ctx'.Linked f ↔ ctx.Linked f ∨ dispatchFileEvents file ≠ 0) := by
  subst hctx
  split_ifs with hnow
  · exact ⟨touches_link h hnow.2 file, set_file file, rfl, iff_of_true ((linked_link f).mpr (.inl rfl)) (.inr hnow.1)⟩
  · refine ⟨touches_set h file, set_file file, rfl, (linked_set f file).trans ?_⟩
    tauto

/-- What a write does that unlinks the file unless it has a selected event. -/
theorem lower_spec (h : (ctx.ready ++ ctx.todo).Nodup) {file : DispatchFile}
    (hctx : ctx' = if dispatchFileEvents file = 0 then (ctx.set f file).unlink f else ctx.set f file) :
    Touches ctx ctx' f ∧ ctx'.file f = file ∧ ctx'.files = ctx.files ∧
      (ctx'.Linked f ↔ ctx.Linked f ∧ dispatchFileEvents file ≠ 0) := by
  subst hctx
  split_ifs with hnow
  · refine ⟨touches_unlink h file, set_file file, rfl, iff_of_false (fun hl => ?_) (fun hl => hl.2 hnow)⟩
    exact ((linked_unlink (ctx.set f file) h f).mp hl).1 rfl
  · exact ⟨touches_set h file, set_file file, rfl, (linked_set f file).trans (iff_self_and.mpr fun _ => hnow)⟩

/-- Writing more selected events to a registered file keeps the lists exact. -/
theorem raise_exact (hs : ctx.Sound) (h : ctx.Exact) {file : DispatchFile}
    (hctx : ctx' = if dispatchFileEvents file ≠ 0 ∧ ¬ctx.Linked f then (ctx.set f file).link f else ctx.set f file)
    (hf : (ctx.file f).registered = true) (hkept : file.registered = (ctx.file f).registered)
    (hmore : dispatchFileEvents (ctx.file f) ≠ 0 → dispatchFileEvents file ≠ 0) : ctx'.Sound ∧ ctx'.Exact := by
  obtain ⟨ht, hfile, hfiles, hlinked⟩ := raise_spec h.nodup hctx
  refine ⟨ht.sound_of_kept hs hfiles (by rw [hfile, hkept]) (fun _ => hf), ?_⟩
  rw [ht.exact_iff h, hfile, hlinked]
  intro hrunning
  rw [h.linked f hrunning, hkept]
  tauto

/-- Writing fewer selected events to a file keeps the lists exact. -/
theorem lower_exact (hs : ctx.Sound) (h : ctx.Exact) {file : DispatchFile}
    (hctx : ctx' = if dispatchFileEvents file = 0 then (ctx.set f file).unlink f else ctx.set f file)
    (hkept : file.registered = (ctx.file f).registered)
    (hless : dispatchFileEvents file ≠ 0 → dispatchFileEvents (ctx.file f) ≠ 0) : ctx'.Sound ∧ ctx'.Exact := by
  obtain ⟨ht, hfile, hfiles, hlinked⟩ := lower_spec h.nodup hctx
  refine ⟨ht.sound_of_kept hs hfiles (by rw [hfile, hkept]) (fun hl => hs.linked f (hlinked.mp hl).1), ?_⟩
  rw [ht.exact_iff h, hfile, hlinked]
  intro hrunning
  rw [h.linked f hrunning, hkept]
  tauto

/-- Merged events keep the lists exact, report by report. -/
theorem epoll_exact (hs : ctx.Sound) (h : ctx.Exact) (events : List (FileId × UInt32))
    (hevents : ∀ report ∈ events, (ctx.file report.1).registered = true) :
    ((events.foldr dispatchEpollFile ctx).Sound ∧ (events.foldr dispatchEpollFile ctx).Exact) ∧
      ∀ g, ((events.foldr dispatchEpollFile ctx).file g).registered = (ctx.file g).registered := by
  induction events with
  | nil => exact ⟨⟨hs, h⟩, fun _ => rfl⟩
  | cons report rest ih =>
    obtain ⟨⟨hs', h'⟩, hsame⟩ := ih fun r hr => hevents r (List.mem_cons_of_mem _ hr)
    have hf := (hsame report.1).trans (hevents report List.mem_cons_self)
    refine ⟨raise_exact (f := report.1) hs' h' rfl hf rfl fun hold => dispatchFileEvents_merge hold _, fun g => ?_⟩
    obtain ⟨ht, hfile, -⟩ := raise_spec (f := report.1) h'.nodup
      (rfl : dispatchEpollFile report (rest.foldr dispatchEpollFile ctx) = _)
    rw [List.foldr_cons, ← hsame g]
    by_cases hg : g = report.1
    · rw [hg, hfile]
    · rw [ht.file g hg]

/-- A file after `poll`: its events are the selected ones of the report. -/
def DispatchFile.polled (file : DispatchFile) (revents : UInt32) : DispatchFile :=
  { file with events := revents &&& file.kernelMask &&& file.userMask }

/-- The events that `poll` leaves are selected. -/
theorem dispatchFileEvents_polled (file : DispatchFile) (revents : UInt32) :
    dispatchFileEvents (file.polled revents) = revents &&& file.kernelMask &&& file.userMask := by
  simp [dispatchFileEvents, DispatchFile.polled, UInt32.and_assoc]

/-- What `dispatch_context_poll` does to one registered file. -/
theorem dispatchPollFile_spec (h : (ctx.ready ++ ctx.todo).Nodup) (hf : (ctx.file f).registered = true)
    (revents : FileId → UInt32) :
    Touches ctx (dispatchPollFile revents ctx f) f ∧
      (dispatchPollFile revents ctx f).file f = (ctx.file f).polled (revents f) ∧
      (dispatchPollFile revents ctx f).files = ctx.files ∧
      ((dispatchPollFile revents ctx f).Linked f ↔
        ctx.Linked f ∧ revents f ≠ 0 ∨ dispatchFileEvents ((ctx.file f).polled (revents f)) ≠ 0) := by
  by_cases hreports : revents f = 0
  · have hnone : (ctx.file f).polled (revents f) = { ctx.file f with events := 0 } := by
      simp [DispatchFile.polled, hreports]
    have hzero : dispatchFileEvents { ctx.file f with events := 0 } = 0 := UInt32.zero_and
    have hnow : dispatchPollFile revents ctx f = if dispatchFileEvents { ctx.file f with events := 0 } = 0 then
        (ctx.set f { ctx.file f with events := 0 }).unlink f else ctx.set f { ctx.file f with events := 0 } := by
      rw [if_pos hzero]
      simp [dispatchPollFile, hf, hreports]
    obtain ⟨ht, hfile, hfiles, hlinked⟩ := lower_spec h hnow
    refine ⟨ht, by rw [hfile, hnone], hfiles, ?_⟩
    rw [hlinked, hnone, hzero]
    simp [hreports]
  · have hnow : dispatchPollFile revents ctx f =
        if dispatchFileEvents ((ctx.file f).polled (revents f)) ≠ 0 ∧ ¬ctx.Linked f then
          (ctx.set f ((ctx.file f).polled (revents f))).link f
        else ctx.set f ((ctx.file f).polled (revents f)) := by
      rw [dispatchFileEvents_polled]
      simp [dispatchPollFile, hf, hreports, DispatchFile.polled]
    obtain ⟨ht, hfile, hfiles, hlinked⟩ := raise_spec h hnow
    exact ⟨ht, hfile, hfiles, by rw [hlinked, and_iff_left hreports]⟩

/-- What `dispatch_context_poll` does to all of its files, each apart. -/
theorem foldl_dispatchPollFile (hs : ctx.Sound) (h : (ctx.ready ++ ctx.todo).Nodup) (revents : FileId → UInt32)
    {files : List FileId} (hfiles : files.Nodup) (hregistered : ∀ g ∈ files, (ctx.file g).registered = true) :
    let ctx' := files.foldl (dispatchPollFile revents) ctx
    ctx'.Sound ∧ ctx'.running = ctx.running ∧ (ctx'.ready ++ ctx'.todo).Nodup ∧
      (∀ g ∉ files, ctx'.file g = ctx.file g ∧ (ctx'.Linked g ↔ ctx.Linked g)) ∧
      (∀ g ∈ files, ctx'.file g = (ctx.file g).polled (revents g) ∧
        (ctx'.Linked g ↔ ctx.Linked g ∧ revents g ≠ 0 ∨ dispatchFileEvents ((ctx.file g).polled (revents g)) ≠ 0)) := by
  induction files generalizing ctx with
  | nil => exact ⟨hs, rfl, h, fun _ _ => ⟨rfl, Iff.rfl⟩, fun _ hg => absurd hg List.not_mem_nil⟩
  | cons f rest ih =>
    obtain ⟨hf, hrest⟩ := List.nodup_cons.mp hfiles
    have hreg := hregistered f List.mem_cons_self
    obtain ⟨ht, hfile, hsame, hlinked⟩ := dispatchPollFile_spec h hreg revents
    have hs' := ht.sound_of_kept hs hsame (by rw [hfile, DispatchFile.polled]) (fun _ => hreg)
    obtain ⟨hsound, hrunning, hnodup, hout, hin⟩ := ih hs' ht.nodup hrest fun g hg => by
      rw [ht.file g (fun hgf => hf (hgf ▸ hg))]
      exact hregistered g (List.mem_cons_of_mem _ hg)
    refine ⟨hsound, hrunning.trans ht.running, hnodup, fun g hg => ?_, fun g hg => ?_⟩
    · obtain ⟨hgf, hgr⟩ := not_or.mp (fun hor => hg (List.mem_cons.mpr hor))
      obtain ⟨h₁, h₂⟩ := hout g hgr
      exact ⟨h₁.trans (ht.file g hgf), h₂.trans (ht.linked g hgf)⟩
    · rcases List.mem_cons.mp hg with rfl | hgr
      · obtain ⟨h₁, h₂⟩ := hout g hf
        exact ⟨h₁.trans hfile, h₂.trans hlinked⟩
      · have hgf : g ≠ f := fun hgf => hf (hgf ▸ hgr)
        obtain ⟨h₁, h₂⟩ := hin g hgr
        rw [ht.file g hgf] at h₁ h₂
        exact ⟨h₁, by rw [List.foldl_cons, h₂, ht.linked g hgf]⟩

/-- The lists are exact after `poll` if and only if every linked file without a selected event was
reported to have no event at all. -/
theorem poll_exact_iff (hs : ctx.Sound) (h : ctx.Exact) (revents : FileId → UInt32) :
    (dispatchContextPoll ctx (.poll revents)).Sound ∧
      ((dispatchContextPoll ctx (.poll revents)).Exact ↔ DispatchOp.Meets ctx (.poll (.poll revents))) := by
  obtain ⟨hsound, hrunning, hnodup, hout, hin⟩ :=
    foldl_dispatchPollFile hs h.nodup revents hs.files fun g hg => (hs.registered g).mp hg
  refine ⟨hsound, fun h' f hf hlinked hreports => ?_, fun hmeets => ⟨hnodup, fun f hf => ?_⟩⟩
  · have hmem : f ∈ ctx.files := (hs.registered f).mpr (hs.linked f hlinked)
    obtain ⟨hfile, hnow⟩ := hin f hmem
    have hafter := (h'.linked f (fun he => hf (hrunning ▸ he))).mp (hnow.mpr (.inl ⟨hlinked, hreports⟩))
    have hevents := hafter.2
    rw [show (dispatchContextPoll ctx (.poll revents)).file f = _ from hfile, dispatchFileEvents_polled] at hevents
    exact hevents
  · rw [show (dispatchContextPoll ctx (.poll revents)).running = _ from hrunning] at hf
    by_cases hmem : f ∈ ctx.files
    · obtain ⟨hfile, hnow⟩ := hin f hmem
      refine hnow.trans ?_
      rw [show (dispatchContextPoll ctx (.poll revents)).file f = _ from hfile]
      have hreg : ((ctx.file f).polled (revents f)).registered = true := (hs.registered f).mp hmem
      refine ⟨fun hcase => ⟨hreg, ?_⟩, fun hcase => .inr hcase.2⟩
      rcases hcase with ⟨hlinked, hreports⟩ | hevents
      · rw [dispatchFileEvents_polled]
        exact hmeets f hf hlinked hreports
      · exact hevents
    · obtain ⟨hfile, hnow⟩ := hout f hmem
      refine hnow.trans ?_
      rw [show (dispatchContextPoll ctx (.poll revents)).file f = _ from hfile]
      exact h.linked f hf

/-- The loop goes on with the first file when all of them are registered. -/
theorem dispatchNext_eq (ctx : DispatchContext) (files : List FileId) (h : ∀ g ∈ files, (ctx.file g).registered = true) :
    dispatchNext ctx files = { ctx with todo := files.tail, running := files.head? } := by
  cases files with
  | nil => rfl
  | cons f rest => simp [dispatchNext, h f List.mem_cons_self]

/-- Taking the first file off a list that is right about every file. -/
theorem pop_exact (hfiles : ctx.files.Nodup) (hregistered : ∀ g, g ∈ ctx.files ↔ (ctx.file g).registered = true)
    (hnodup : (ctx.ready ++ ctx.todo).Nodup)
    (h : ∀ g, ctx.Linked g ↔ (ctx.file g).registered = true ∧ dispatchFileEvents (ctx.file g) ≠ 0) :
    (dispatchNext ctx ctx.todo).Sound ∧ (dispatchNext ctx ctx.todo).Exact := by
  have htodo : ∀ g ∈ ctx.todo, (ctx.file g).registered = true := fun g hg =>
    ((h g).mp (List.mem_append_right _ hg)).1
  have hsub : ∀ g, g ∈ ctx.ready ++ ctx.todo.tail → ctx.Linked g := fun g hg =>
    List.Sublist.subset (List.Sublist.append_left (List.tail_sublist _) _) hg
  rw [dispatchNext_eq _ _ htodo]
  refine ⟨⟨hfiles, hregistered, fun g hg => ((h g).mp (hsub g hg)).1, fun hnone => ?_, fun g hg => ?_⟩,
    ⟨hnodup.sublist (List.Sublist.append_left (List.tail_sublist _) _), fun g hg => ?_⟩⟩
  · show ctx.todo.tail = []
    rw [List.head?_eq_none_iff.mp hnone]
    rfl
  · obtain ⟨rest, hrest⟩ := List.head?_eq_some_iff.mp hg
    have htail := (List.nodup_append.mp hnodup).2.1
    rw [hrest, List.nodup_cons] at htail
    show g ∉ ctx.todo.tail
    rw [hrest]
    exact htail.1
  · refine ⟨fun hl => (h g).mp (hsub g hl), fun hcase => ?_⟩
    have hl := (h g).mpr hcase
    show g ∈ ctx.ready ++ ctx.todo.tail
    cases htodo : ctx.todo with
    | nil => simpa [DispatchContext.Linked, htodo] using hl
    | cons k rest =>
      have hk : g ≠ k := fun he => hg (by simp [htodo, he])
      simpa [DispatchContext.Linked, htodo, hk] using hl

/-- A round starts from exact lists. -/
theorem start_exact (hs : ctx.Sound) (h : ctx.Exact) (hidle : ctx.running = none) :
    (dispatchStart ctx).Sound ∧ (dispatchStart ctx).Exact := by
  have hempty := hs.idle hidle
  have hright : ∀ g, ctx.Linked g ↔ (ctx.file g).registered = true ∧ dispatchFileEvents (ctx.file g) ≠ 0 :=
    fun g => h.linked g (by simp [hidle])
  have hready : ∀ g ∈ ctx.ready, (ctx.file g).registered = true := fun g hg =>
    hs.linked g (List.mem_append_left _ hg)
  have hnodup := h.nodup
  rw [hempty, List.append_nil] at hnodup
  have hsame : dispatchStart ctx = dispatchNext { ctx with ready := [], todo := ctx.ready } ctx.ready :=
    (dispatchNext_eq { ctx with ready := [] } _ hready).trans
      (dispatchNext_eq { ctx with ready := [], todo := ctx.ready } _ hready).symm
  rw [hsame]
  refine pop_exact hs.files hs.registered hnodup fun g => ?_
  have hg := hright g
  rw [DispatchContext.Linked, hempty, List.append_nil] at hg
  simpa [DispatchContext.Linked] using hg

/-- The lists are exact after a callback returned if and only if it met its condition. -/
theorem return_exact_iff (hs : ctx.Sound) (h : ctx.Exact) (hrunning : ctx.running ≠ none) (failed : Bool) :
    (DispatchOp.Meets ctx (.returns failed) → (dispatchReturn ctx failed).Sound) ∧
      ((dispatchReturn ctx failed).Exact ↔ DispatchOp.Meets ctx (.returns failed)) := by
  obtain ⟨f, hf⟩ := Option.ne_none_iff_exists'.mp hrunning
  have hmeets : DispatchOp.Meets ctx (.returns failed) ↔
      if failed then ctx.Linked f ↔ (ctx.file f).registered = true ∧ dispatchFileEvents (ctx.file f) ≠ 0
      else ¬ctx.Linked f ∧ (dispatchFileEvents (ctx.file f) ≠ 0 → (ctx.file f).registered = true) := by
    simp [DispatchOp.Meets, hf]
  have hothers : ∀ g, g ≠ f →
      (ctx.Linked g ↔ (ctx.file g).registered = true ∧ dispatchFileEvents (ctx.file g) ≠ 0) := fun g hg =>
    h.linked g (by simpa [hf] using Ne.symm hg)
  have hfree : f ∉ ctx.todo := hs.running f hf
  rw [hmeets]
  cases failed with
  | true =>
    have hnow : dispatchReturn ctx true = { ctx with ready := ctx.ready ++ ctx.todo, todo := [], running := none } := by
      simp [dispatchReturn, hf]
    have hlinked (g : FileId) : (dispatchReturn ctx true).Linked g ↔ ctx.Linked g := by
      rw [hnow]
      simp [DispatchContext.Linked]
    have hfile : (dispatchReturn ctx true).file = ctx.file := by rw [hnow]
    rw [if_pos rfl]
    refine ⟨fun _ => ?_, fun h' => ?_, fun hcase => ⟨?_, fun g _ => ?_⟩⟩
    · rw [hnow]
      exact ⟨hs.files, hs.registered, fun g hg => hs.linked g (by simpa [DispatchContext.Linked] using hg),
        fun _ => rfl, fun g hg => by simp⟩
    · rw [← hlinked f, ← hfile]
      exact h'.linked f (by rw [hnow]; simp)
    · rw [hnow]
      simpa using h.nodup
    · rw [hlinked, hfile]
      by_cases hg : g = f
      · exact hg ▸ hcase
      · exact hothers g hg
  | false =>
    have htodo : ∀ g ∈ ctx.todo, (ctx.file g).registered = true := fun g hg =>
      hs.linked g (List.mem_append_right _ hg)
    have hhead : ctx.todo.head? ≠ some f := fun hhead => hfree (List.mem_of_head? hhead)
    rw [if_neg Bool.false_ne_true]
    by_cases hevents : dispatchFileEvents (ctx.file f) = 0
    · have hnow : dispatchReturn ctx false = dispatchNext ctx ctx.todo := by simp [dispatchReturn, hf, hevents]
      have hpop (hmeets : ¬ctx.Linked f) : (dispatchReturn ctx false).Sound ∧ (dispatchReturn ctx false).Exact := by
        rw [hnow]
        refine pop_exact hs.files hs.registered h.nodup fun g => ?_
        by_cases hg : g = f
        · exact hg ▸ iff_of_false hmeets (fun hcase => hcase.2 hevents)
        · exact hothers g hg
      refine ⟨fun hcase => (hpop hcase.1).1, fun h' => ⟨fun hl => ?_, fun hne => absurd hevents hne⟩,
        fun hcase => (hpop hcase.1).2⟩
      rw [hnow, dispatchNext_eq _ _ htodo] at h'
      have hready : f ∈ ctx.ready := (List.mem_append.mp hl).resolve_right hfree
      exact ((h'.linked f hhead).mp (List.mem_append_left _ hready)).2 hevents
    · have hnow : dispatchReturn ctx false = dispatchNext (ctx.link f) ctx.todo := by
        simp [dispatchReturn, hf, hevents, DispatchContext.link]
      have hpop (hmeets : ¬ctx.Linked f) (hreg : (ctx.file f).registered = true) :
          (dispatchReturn ctx false).Sound ∧ (dispatchReturn ctx false).Exact := by
        rw [hnow]
        refine pop_exact hs.files hs.registered (nodup_link h.nodup hmeets) fun g => ?_
        rw [linked_link]
        by_cases hg : g = f
        · exact iff_of_true (.inl hg) ⟨hg ▸ hreg, hg ▸ hevents⟩
        · exact (or_iff_right hg).trans (hothers g hg)
      refine ⟨fun hcase => (hpop hcase.1 (hcase.2 hevents)).1, fun h' => ⟨fun hl => ?_, fun _ => ?_⟩,
        fun hcase => (hpop hcase.1 (hcase.2 hevents)).2⟩
      · rw [hnow, dispatchNext_eq (ctx.link f) _ htodo] at h'
        have hready : f ∈ ctx.ready := (List.mem_append.mp hl).resolve_right hfree
        have htwice := (List.nodup_append.mp h'.nodup).1
        exact absurd rfl ((List.nodup_append.mp htwice).2.2 f hready f (List.mem_singleton.mpr rfl))
      · rw [hnow, dispatchNext_eq (ctx.link f) _ htodo] at h'
        exact ((h'.linked f hhead).mp (List.mem_append_left _ (List.mem_append_right _ (List.mem_singleton.mpr rfl)))).1

/-- Every operation that may be called keeps the lists sound when it meets its condition, and keeps them
exact if and only if it does. -/
theorem DispatchContext.step_exact_iff (hs : ctx.Sound) (h : ctx.Exact) {op : DispatchOp} (hop : op.Proper ctx) :
    (op.Meets ctx → (ctx.step op).Sound) ∧ ((ctx.step op).Exact ↔ op.Meets ctx) := by
  cases op with
  | init f mask events =>
    obtain ⟨hsound, hexact⟩ := init_exact_iff hs h hop mask events
    exact ⟨fun _ => hsound, hexact⟩
  | deinit f =>
    obtain ⟨hsound, hexact⟩ := deinit_exact hs h f
    exact ⟨fun _ => hsound, iff_of_true hexact trivial⟩
  | select f mask =>
    obtain ⟨hsound, hexact⟩ : (dispatchFileSelect ctx f mask).Sound ∧ (dispatchFileSelect ctx f mask).Exact :=
      raise_exact hs h rfl hop rfl fun hold => dispatchFileEvents_select hold mask
    exact ⟨fun _ => hsound, iff_of_true hexact trivial⟩
  | deselect f mask =>
    obtain ⟨hsound, hexact⟩ : (dispatchFileDeselect ctx f mask).Sound ∧ (dispatchFileDeselect ctx f mask).Exact :=
      lower_exact hs h rfl rfl dispatchFileEvents_deselect
    exact ⟨fun _ => hsound, iff_of_true hexact trivial⟩
  | clear f mask =>
    obtain ⟨hsound, hexact⟩ : (dispatchFileClear ctx f mask).Sound ∧ (dispatchFileClear ctx f mask).Exact :=
      lower_exact hs h rfl rfl dispatchFileEvents_clear
    exact ⟨fun _ => hsound, iff_of_true hexact trivial⟩
  | poll report =>
    cases report with
    | interrupted => exact ⟨fun _ => hs, iff_of_true h trivial⟩
    | poll revents =>
      obtain ⟨hsound, hexact⟩ := poll_exact_iff hs h revents
      exact ⟨fun _ => hsound, hexact⟩
    | epoll events =>
      obtain ⟨⟨hsound, hexact⟩, -⟩ := epoll_exact hs h events hop
      exact ⟨fun _ => hsound, iff_of_true hexact trivial⟩
  | start =>
    obtain ⟨hsound, hexact⟩ := start_exact hs h hop
    exact ⟨fun _ => hsound, iff_of_true hexact trivial⟩
  | returns failed => exact return_exact_iff hs h hop failed

/-- The invariant of a run. -/
structure DispatchContext.Kept (ctx : DispatchContext) : Prop where
  sound : ctx.Sound
  exact : ctx.Exact

/-- An operation that meets its condition keeps the invariant. -/
theorem DispatchContext.Kept.step (h : ctx.Kept) {op : DispatchOp} (hop : op.Proper ctx ∧ op.Meets ctx) :
    (ctx.step op).Kept := by
  obtain ⟨hsound, hexact⟩ := step_exact_iff h.sound h.exact hop.1
  exact ⟨hsound hop.2, hexact.mpr hop.2⟩

/-- A new dispatcher has no files. -/
theorem kept_init : DispatchContext.init.Kept :=
  ⟨⟨List.nodup_nil, by simp [DispatchContext.init, DispatchFile.null], by simp [DispatchContext.init, DispatchContext.Linked],
    fun _ => rfl, fun f hf => by simp [DispatchContext.init] at hf⟩,
   ⟨List.nodup_nil, by simp [DispatchContext.init, DispatchContext.Linked, DispatchFile.null]⟩⟩

/-- The file that the loop goes on with is registered. -/
theorem dispatchNext_registered (files : List FileId) (h : (dispatchNext ctx files).running = some f) :
    ((dispatchNext ctx files).file f).registered = true := by
  induction files with
  | nil => simp [dispatchNext] at h
  | cons g rest ih =>
    unfold dispatchNext at h ⊢
    split_ifs at h ⊢ with hg
    · obtain rfl : g = f := by simpa using h
      exact hg
    · exact ih h

/-- The file whose callback an operation starts. -/
def DispatchContext.calls (ctx : DispatchContext) : DispatchOp → Option FileId
  | .start => (dispatchStart ctx).running
  | .returns failed => if ctx.running.isSome then (dispatchReturn ctx failed).running else none
  | _ => none

/-- A callback is started for registered files only. -/
theorem DispatchContext.registered_of_calls {op : DispatchOp} (h : ctx.calls op = some f) :
    ((ctx.step op).file f).registered = true := by
  cases op with
  | start => exact dispatchNext_registered _ h
  | returns failed =>
    cases hrunning : ctx.running with
    | none => simp [DispatchContext.calls, hrunning] at h
    | some g =>
      cases failed with
      | true => simp [DispatchContext.calls, dispatchReturn, hrunning] at h
      | false =>
        simp only [DispatchContext.calls, hrunning, Option.isSome_some, if_true] at h
        simp only [DispatchContext.step, dispatchReturn, hrunning, Bool.false_eq_true, if_false] at h ⊢
        exact dispatchNext_registered _ h
  | init | deinit | select | deselect | clear | poll => simp [DispatchContext.calls] at h

open Machine

/-- In every run whose operations meet their conditions the lists are exact, and callbacks are started for
registered files only. -/
theorem DispatchContext.run_exact (ops : List DispatchOp)
    (h : Along DispatchContext.step (fun ctx op => op.Proper ctx ∧ op.Meets ctx) .init ops) :
    (run DispatchContext.step .init ops).Exact ∧
      ∀ (op : DispatchOp) (f : FileId), (run DispatchContext.step .init ops).calls op = some f →
        (((run DispatchContext.step .init ops).step op).file f).registered = true := by
  have hkept : (run DispatchContext.step .init ops).Kept :=
    run_invariant (fun _ _ hctx hop => hctx.step hop) kept_init h
  exact ⟨hkept.exact, fun op f hcalls => registered_of_calls hcalls⟩

/-- A round in which one callback handles its event and deinitialises the other file. -/
theorem run_exact_round :
    (run DispatchContext.step .init
      [.init 0 1 0, .init 1 1 0, .select 0 1, .select 1 1, .poll (.poll fun _ => 1), .start, .deinit 1, .clear 0 1,
        .returns false]).Exact := by
  refine (DispatchContext.run_exact _ ?_).1
  refine ⟨⟨rfl, fun _ => rfl⟩, ⟨rfl, fun _ => rfl⟩, ⟨rfl, trivial⟩, ⟨rfl, trivial⟩, ⟨trivial, ?_⟩, ⟨rfl, trivial⟩,
    ⟨trivial, trivial⟩, ⟨trivial, trivial⟩, ⟨Option.some_ne_none 0, ?_⟩, trivial⟩
  · intro f _ hlinked
    exact absurd hlinked List.not_mem_nil
  · intro f hf
    obtain rfl : 0 = f := by
      have hrunning : (some 0 : Option FileId) = some f := hf
      simpa using hrunning
    decide

/-- Runs after which the lists are not exact: a file that is initialised with events, a callback that
selects its own pending event again, one that deinitialises its own file, one that fails, and a
poll that reports a hangup nobody selected. -/
theorem runs_not_exact :
    List.Forall (fun ops => Along DispatchContext.step (fun ctx op => op.Proper ctx) .init ops ∧
        ¬(run DispatchContext.step .init ops).Exact)
      [[.init 0 21 5],
        [.init 0 1 0, .select 0 1, .poll (.poll fun _ => 1), .start, .select 0 1, .returns false],
        [.init 0 1 0, .select 0 1, .poll (.poll fun _ => 1), .start, .deinit 0, .returns false],
        [.init 0 1 0, .select 0 1, .poll (.poll fun _ => 1), .start, .returns true],
        [.init 0 17 0, .select 0 1, .poll (.poll fun _ => 1), .poll (.poll fun _ => 16)]] := by
  refine List.forall_iff_forall_mem.mpr fun ops hops => ?_
  simp only [List.mem_cons, List.not_mem_nil, or_false] at hops
  rcases hops with rfl | rfl | rfl | rfl | rfl
  · refine ⟨⟨rfl, trivial⟩, fun h => ?_⟩
    exact absurd ((h.linked 0 (by decide)).mpr (by decide)) (by decide)
  · refine ⟨⟨rfl, rfl, trivial, rfl, rfl, Option.some_ne_none 0, trivial⟩, fun h => ?_⟩
    exact absurd h.nodup (by decide)
  · refine ⟨⟨rfl, rfl, trivial, rfl, trivial, Option.some_ne_none 0, trivial⟩, fun h => ?_⟩
    exact absurd ((h.linked 0 (by decide)).mp (by decide)).1 (by decide)
  · refine ⟨⟨rfl, rfl, trivial, rfl, Option.some_ne_none 0, trivial⟩, fun h => ?_⟩
    exact absurd ((h.linked 0 (by decide)).mpr (by decide)) (by decide)
  · refine ⟨⟨rfl, rfl, trivial, trivial, trivial⟩, fun h => ?_⟩
    exact absurd ((h.linked 0 (by decide)).mp (by decide)).2 (by decide)

end DbusBroker
