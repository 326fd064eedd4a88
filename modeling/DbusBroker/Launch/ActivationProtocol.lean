import DbusBroker.Bus.Activation
import DbusBroker.Launch.Service
import DbusBroker.Lib.Run

/-!
# The activation protocol

The broker's activation of a name and the launcher's service object are two parties. `Activate`
signals with a serial go one way and `Reset` calls with a serial go the other way, both in
order. The broker forgets an activation when the name gets an owner, and the launcher forgets
one when it gets the next `Activate` signal, so that a message of one side may be about an
activation the other side no longer knows.

The serials the broker gives out grow. A `Reset` call therefore has the serial of a pending
activation only if the launcher had received everything the broker sent, and then the slots
that led to it were opened for this activation.
-/

namespace DbusBroker

/-- `driver_name_activation_failed` for the activation alone; the flag says whether it was failed. -/
def activationFailed (activation : Activation) (serial : ℕ) : Activation × Bool :=
  if activation.pending = 0 || serial ≠ activation.pending then (activation, false)
  else ({ activation with pending := 0, requests := [], messages := [] }, true)

/-- `driver_name_activated` for the activation alone. -/
def activationActivated (activation : Activation) : Activation :=
  { activation with pending := 0, requests := [], messages := [] }

/-- A pending activation that the broker failed: the serials it had issued, and the call that failed it. -/
structure ActivationFailure where
  issued : List ℕ
  pending : ℕ
  call : ResetCall

/-- Both parties and what is on the way between them. The serials issued and the failures are recorded. -/
structure ActivationPair where
  activation : Activation
  activationIds : ℕ
  owned : Bool
  activates : List ℕ
  resets : List ResetCall
  service : Service
  issued : List ℕ
  failures : List ActivationFailure

/-- What happens next: at the broker, at the launcher, or with a message that arrives. -/
inductive ActivationOp where
  /-- A request to start the service, or a message to the name. -/
  | request
  /-- The activation of another name is requested of the controller. -/
  | otherRequested
  | acquire
  | release
  | deliverActivate
  | deliverReset
  | systemd (event : SystemdEvent)
  | update (data : ServiceData)

/-- The calls a step of the service sent to the broker. -/
def sentResets (before after : Service) : List ResetCall := after.resets.drop before.resets.length

/-- The service takes a step, and its calls are on the way. -/
def ActivationPair.setService (p : ActivationPair) (service : Service) : ActivationPair :=
  { p with service := service, resets := p.resets ++ sentResets p.service service }

/-- One step of either party. -/
def ActivationPair.step (uniqueName : Bytes) (p : ActivationPair) : ActivationOp → ActivationPair
  | .request =>
    -- a name that has an owner is not activated
    if p.owned then p
    else
      let (activation, activationIds) := activationRequest p.activation p.activationIds
      let sent := if p.activation.pending ≠ 0 then [] else [activation.pending]
      { p with
        activation := activation
        activationIds := activationIds
        activates := p.activates ++ sent
        issued := p.issued ++ sent }
  | .otherRequested => { p with activationIds := p.activationIds + 1 }
  | .acquire => { p with owned := true, activation := activationActivated p.activation }
  | .release => { p with owned := false }
  | .deliverActivate =>
    match p.activates with
    | [] => p
    | serial :: rest => { p with activates := rest }.setService (serviceActivate uniqueName p.service serial)
  | .deliverReset =>
    match p.resets with
    | [] => p
    | call :: rest =>
      -- a call with an error that is not known is refused
      match controllerNameErrorFromString call.error with
      | none => { p with resets := rest }
      | some _ =>
        let (activation, failed) := activationFailed p.activation call.serial
        let failure : ActivationFailure := ⟨p.issued, p.activation.pending, call⟩
        { p with
          resets := rest
          activation := activation
          failures := if failed then p.failures ++ [failure] else p.failures }
  | .systemd event => p.setService (serviceDispatch p.service event)
  | .update data => p.setService (serviceUpdate p.service data)

/-- A name that was just made activatable, and its service. -/
def ActivationPair.init (name : Bytes) (user : Uid) (data : ServiceData) (activationIds : ℕ) (owned : Bool) :
    ActivationPair :=
  ⟨⟨name, user, [], [], 0⟩, activationIds, owned, [], [], serviceNew name data, [], []⟩

section Service

/-- What a service has open belongs to the last `Activate` signal, and is open in the order the handlers
expect. -/
structure ServiceOpen (s : Service) : Prop where
  watchJobs : ∀ slot, s.slotWatchJobs = some slot → slot.activation = s.received.length
  watchUnit : ∀ kind slot, s.slotWatchUnit = some (kind, slot) → slot.activation = s.received.length
  startUnit : ∀ slot, s.slotStartUnit = some slot → slot.activation = s.received.length
  job : ∀ job, s.job = some job → job.activation = s.received.length
  /-- No job is known or being queued before the unit is loaded. -/
  loading : ∀ slot, s.slotWatchUnit = some (.load, slot) → s.job = none ∧ s.slotStartUnit = none
  /-- No job is known while it is being queued. -/
  starting : s.slotStartUnit.isSome → s.job = none

/-- Nothing of the service is open. -/
structure ServiceIdle (s : Service) : Prop where
  watchJobs : s.slotWatchJobs = none
  watchUnit : s.slotWatchUnit = none
  startUnit : s.slotStartUnit = none
  job : s.job = none

/-- A `Reset` call has the serial of the last `Activate` signal received, and only what was opened for this
signal led to it. -/
structure ResetCall.Timely (call : ResetCall) : Prop where
  serial : call.received.getLast? = some call.serial
  caused : call.causes ≠ []
  causes : ∀ cause ∈ call.causes, cause = call.received.length

/-- The invariant of a service. -/
structure ServiceInv (s : Service) : Prop where
  isOpen : ServiceOpen s
  running : s.running = true
  asserts : s.assertFailed = false
  /-- Something is open only after an `Activate` signal, and no call was made for it yet. -/
  fresh : ServiceIdle s ∨
    (s.received.getLast? = some s.lastSerial ∧ ∀ call ∈ s.resets, call.received.length < s.received.length)
  timely : ∀ call ∈ s.resets, call.Timely ∧ call.received <+: s.received
  once : (s.resets.map fun call => call.received.length).Nodup

/-- A check that holds changes nothing. -/
@[simp] theorem Service.check_true (s : Service) : s.check true = s := by
  cases s
  simp [Service.check]

/-- What is idle is in order. -/
theorem ServiceIdle.isOpen {s : Service} (h : ServiceIdle s) : ServiceOpen s := by
  obtain ⟨h1, h2, h3, h4⟩ := h
  constructor <;> simp [h1, h2, h3, h4]

/-- A service on which something was open reports a failure of its activation. -/
theorem ServiceInv.resetActivation {s : Service} (h : ServiceInv s)
    (hfresh : s.received.getLast? = some s.lastSerial ∧
      ∀ call ∈ s.resets, call.received.length < s.received.length)
    {causes : List ℕ} (hne : causes ≠ []) (hcauses : ∀ cause ∈ causes, cause = s.received.length)
    (error : NameError) : ServiceInv (serviceResetActivation s causes error) where
  isOpen := ServiceIdle.isOpen ⟨rfl, rfl, rfl, rfl⟩
  running := h.running
  asserts := h.asserts
  fresh := .inl ⟨rfl, rfl, rfl, rfl⟩
  timely := by
    intro call hcall
    obtain hold | hnew := List.mem_append.mp hcall
    · exact h.timely call hold
    · rw [List.mem_singleton.mp hnew]
      exact ⟨⟨hfresh.1, hne, hcauses⟩, List.prefix_rfl⟩
  once := by
    show ((s.resets ++ [_]).map _).Nodup
    rw [List.map_append, List.nodup_append]
    refine ⟨h.once, List.nodup_singleton _, ?_⟩
    intro a ha b hb heq
    obtain ⟨call, hcall, rfl⟩ := List.mem_map.mp ha
    have hlt := hfresh.2 call hcall
    simp only [List.map_cons, List.map_nil, List.mem_singleton] at hb
    subst hb
    exact absurd heq (Nat.ne_of_lt hlt)

/-- A step that changes only what is open keeps the invariant. -/
theorem ServiceInv.reopen {s s' : Service} (h : ServiceInv s)
    (hfresh : s.received.getLast? = some s.lastSerial ∧
      ∀ call ∈ s.resets, call.received.length < s.received.length)
    (hopen : ServiceOpen s') (hreceived : s'.received = s.received) (hresets : s'.resets = s.resets)
    (hserial : s'.lastSerial = s.lastSerial) (hrunning : s'.running = s.running)
    (hasserts : s'.assertFailed = s.assertFailed) : ServiceInv s' where
  isOpen := hopen
  running := hrunning.trans h.running
  asserts := hasserts.trans h.asserts
  fresh := .inr (by rw [hreceived, hresets, hserial]; exact hfresh)
  timely := by rw [hreceived, hresets]; exact h.timely
  once := by rw [hresets]; exact h.once

/-- The end of a job either ends the watch of jobs, or fails the activation. -/
theorem ServiceInv.watchJobsHandler {s : Service} (h : ServiceInv s) {slot : BusSlot}
    (hslot : s.slotWatchJobs = some slot) (path result : Bytes) :
    ServiceInv (serviceWatchJobsHandler s slot path result) := by
  have hfresh := h.fresh.resolve_left fun hidle => by simp [hidle.watchJobs] at hslot
  rw [serviceWatchJobsHandler]
  match hjob : s.job with
  | none => exact h
  | some job =>
    dsimp only
    split_ifs with hpath hdone
    · exact h
    · refine h.reopen hfresh ?_ rfl rfl rfl rfl rfl
      exact ⟨by simp, h.isOpen.watchUnit, h.isOpen.startUnit, by simp,
        fun load hload => ⟨rfl, (h.isOpen.loading load hload).2⟩, by simp⟩
    all_goals
      refine h.resetActivation hfresh (List.cons_ne_nil _ _) ?_ _
      intro cause hcause
      simp only [List.mem_cons, List.not_mem_nil, or_false] at hcause
      obtain rfl | rfl := hcause
      · exact h.isOpen.watchJobs slot hslot
      · exact h.isOpen.job job hjob

/-- The counters of logged errors are not part of the invariant. -/
theorem ServiceInv.startUnitError {s : Service} (h : ServiceInv s)
    (hfresh : s.received.getLast? = some s.lastSerial ∧
      ∀ call ∈ s.resets, call.received.length < s.received.length) {causes : List ℕ} (hne : causes ≠ [])
    (hcauses : ∀ cause ∈ causes, cause = s.received.length) (error : Bytes) :
    ServiceInv (serviceResetActivation (startUnitError s error).1 causes (startUnitError s error).2) := by
  rw [DbusBroker.startUnitError]
  split_ifs
  · exact h.resetActivation hfresh hne hcauses _
  · have hcount : ServiceInv { s with nMissingUnit := s.nMissingUnit + 1 } :=
      h.reopen hfresh ⟨h.isOpen.watchJobs, h.isOpen.watchUnit, h.isOpen.startUnit, h.isOpen.job, h.isOpen.loading,
        h.isOpen.starting⟩ rfl rfl rfl rfl rfl
    exact hcount.resetActivation hfresh hne hcauses _
  · have hcount : ServiceInv { s with nMaskedUnit := s.nMaskedUnit + 1 } :=
      h.reopen hfresh ⟨h.isOpen.watchJobs, h.isOpen.watchUnit, h.isOpen.startUnit, h.isOpen.job, h.isOpen.loading,
        h.isOpen.starting⟩ rfl rfl rfl rfl rfl
    exact hcount.resetActivation hfresh hne hcauses _
  · exact h.resetActivation hfresh hne hcauses _

/-- The reply to the start of a unit is a job for this activation, or fails it. -/
theorem ServiceInv.startUnitHandler {s : Service} (h : ServiceInv s) {slot : BusSlot}
    (hslot : s.slotStartUnit = some slot) (reply : Except Bytes Bytes) :
    ServiceInv (serviceStartUnitHandler s slot reply) := by
  have hfresh := h.fresh.resolve_left fun hidle => by simp [hidle.startUnit] at hslot
  have howner := h.isOpen.startUnit slot hslot
  have hjob : s.job = none := h.isOpen.starting (by simp [hslot])
  cases reply with
  | ok path =>
    show ServiceInv { s with
      slotStartUnit := none, assertFailed := s.assertFailed || !s.job.isNone, job := some ⟨path, slot.activation⟩ }
    refine h.reopen hfresh ?_ rfl rfl rfl rfl (by simp [hjob])
    refine ⟨h.isOpen.watchJobs, h.isOpen.watchUnit, by simp, ?_, ?_, by simp⟩
    · intro job hjob'
      rw [← Option.some.inj hjob']
      exact howner
    · intro load hload
      have hnone := (h.isOpen.loading load hload).2
      simp [hnone] at hslot
  | error error =>
    have hclosed : ServiceInv { s with slotStartUnit := none } :=
      h.reopen hfresh ⟨h.isOpen.watchJobs, h.isOpen.watchUnit, by simp, h.isOpen.job,
        fun load hload => ⟨(h.isOpen.loading load hload).1, rfl⟩, by simp⟩
        rfl rfl rfl rfl rfl
    exact hclosed.startUnitError hfresh (List.cons_ne_nil _ _) (by simpa using howner) error

/-- A signal of the unit fails the activation, or says nothing about it. -/
theorem ServiceInv.watchUnitHandler {s : Service} (h : ServiceInv s) {path : Bytes} {slot : BusSlot}
    (hslot : s.slotWatchUnit = some (.properties path, slot)) (interface : Bytes)
    (properties : List UnitProperty) : ServiceInv (serviceWatchUnitHandler s slot interface properties) := by
  have hfresh := h.fresh.resolve_left fun hidle => by simp [hidle.watchUnit] at hslot
  rw [serviceWatchUnitHandler]
  split_ifs
  · exact h
  · exact h
  · dsimp only
    split_ifs
    · exact h.resetActivation hfresh (List.cons_ne_nil _ _) (by simpa using h.isOpen.watchUnit _ slot hslot) _
    · exact h

/-- The reply to the load of a unit starts it for this activation, or fails the activation. -/
theorem ServiceInv.watchUnitLoadHandler {s : Service} (h : ServiceInv s) {slot : BusSlot}
    (hslot : s.slotWatchUnit = some (.load, slot)) (reply : Except Bytes Bytes) :
    ServiceInv (serviceWatchUnitLoadHandler s slot reply) := by
  have hfresh := h.fresh.resolve_left fun hidle => by simp [hidle.watchUnit] at hslot
  have howner := h.isOpen.watchUnit .load slot hslot
  obtain ⟨hjob, -⟩ := h.isOpen.loading slot hslot
  cases reply with
  | error error =>
    have hclosed : ServiceInv { s with slotWatchUnit := none } :=
      h.reopen hfresh ⟨h.isOpen.watchJobs, by simp, h.isOpen.startUnit, h.isOpen.job, by simp, h.isOpen.starting⟩
        rfl rfl rfl rfl rfl
    exact hclosed.resetActivation hfresh (List.cons_ne_nil _ _) (by simpa using howner) _
  | ok path =>
    rw [serviceWatchUnitLoadHandler]
    -- both ways to start a unit open the same slots
    have hstarted : ∀ calls, ServiceInv { s with
        slotWatchUnit := some (.properties path, ⟨slot.activation⟩)
        slotStartUnit := some ⟨slot.activation⟩
        calls := calls } := by
      intro calls
      refine h.reopen hfresh ?_ rfl rfl rfl rfl rfl
      refine ⟨h.isOpen.watchJobs, ?_, ?_, h.isOpen.job, by simp, fun _ => hjob⟩
      · intro kind opened hopened
        simp only [Option.some.injEq, Prod.mk.injEq] at hopened
        rw [← hopened.2]
        exact howner
      · intro opened hopened
        rw [← Option.some.inj hopened]
        exact howner
    dsimp only
    split_ifs
    · exact hstarted _
    · exact hstarted _

/-- Whatever systemd sends keeps the invariant. -/
theorem ServiceInv.dispatch {s : Service} (h : ServiceInv s) (event : SystemdEvent) :
    ServiceInv (serviceDispatch s event) := by
  rw [serviceDispatch.eq_def]
  cases event with
  | loadUnitReply reply =>
    dsimp only
    split
    · exact h.watchUnitLoadHandler ‹_› reply
    · exact h
  | startUnitReply reply =>
    dsimp only
    split
    · exact h.startUnitHandler ‹_› reply
    · exact h
  | jobRemoved id path unit result =>
    dsimp only
    split
    · exact h.watchJobsHandler ‹_› path result
    · exact h
  | propertiesChanged interface properties =>
    dsimp only
    split
    · exact h.watchUnitHandler ‹_› interface properties
    · exact h

/-- The service once an `Activate` signal has discarded the previous activation. -/
def serviceBegun (s : Service) (serial : ℕ) : Service :=
  { serviceDiscardActivation s with
    lastSerial := serial, activeData := some s.data, received := s.received ++ [serial] }

/-- No call was made for an activation that was just begun. -/
theorem ServiceInv.begun_fresh {s : Service} (h : ServiceInv s) (serial : ℕ) :
    (serviceBegun s serial).received.getLast? = some (serviceBegun s serial).lastSerial ∧
      ∀ call ∈ (serviceBegun s serial).resets, call.received.length < (serviceBegun s serial).received.length := by
  refine ⟨List.getLast?_concat, ?_⟩
  intro call hcall
  have hle := (h.timely call hcall).2.length_le
  show call.received.length < (s.received ++ [serial]).length
  rw [List.length_append, List.length_singleton]
  omega

/-- An activation that was just begun is in order. -/
theorem ServiceInv.begun {s : Service} (h : ServiceInv s) (serial : ℕ) : ServiceInv (serviceBegun s serial) where
  isOpen := ServiceIdle.isOpen ⟨rfl, rfl, rfl, rfl⟩
  running := h.running
  asserts := h.asserts
  fresh := .inl ⟨rfl, rfl, rfl, rfl⟩
  timely := by
    intro call hcall
    obtain ⟨htimely, hhead⟩ := h.timely call hcall
    exact ⟨htimely, hhead.trans (List.prefix_append _ _)⟩
  once := h.once

/-- The slots of an activation are opened on a service on which nothing is open. -/
theorem ServiceInv.watchActivation {s : Service} (h : ServiceInv s) (hidle : ServiceIdle s)
    (hunit : s.activeUnit = none)
    (hfresh : s.received.getLast? = some s.lastSerial ∧
      ∀ call ∈ s.resets, call.received.length < s.received.length) (uniqueName : Bytes) :
    ServiceInv (serviceWatchActivation uniqueName s s.received.length) ∧
      (serviceWatchActivation uniqueName s s.received.length).received = s.received ∧
      (serviceWatchActivation uniqueName s s.received.length).resets = s.resets := by
  obtain ⟨hjobs, hwatch, hstart, hjob⟩ := hidle
  have hchecked : (s.check s.running).check s.activeUnit.isNone = s := by
    simp [h.running, hunit]
  rw [serviceWatchActivation, hchecked]
  obtain ⟨unit, transient, count, hframe⟩ := serviceActiveUnit_frame uniqueName s s.data
  rw [hframe]
  cases unit with
  | none =>
    refine ⟨h.reopen hfresh ?_ rfl rfl rfl rfl rfl, rfl, rfl⟩
    exact ServiceIdle.isOpen ⟨hjobs, hwatch, hstart, hjob⟩
  | some unit =>
    refine ⟨h.reopen hfresh ?_ rfl rfl rfl rfl ?_, rfl, rfl⟩
    · refine ⟨?_, ?_, by simp [serviceWatchUnit, serviceWatchJobs, Service.check, hstart],
        by simp [serviceWatchUnit, serviceWatchJobs, Service.check, hjob], ?_, fun _ => hjob⟩
      · intro slot hslot
        rw [← Option.some.inj hslot]
        rfl
      · intro kind slot hslot
        simp only [serviceWatchUnit, Option.some.injEq, Prod.mk.injEq] at hslot
        rw [← hslot.2]
        rfl
      · intro slot _
        exact ⟨hjob, hstart⟩
    · simp [serviceWatchUnit, serviceWatchJobs, Service.check, hjobs, hjob, hwatch]

/-- An `Activate` signal is recorded, no call is made on it, and the assertions on the way hold. -/
theorem ServiceInv.activate {s : Service} (h : ServiceInv s) (uniqueName : Bytes) (serial : ℕ) :
    ServiceInv (serviceActivate uniqueName s serial) ∧
      (serviceActivate uniqueName s serial).received = s.received ++ [serial] ∧
      (serviceActivate uniqueName s serial).resets = s.resets := by
  have hdef : serviceActivate uniqueName s serial =
      if s.name = lit "org.freedesktop.systemd1" then serviceBegun s serial
      else serviceWatchActivation uniqueName (serviceBegun s serial) (serviceBegun s serial).received.length := rfl
  rw [hdef]
  split_ifs with hname
  · exact ⟨h.begun serial, rfl, rfl⟩
  · exact (h.begun serial).watchActivation ⟨rfl, rfl, rfl, rfl⟩ rfl (h.begun_fresh serial) uniqueName

/-- Between two `Activate` signals, a service only makes more calls. -/
structure ServiceCalls (s s' : Service) : Prop where
  received : s'.received = s.received
  resets : s.resets <+: s'.resets

/-- A failed activation is one more call. -/
theorem serviceResetActivation_calls (s : Service) (causes : List ℕ) (error : NameError) :
    ServiceCalls s (serviceResetActivation s causes error) :=
  ⟨rfl, List.prefix_append _ _⟩

/-- The counters of logged errors are not calls. -/
theorem startUnitError_calls (s : Service) (error : Bytes) : ServiceCalls s (startUnitError s error).1 := by
  rw [startUnitError]
  split_ifs <;> exact ⟨rfl, List.prefix_rfl⟩

/-- An event of systemd leads to more calls at most. -/
theorem serviceDispatch_calls (s : Service) (event : SystemdEvent) : ServiceCalls s (serviceDispatch s event) := by
  have hrefl : ServiceCalls s s := ⟨rfl, List.prefix_rfl⟩
  rw [serviceDispatch.eq_def]
  cases event with
  | loadUnitReply reply =>
    dsimp only
    split
    · cases reply with
      | error error => exact ⟨rfl, List.prefix_append _ _⟩
      | ok path =>
        rw [serviceWatchUnitLoadHandler]
        dsimp only
        split_ifs <;> exact ⟨rfl, List.prefix_rfl⟩
    · exact hrefl
  | startUnitReply reply =>
    dsimp only
    split
    · cases reply with
      | error error =>
        have hcount := startUnitError_calls { s with slotStartUnit := none } error
        exact ⟨hcount.received, hcount.resets.trans (serviceResetActivation_calls _ _ _).resets⟩
      | ok path => exact ⟨rfl, List.prefix_rfl⟩
    · exact hrefl
  | jobRemoved id path unit result =>
    dsimp only
    split
    · rw [serviceWatchJobsHandler]
      split
      · exact hrefl
      · split_ifs
        · exact hrefl
        · exact ⟨rfl, List.prefix_rfl⟩
        all_goals exact serviceResetActivation_calls _ _ _
    · exact hrefl
  | propertiesChanged interface properties =>
    dsimp only
    split
    · rw [serviceWatchUnitHandler]
      split_ifs
      · exact hrefl
      · exact hrefl
      · dsimp only
        split_ifs
        · exact serviceResetActivation_calls _ _ _
        · exact hrefl
    · exact hrefl

end Service

section Pair

/-- The invariant of the two parties. -/
structure PairInv (p : ActivationPair) : Prop where
  service : ServiceInv p.service
  /-- What the broker issued was received or is on the way. -/
  issued : p.issued = p.service.received ++ p.activates
  /-- Serials grow, and those to come are larger. -/
  grows : p.issued.Pairwise (· < ·)
  bounded : ∀ serial ∈ p.issued, serial ≤ p.activationIds
  /-- The pending activation is the last one that was issued. -/
  pending : p.activation.pending ≠ 0 → p.issued.getLast? = some p.activation.pending
  sent : ∀ call ∈ p.resets, call ∈ p.service.resets
  failures : ∀ failure ∈ p.failures, failure.issued.getLast? = some failure.pending ∧
    failure.call.serial = failure.pending ∧ failure.call.received = failure.issued ∧
    failure.call ∈ p.service.resets ∧ failure.issued <+: p.issued

/-- A prefix of a growing list that ends with the same number is the whole list. -/
theorem eq_of_prefix_of_getLast? {l₁ l₂ : List ℕ} (hhead : l₁ <+: l₂) (hgrows : l₂.Pairwise (· < ·)) {n : ℕ}
    (h₁ : l₁.getLast? = some n) (h₂ : l₂.getLast? = some n) : l₁ = l₂ := by
  obtain ⟨rest, rfl⟩ := hhead
  rw [List.pairwise_append] at hgrows
  cases hrest : rest.getLast? with
  | none => rw [List.getLast?_eq_none_iff.mp hrest, List.append_nil]
  | some m =>
    have hm : (l₁ ++ rest).getLast? = some m := by rw [List.getLast?_append, hrest, Option.some_or]
    have hlt := hgrows.2.2 n (List.mem_of_getLast? h₁) m (List.mem_of_getLast? hrest)
    have heq : m = n := Option.some.inj (hm.symm.trans h₂)
    omega

/-- A step of the service that receives nothing keeps the invariant. -/
theorem PairInv.setService {p : ActivationPair} (h : PairInv p) {service : Service} (hservice : ServiceInv service)
    (hcalls : ServiceCalls p.service service) : PairInv (p.setService service) where
  service := hservice
  issued := by
    show p.issued = service.received ++ p.activates
    rw [hcalls.received]
    exact h.issued
  grows := h.grows
  bounded := h.bounded
  pending := h.pending
  sent := by
    intro call hcall
    obtain hold | hnew := List.mem_append.mp hcall
    · exact hcalls.resets.subset (h.sent call hold)
    · exact List.mem_of_mem_drop hnew
  failures := by
    intro failure hfailure
    obtain ⟨hlast, hserial, hreceived, hcall, hhead⟩ := h.failures failure hfailure
    exact ⟨hlast, hserial, hreceived, hcalls.resets.subset hcall, hhead⟩

/-- A request issues a serial above all earlier ones, unless an activation is pending. -/
theorem PairInv.request {p : ActivationPair} (h : PairInv p) (uniqueName : Bytes) :
    PairInv (p.step uniqueName .request) := by
  rw [ActivationPair.step.eq_def]
  dsimp only
  split_ifs with howned hpending
  · exact h
  · have hkept : activationRequest p.activation p.activationIds = (p.activation, p.activationIds) := by
      rw [activationRequest, if_pos hpending]
    simp only [hkept, List.append_nil]
    exact h
  · have hpending : p.activation.pending = 0 := not_not.mp hpending
    have hnew : activationRequest p.activation p.activationIds =
        ({ p.activation with pending := p.activationIds + 1 }, p.activationIds + 1) := by
      rw [activationRequest, if_neg (not_not.mpr hpending)]
    simp only [hnew]
    exact
      { service := h.service
        issued := by
          show p.issued ++ [p.activationIds + 1] = p.service.received ++ (p.activates ++ [p.activationIds + 1])
          rw [h.issued, List.append_assoc]
        grows := by
          refine List.pairwise_append.mpr ⟨h.grows, List.pairwise_singleton _ _, ?_⟩
          intro serial hserial next hnext
          have hle := h.bounded serial hserial
          rw [List.mem_singleton.mp hnext]
          omega
        bounded := by
          intro serial hserial
          show serial ≤ p.activationIds + 1
          obtain hold | hnext := List.mem_append.mp hserial
          · exact Nat.le_succ_of_le (h.bounded serial hold)
          · exact Nat.le_of_eq (List.mem_singleton.mp hnext)
        pending := fun _ => List.getLast?_concat
        sent := h.sent
        failures := by
          intro failure hfailure
          obtain ⟨hlast, hserial, hreceived, hcall, hhead⟩ := h.failures failure hfailure
          exact ⟨hlast, hserial, hreceived, hcall, hhead.trans (List.prefix_append _ _)⟩ }

/-- The launcher receives the oldest signal on the way. -/
theorem PairInv.deliverActivate {p : ActivationPair} (h : PairInv p) (uniqueName : Bytes) :
    PairInv (p.step uniqueName .deliverActivate) := by
  rw [ActivationPair.step.eq_def]
  dsimp only
  match hactivates : p.activates with
  | [] => exact h
  | serial :: rest =>
    obtain ⟨hservice, hreceived, hresets⟩ := h.service.activate uniqueName serial
    exact
      { service := hservice
        issued := by
          show p.issued = (serviceActivate uniqueName p.service serial).received ++ rest
          rw [hreceived, h.issued, hactivates, List.append_assoc, List.singleton_append]
        grows := h.grows
        bounded := h.bounded
        pending := h.pending
        sent := by
          intro call hcall
          show call ∈ (serviceActivate uniqueName p.service serial).resets
          rw [hresets]
          obtain hold | hnew := List.mem_append.mp hcall
          · exact h.sent call hold
          · rw [← hresets]
            exact List.mem_of_mem_drop hnew
        failures := by
          intro failure hfailure
          show _ ∧ _ ∧ _ ∧ failure.call ∈ (serviceActivate uniqueName p.service serial).resets ∧ _
          rw [hresets]
          exact h.failures failure hfailure }

/-- A call with the serial of the pending activation was made when everything issued had been received. -/
theorem PairInv.received_of_pending {p : ActivationPair} (h : PairInv p) {call : ResetCall}
    (hcall : call ∈ p.service.resets) (hpending : p.activation.pending ≠ 0)
    (hserial : call.serial = p.activation.pending) : call.received = p.issued := by
  obtain ⟨htimely, hhead⟩ := h.service.timely call hcall
  have hreceived : call.received <+: p.issued := by
    rw [h.issued]
    exact hhead.trans (List.prefix_append _ _)
  exact eq_of_prefix_of_getLast? hreceived h.grows (htimely.serial.trans (congrArg some hserial))
    (h.pending hpending)

/-- The broker receives the oldest call on the way. -/
theorem PairInv.deliverReset {p : ActivationPair} (h : PairInv p) (uniqueName : Bytes) :
    PairInv (p.step uniqueName .deliverReset) := by
  rw [ActivationPair.step.eq_def]
  dsimp only
  match hresets : p.resets with
  | [] => exact h
  | call :: rest =>
    have hcall : call ∈ p.service.resets := h.sent call (by rw [hresets]; exact List.mem_cons_self)
    have hrest : ∀ other ∈ rest, other ∈ p.service.resets := fun other hother =>
      h.sent other (by rw [hresets]; exact List.mem_cons_of_mem _ hother)
    dsimp only
    split
    · exact ⟨h.service, h.issued, h.grows, h.bounded, h.pending, hrest, h.failures⟩
    · by_cases hstale : p.activation.pending = 0 || call.serial ≠ p.activation.pending
      · rw [activationFailed, if_pos hstale]
        exact ⟨h.service, h.issued, h.grows, h.bounded, h.pending, hrest, h.failures⟩
      · rw [activationFailed, if_neg hstale]
        simp only [Bool.or_eq_true, decide_eq_true_eq, not_or, not_not] at hstale
        obtain ⟨hpending, hserial⟩ := hstale
        refine ⟨h.service, h.issued, h.grows, h.bounded, fun hne => absurd rfl hne, hrest, ?_⟩
        intro failure hfailure
        rw [if_pos rfl] at hfailure
        obtain hold | hnew := List.mem_append.mp hfailure
        · exact h.failures failure hold
        · rw [List.mem_singleton.mp hnew]
          exact ⟨h.pending hpending, hserial, h.received_of_pending hcall hpending hserial, hcall, List.prefix_rfl⟩

/-- Every step keeps the invariant. -/
theorem PairInv.step {p : ActivationPair} (h : PairInv p) (uniqueName : Bytes) (op : ActivationOp) :
    PairInv (p.step uniqueName op) := by
  cases op with
  | request => exact h.request uniqueName
  | otherRequested =>
    exact ⟨h.service, h.issued, h.grows, fun serial hserial => Nat.le_succ_of_le (h.bounded serial hserial),
      h.pending, h.sent, h.failures⟩
  | acquire =>
    exact ⟨h.service, h.issued, h.grows, h.bounded, fun hne => absurd rfl hne, h.sent, h.failures⟩
  | release => exact ⟨h.service, h.issued, h.grows, h.bounded, h.pending, h.sent, h.failures⟩
  | deliverActivate => exact h.deliverActivate uniqueName
  | deliverReset => exact h.deliverReset uniqueName
  | systemd event => exact h.setService (h.service.dispatch event) (serviceDispatch_calls p.service event)
  | update data =>
    refine h.setService ?_ ⟨rfl, List.prefix_rfl⟩
    exact ⟨⟨h.service.isOpen.watchJobs, h.service.isOpen.watchUnit, h.service.isOpen.startUnit, h.service.isOpen.job,
      h.service.isOpen.loading, h.service.isOpen.starting⟩, h.service.running, h.service.asserts,
      h.service.fresh.imp (fun hidle => ⟨hidle.1, hidle.2, hidle.3, hidle.4⟩) id, h.service.timely, h.service.once⟩

/-- A name that was just made activatable. -/
theorem PairInv.init (name : Bytes) (user : Uid) (data : ServiceData) (activationIds : ℕ) (owned : Bool) :
    PairInv (ActivationPair.init name user data activationIds owned) where
  service :=
    { isOpen := ServiceIdle.isOpen ⟨rfl, rfl, rfl, rfl⟩
      running := rfl
      asserts := rfl
      fresh := .inl ⟨rfl, rfl, rfl, rfl⟩
      timely := fun _ hcall => nomatch hcall
      once := List.nodup_nil }
  issued := rfl
  grows := List.Pairwise.nil
  bounded := fun _ hserial => nomatch hserial
  pending := fun hne => absurd rfl hne
  sent := fun _ hcall => nomatch hcall
  failures := fun _ hfailure => nomatch hfailure

/-- In every run of the two parties, every `Reset` call has the serial of the last `Activate` signal that the
launcher had received and was caused by what was opened for this signal; the broker fails a pending activation
only by a call with the serial it issued for it, and this call was caused by the signal it sent for it; there is
one call for each signal at most; and no assertion of the service fails. -/
theorem ActivationPair.run_resets_timely (uniqueName name : Bytes) (user : Uid) (data : ServiceData)
    (activationIds : ℕ) (owned : Bool) (ops : List ActivationOp) :
    let p := Machine.run (ActivationPair.step uniqueName) (ActivationPair.init name user data activationIds owned) ops
    (∀ call ∈ p.service.resets, call.received <+: p.issued ∧ call.received.getLast? = some call.serial ∧
      call.causes ≠ [] ∧ ∀ cause ∈ call.causes, cause = call.received.length) ∧
    (∀ failure ∈ p.failures, failure.issued <+: p.issued ∧ failure.issued.getLast? = some failure.pending ∧
      failure.call ∈ p.service.resets ∧ failure.call.serial = failure.pending ∧
      ∀ cause ∈ failure.call.causes, cause = failure.issued.length) ∧
    (p.service.resets.map fun call => call.received.length).Nodup ∧
    p.service.assertFailed = false := by
  intro p
  have h : PairInv p := Machine.run_invariant (P := fun _ _ => True)
    (fun p op hp _ => hp.step uniqueName op) (PairInv.init name user data activationIds owned)
    (Machine.along_true _ ops)
  refine ⟨?_, ?_, h.service.once, h.service.asserts⟩
  · intro call hcall
    obtain ⟨htimely, hhead⟩ := h.service.timely call hcall
    refine ⟨?_, htimely.serial, htimely.caused, htimely.causes⟩
    rw [h.issued]
    exact hhead.trans (List.prefix_append _ _)
  · intro failure hfailure
    obtain ⟨hlast, hserial, hreceived, hcall, hhead⟩ := h.failures failure hfailure
    refine ⟨hhead, hlast, hcall, hserial, ?_⟩
    intro cause hcause
    rw [← hreceived]
    exact (h.service.timely _ hcall).1.causes cause hcause

-- the call for the first activation arrives when the second one is pending
example :
    let data : ServiceData := ⟨none, some (lit "a.service"), none, 0, []⟩
    let p := Machine.run (ActivationPair.step (lit ":1.0")) (ActivationPair.init (lit "a.b") 0 data 0 false)
      [.request, .deliverActivate, .systemd (.loadUnitReply (.error [])), .acquire, .release, .request, .deliverReset]
    (p.service.resets.map (·.serial), p.failures.length, p.activation.pending) = ([1], 0, 2) := by
  decide +kernel

end Pair

end DbusBroker
