import DbusBroker.Bus.OrderNames

/-!
# The moves of the names

The operations on names as moves of the bus. A reference that is taken on a name is held by
the operation until a rule, an activation or a message takes it over, or until it is
dropped. A change of the primary owner is a move that is announced at once.
-/

namespace DbusBroker

open Std

variable {ok : Core → Leave → Prop} {x : Aux} {b : Bus} {n : Bytes}

section References

variable {w' : NameRegistry ℕ} {held : Bytes → ℕ}

/-- The references on a name are those that are held and others. -/
theorem Core.pins_hold (c : Core) (held held' : Bytes → ℕ) (n : Bytes) :
    c.pins held' n + held n = c.pins held n + held' n := by
  show rulePins c.ownedMatches c.ids n + _ + held' n + held n = rulePins c.ownedMatches c.ids n + _ + held n + held' n
  omega

/-- The references on a name change, but not its queue. -/
theorem moves_refs (h : Good x b.core) (n : Bytes) (pins : ℕ)
    (heffect : NameEffect b.names w' n (b.core.pins (Function.update x.held n pins) n) (nameQueue b.names n))
    (hkept : ActivationKept b.names w') (users : UserRegistry) :
    Moves ok (x, b) ({ x with held := Function.update x.held n pins }, { b with users := users, names := w' }) := by
  have hsaid : [] = announceChange (nameChangeOf n (nameQueue b.names n).primary (nameQueue b.names n).primary) := by
    rw [nameChangeOf, if_pos rfl]
    rfl
  have hchange : Change ok x b.core { x with held := Function.update x.held n pins } { b.core with names := w' } [] :=
    Change.names x b.core w' n (nameQueue b.names n) pins x.busy [] heffect (h.names.patient n) hkept
      (fun a ha => .inl ha) (.inl rfl) (fun hprimary => .inl hprimary) (.inl hsaid)
  exact .single (hchange.move_nil rfl)

/-- `name_registry_ref_name`. -/
theorem moves_nameRegistryRefName (h : Good x b.core) (n : Bytes) :
    Moves ok (x, b) ({ x with held := holdMore x.held (some n) }, { b with names := nameRegistryRefName b.names n }) := by
  refine moves_refs h n (x.held n + 1) ?_ (activationKept_nameRegistryRefName b.names n) b.users
  have heffect := (h.names.names n).effect_refName
  have hpins := Core.pins_hold b.core x.held (Function.update x.held n (x.held n + 1)) n
  rw [Function.update_self] at hpins
  have hmore : b.core.pins (Function.update x.held n (x.held n + 1)) n = b.core.pins x.held n + 1 := by omega
  rw [hmore]
  exact heffect

/-- `name_ref` of a name that is there. -/
theorem moves_nameRef (h : Good x b.core) (hn : (b.names.nameTree.find? n).isSome) :
    Moves ok (x, b) ({ x with held := holdMore x.held (some n) }, { b with names := nameRef b.names n }) := by
  have heq : nameRef b.names n = nameRegistryRefName b.names n := by
    rw [nameRegistryRefName]
    obtain ⟨y, hy⟩ := Option.isSome_iff_exists.mp hn
    rw [hy]
  rw [heq]
  exact moves_nameRegistryRefName h n

/-- `name_unref` of a name that the operation refers to. -/
theorem moves_nameUnref (h : Good x b.core) (hheld : x.held = holdMore held (some n)) (idle : Bytes → Bool) :
    Moves ok (x, b) ({ x with held := held }, { b with names := nameUnref idle b.names n }) := by
  have hpins := Core.pins_hold b.core x.held held n
  have hone : x.held n = held n + 1 := by
    rw [hheld, holdMore_apply, if_pos rfl]
  have hheld' : Function.update x.held n (held n) = held := by
    rw [hheld]
    show Function.update (Function.update held n (held n + 1)) n (held n) = held
    rw [Function.update_idem, Function.update_eq_self]
  have hpos : 0 < b.core.pins x.held n := by omega
  have hless : b.core.pins held n = b.core.pins x.held n - 1 := by omega
  have heffect := (h.names.names n).effect_unref hpos idle
  rw [← hless, ← hheld'] at heffect
  have hmoves : Moves ok (x, b) ({ x with held := Function.update x.held n (held n) },
      { b with names := nameUnref idle b.names n }) :=
    moves_refs h n (held n) heffect (fades_nameUnref idle b.names n).kept b.users
  rw [hheld'] at hmoves
  exact hmoves

/-- The queues after a reference was dropped. -/
theorem Good.nameQueue_nameUnref (h : Good x b.core) (hheld : x.held = holdMore held (some n)) (idle : Bytes → Bool) :
    nameQueue (nameUnref idle b.names n) = nameQueue b.names := by
  have hbooks : NameBooks b.names (b.core.pins x.held) := h.names
  have hpins := Core.pins_hold b.core x.held held n
  have hone : x.held n = held n + 1 := by
    rw [hheld, holdMore_apply, if_pos rfl]
  have heffect := (hbooks.names n).effect_unref (by omega) idle
  rw [NameWorld.nameQueue_effect hbooks heffect, Function.update_eq_self]

/-- The names of a snapshot are dropped. -/
theorem moves_nameSnapshotFree (h : Good x b.core) {snapshot : List Bytes}
    (hheld : ∀ n, x.held n = held n + snapshot.count n) (idle : Bytes → Bool) :
    Moves ok (x, b) ({ x with held := held }, { b with names := nameSnapshotFree idle b.names snapshot }) ∧
      nameQueue (nameSnapshotFree idle b.names snapshot) = nameQueue b.names := by
  induction snapshot generalizing x b with
  | nil =>
    have hsame : x.held = held := funext hheld
    rw [← hsame]
    exact ⟨.refl, rfl⟩
  | cons n rest ih =>
    have hfirst : x.held = holdMore (fun m => held m + rest.count m) (some n) := by
      funext m
      rw [hheld, holdMore_apply, List.count_cons, Nat.add_assoc]
      congr 2
      exact if_congr (by rw [beq_iff_eq, Option.some.injEq]) rfl rfl
    have hmoves : Moves ok (x, b) _ := moves_nameUnref h hfirst idle
    obtain ⟨hrest, hqueue⟩ := ih (h.moves hmoves) fun m => rfl
    exact ⟨hmoves.trans hrest, hqueue.trans (h.nameQueue_nameUnref hfirst idle)⟩

/-- A reference keeps all names. -/
theorem isSome_nameRef {w : NameRegistry ℕ} {m : Bytes} (hm : (w.nameTree.find? m).isSome) (n : Bytes) :
    ((nameRef w n).nameTree.find? m).isSome := by
  rw [nameRef]
  cases hy : w.nameTree.find? n with
  | none => exact hm
  | some y =>
    show ((w.nameTree.insert n _).find? m).isSome
    rw [SearchTree.find?_insert]
    split
    · rfl
    · exact hm

/-- The names of a snapshot are referred to. -/
theorem moves_nameSnapshot (h : Good x b.core) {snapshot : List Bytes}
    (hthere : ∀ n ∈ snapshot, (b.names.nameTree.find? n).isSome) :
    Moves ok (x, b) ({ x with held := fun n => x.held n + snapshot.count n },
      { b with names := snapshot.foldl nameRef b.names }) := by
  induction snapshot generalizing x b with
  | nil => exact .refl
  | cons n rest ih =>
    have hmoves : Moves ok (x, b) _ := moves_nameRef h (hthere n List.mem_cons_self)
    have hrest := hmoves.trans (ih (h.moves hmoves) fun m hm =>
      isSome_nameRef (hthere m (List.mem_cons_of_mem n hm)) n)
    have hheld : (fun m => x.held m + (n :: rest).count m) = fun m => holdMore x.held (some n) m + rest.count m := by
      funext m
      rw [holdMore_apply, List.count_cons, Nat.add_right_comm, Nat.add_assoc]
      congr 2
      exact if_congr (by rw [beq_iff_eq, Option.some.injEq]) rfl rfl
    rw [hheld]
    exact hrest

/-- A name that somebody wants is there. -/
theorem Good.isSome_of_ownershipOf (h : Good x b.core) {id i : ℕ} (hown : b.names.ownershipOf id n = some i) :
    (b.names.nameTree.find? n).isSome := by
  have hat : NameAt b.names n (b.core.pins x.held n) none := h.names.names n
  obtain ⟨o, ho, -, hname⟩ := (hat.owned id i).mp hown
  have hqueued := (hat.queued i).mpr ⟨(Option.some_ne_none i).symm, o, ho, hname⟩
  cases hy : b.names.nameTree.find? n with
  | some y => rfl
  | none =>
    rw [NameRegistry.ownershipList, hy] at hqueued
    cases hqueued

end References

section Changes

variable {w' : NameRegistry ℕ} {q : OwnerQueue ℕ}

/-- A record of a change refers to the name it is about. -/
theorem holdMore_nameChangeOf (held : Bytes → ℕ) (n : Bytes) (p p' : Option ℕ) :
    holdMore held (nameChangeOf n p p').name = Function.update held n (held n + changePins p p') := by
  rw [nameChangeOf, changePins]
  split
  · rw [Nat.add_zero, Function.update_eq_self]
    rfl
  · rfl

/-- The core after the queue of a name changed. -/
theorem change_names {busy : Option Bytes}
    (heffect : NameEffect b.names w' n (b.core.pins x.held n + changePins (nameQueue b.names n).primary q.primary) q)
    (hpatient : q.Patient) (hkept : ActivationKept b.names w')
    (howners : ∀ a ∈ q.owners, a ∈ (nameQueue b.names n).owners ∨ b.core.isRegistered a = true)
    (hbusy : busy = x.busy ∨ x.busy = none)
    (hactivated : q.primary ≠ none → (nameQueue b.names n).primary ≠ none ∨ nameActivation b.names n = none ∨
      busy = nameActivation b.names n) {said : List Event}
    (hsaid : said = announceChange (nameChangeOf n (nameQueue b.names n).primary q.primary) ∨
      said = [] ∧ x.silent = true) :
    Change ok x b.core
      { x with held := holdMore x.held (nameChangeOf n (nameQueue b.names n).primary q.primary).name, busy := busy }
      { b.core with names := w' } said := by
  rw [holdMore_nameChangeOf]
  refine Change.names x b.core w' n q _ busy said ?_ hpatient hkept howners hbusy hactivated hsaid
  have hpins := Core.pins_hold b.core x.held (Function.update x.held n (x.held n +
    changePins (nameQueue b.names n).primary q.primary)) n
  rw [Function.update_self] at hpins
  have hmore : b.core.pins (Function.update x.held n (x.held n + changePins (nameQueue b.names n).primary q.primary)) n =
      b.core.pins x.held n + changePins (nameQueue b.names n).primary q.primary := by omega
  rw [hmore]
  exact heffect

/-- The queue of a name changes, and the change is announced. -/
theorem moves_driverNameChanged {busy : Option Bytes}
    (heffect : NameEffect b.names w' n (b.core.pins x.held n + changePins (nameQueue b.names n).primary q.primary) q)
    (hpatient : q.Patient) (hkept : ActivationKept b.names w')
    (howners : ∀ a ∈ q.owners, a ∈ (nameQueue b.names n).owners ∨ b.core.isRegistered a = true)
    (hbusy : busy = x.busy ∨ x.busy = none)
    (hactivated : q.primary ≠ none → (nameQueue b.names n).primary ≠ none ∨ nameActivation b.names n = none ∨
      busy = nameActivation b.names n) (hflushing : x.flushing = false) (harming : x.arming = none)
    (sizes : Sizes) (policy : Policy) (users : UserRegistry) :
    Moves ok (x, b)
      ({ x with held := holdMore x.held (nameChangeOf n (nameQueue b.names n).primary q.primary).name, busy := busy },
        driverNameChanged sizes policy { b with users := users, names := w' }
          (nameChangeOf n (nameQueue b.names n).primary q.primary)) := by
  have hchange : Change ok x b.core _ (Bus.core { b with users := users, names := w' }) _ :=
    change_names heffect hpatient hkept howners hbusy hactivated (.inl rfl)
  exact .single (hchange.move_sent rfl (sent_driverNameChanged sizes _ policy _) hflushing harming)

/-- The queue of a name changes, and the broker is about to end. -/
theorem moves_silentChange
    (heffect : NameEffect b.names w' n (b.core.pins x.held n + changePins (nameQueue b.names n).primary q.primary) q)
    (hpatient : q.Patient) (hkept : ActivationKept b.names w')
    (howners : ∀ a ∈ q.owners, a ∈ (nameQueue b.names n).owners ∨ b.core.isRegistered a = true)
    (hactivated : q.primary ≠ none → (nameQueue b.names n).primary ≠ none) (hsilent : x.silent = true)
    (users : UserRegistry) :
    Moves ok (x, b)
      ({ x with held := holdMore x.held (nameChangeOf n (nameQueue b.names n).primary q.primary).name },
        { b with users := users, names := w' }) := by
  have hchange : Change ok x b.core _ (Bus.core { b with users := users, names := w' }) [] :=
    change_names heffect hpatient hkept howners (.inl rfl) (fun hprimary => .inl (hactivated hprimary))
      (.inr ⟨rfl, hsilent⟩)
  exact .single (hchange.move_nil rfl)

/-- `name_change_deinit`. -/
theorem moves_busNameChangeDeinit {held : Bytes → ℕ} {change : NameChange ℕ} (h : Good x b.core)
    (hheld : x.held = holdMore held change.name) :
    Moves ok (x, b) ({ x with held := held }, busNameChangeDeinit b change) := by
  rw [busNameChangeDeinit, nameChangeDeinit]
  cases hname : change.name with
  | some n =>
    rw [hname] at hheld
    exact moves_nameUnref h hheld b.idle
  | none =>
    rw [hname] at hheld
    have hsame : x.held = held := hheld
    rw [← hsame]
    exact .refl

end Changes

section Queues

namespace OwnerQueue

variable {ο : Type} [DecidableEq ο] {q : OwnerQueue ο} {o a : ο}

/-- Those who are left were there before. -/
theorem mem_owners_of_mem_without (h : a ∈ (q.without o).owners) : a ∈ q.owners := by
  obtain ⟨e, he, rfl⟩ := List.mem_map.mp h
  exact List.mem_map.mpr ⟨e, List.mem_of_mem_filter he, rfl⟩

/-- Whoever left is not there. -/
theorem not_mem_owners_without (q : OwnerQueue ο) (o : ο) : o ∉ (q.without o).owners := by
  intro h
  obtain ⟨e, he, howner⟩ := List.mem_map.mp h
  have hne := (List.mem_filter.mp he).2
  simp [howner] at hne

/-- Somebody can only succeed an owner who was there. -/
theorem primary_ne_none_of_without (h : (q.without o).primary ≠ none) : q.primary ≠ none := by
  intro hnone
  cases q with
  | nil => exact h rfl
  | cons e rest => cases hnone

/-- A release adds nobody. -/
theorem mem_owners_of_mem_release (h : a ∈ (q.release o).1.owners) : a ∈ q.owners := by
  rw [release] at h
  split at h
  · exact h
  · split at h
    · exact mem_owners_of_mem_without h
    · exact h

/-- A release makes nobody the owner of a name without an owner. -/
theorem primary_ne_none_of_release (h : (q.release o).1.primary ≠ none) : q.primary ≠ none := by
  rw [release] at h
  split at h
  · exact h
  · split at h
    · exact primary_ne_none_of_without h
    · exact h

/-- A request adds nobody but the caller. -/
theorem mem_owners_of_mem_request {flags : UInt32} (h : a ∈ (q.request o flags).1.owners) : a ∈ q.owners ∨ a = o := by
  by_cases ha : a = o
  · exact .inr ha
  · refine .inl ?_
    obtain ⟨e, he, rfl⟩ := List.mem_map.mp h
    have hothers : e ∈ (q.request o flags).1.without o := List.mem_filter.mpr ⟨he, by simpa using ha⟩
    have hold := (without_request_sublist q o flags).subset hothers
    exact List.mem_map.mpr ⟨e, List.mem_of_mem_filter hold, rfl⟩

/-- A request within a quota adds nobody but the caller. -/
theorem mem_owners_of_mem_requestWithin {admitted : Bool} {flags : UInt32}
    (h : a ∈ (q.requestWithin admitted o flags).1.owners) : a ∈ q.owners ∨ a = o := by
  rw [requestWithin] at h
  split at h
  · exact mem_owners_of_mem_request h
  · exact .inl h

end OwnerQueue

end Queues

section Releases

variable (sizes : Sizes) (policy : Policy)

/-- The queue of a name after a change, when the record of the change is gone. -/
theorem NameEffect.deinit {w w' : NameRegistry ℕ} {pins : ℕ} {q : OwnerQueue ℕ}
    (h : NameEffect w w' n (pins + changePins (nameQueue w n).primary q.primary) q) (idle : Bytes → Bool) :
    nameQueue (nameChangeDeinit idle w' (nameChangeOf n (nameQueue w n).primary q.primary)) n = q ∧
      OnlyName w (nameChangeDeinit idle w' (nameChangeOf n (nameQueue w n).primary q.primary)) n := by
  have hbooks := h.books
  rw [nameChangeOf]
  rw [changePins] at hbooks
  split
  · exact ⟨h.queue, h.only⟩
  · next hne =>
    rw [if_neg hne] at hbooks
    have heffect := hbooks.effect_unref (Nat.succ_pos _) idle
    exact ⟨heffect.queue.trans h.queue, h.only.trans heffect.only⟩

/-- One ownership of a peer that leaves. -/
theorem moves_driverReleaseOwnership (h : Good x b.core) {ownership : ℕ} {o : NameOwnership ℕ} {silent : Bool}
    (ho : b.names.ownerships.find? ownership = some o) (hsilent : silent = true → x.silent = true)
    (hflushing : x.flushing = false) (harming : x.arming = none) :
    Moves ok (x, b) (x, driverReleaseOwnership sizes policy silent b ownership) ∧
      ∃ w', (driverReleaseOwnership sizes policy silent b ownership).core = { b.core with names := w' } ∧
        (∀ n, nameQueue w' n = if n = o.name then (nameQueue b.names n).without o.owner else nameQueue b.names n) ∧
        OnlyName b.names w' o.name := by
  have hbooks : NameBooks b.names (b.core.pins x.held) := h.names
  obtain ⟨users', w', hrelease, heffect⟩ := nameOwnershipRelease_spec b.idle b.users (hbooks.names o.name) ho rfl
    fun a ha => hbooks.counted ha
  have hkept : ActivationKept b.names w' := by
    have hfades := fades_nameOwnershipRelease b.idle b.users b.names ownership
    rw [hrelease] at hfades
    exact hfades.kept
  have hpatient := (h.names.patient o.name).without o.owner
  have howners : ∀ a ∈ ((nameQueue b.names o.name).without o.owner).owners,
      a ∈ (nameQueue b.names o.name).owners ∨ b.core.isRegistered a = true :=
    fun a ha => .inl (OwnerQueue.mem_owners_of_mem_without ha)
  have hactivated : ((nameQueue b.names o.name).without o.owner).primary ≠ none →
      (nameQueue b.names o.name).primary ≠ none := OwnerQueue.primary_ne_none_of_without
  obtain ⟨change, hchange⟩ : ∃ change, change = nameChangeOf o.name (nameQueue b.names o.name).primary
      ((nameQueue b.names o.name).without o.owner).primary := ⟨_, rfl⟩
  -- the bus before the record of the change is dropped
  obtain ⟨b', hb', hcore, hmoves⟩ : ∃ b', driverReleaseOwnership sizes policy silent b ownership =
      busNameChangeDeinit b' change ∧ b'.core = { b.core with names := w' } ∧
      Moves ok (x, b) ({ x with held := holdMore x.held change.name }, b') := by
    rw [driverReleaseOwnership, peerReleaseNameOwnership, hrelease]
    dsimp only
    cases silent with
    | true =>
      refine ⟨{ b with users := users', names := w' }, ?_, rfl, ?_⟩
      · rw [if_pos rfl, hchange]
      · rw [hchange]
        exact moves_silentChange heffect hpatient hkept howners hactivated (hsilent rfl) users'
    | false =>
      refine ⟨driverNameChanged sizes policy { b with users := users', names := w' } change, ?_, ?_, ?_⟩
      · rw [if_neg Bool.false_ne_true, hchange]
      · exact (sent_driverNameChanged sizes _ policy change).core_eq
      · rw [hchange]
        exact moves_driverNameChanged heffect hpatient hkept howners (.inl rfl)
          (fun hprimary => .inl (hactivated hprimary)) hflushing harming sizes policy users'
  have hnames : b'.names = w' := congrArg Core.names hcore
  obtain ⟨hqueue, honly⟩ := heffect.deinit b'.idle
  rw [hb']
  refine ⟨hmoves.trans (moves_busNameChangeDeinit (h.moves hmoves) rfl), nameChangeDeinit b'.idle w' change, ?_, ?_, ?_⟩
  · show { b'.core with names := nameChangeDeinit b'.idle b'.names change } = _
    rw [hcore, hnames]
  · intro n
    rw [hchange]
    split
    · next hn =>
      rw [hn]
      exact hqueue
    · next hn => exact honly.nameQueue (h.names.names n) hn
  · rw [hchange]
    exact honly

/-- Some ownerships of a peer that leaves. -/
theorem moves_releaseEntries (h : Good x b.core) {id : ℕ} {silent : Bool} {entries : List (Bytes × ℕ)}
    (hnodup : (entries.map Prod.fst).Nodup)
    (hlive : ∀ e ∈ entries, ∃ o, b.names.ownerships.find? e.2 = some o ∧ o.owner = id ∧ o.name = e.1)
    (hsilent : silent = true → x.silent = true) (hflushing : x.flushing = false) (harming : x.arming = none) :
    ∀ b', (entries.map Prod.snd).foldl (driverReleaseOwnership sizes policy silent) b = b' →
      Moves ok (x, b) (x, b') ∧ ∃ w', b'.core = { b.core with names := w' } ∧ ∀ n, nameQueue w' n =
        if n ∈ entries.map Prod.fst then (nameQueue b.names n).without id else nameQueue b.names n := by
  induction entries generalizing b with
  | nil =>
    intro b' hb'
    subst hb'
    refine ⟨.refl, b.names, rfl, fun n => ?_⟩
    rw [List.map_nil, if_neg List.not_mem_nil]
  | cons e rest ih =>
    rw [List.map_cons, List.nodup_cons] at hnodup
    obtain ⟨o, ho, howner, hname⟩ := hlive e List.mem_cons_self
    obtain ⟨hmoves, w₁, hcore₁, hqueue₁, honly⟩ : Moves ok (x, b) _ ∧ _ :=
      moves_driverReleaseOwnership sizes policy h ho hsilent hflushing harming
    have hnames : (driverReleaseOwnership sizes policy silent b e.2).names = w₁ := congrArg Core.names hcore₁
    intro b' hb'
    obtain ⟨hrest, w', hcore, hqueue⟩ := ih (h.moves hmoves) hnodup.2 (fun e' he' => by
      obtain ⟨o', ho', howner', hname'⟩ := hlive e' (List.mem_cons_of_mem e he')
      have hne : o'.name ≠ o.name := by
        rw [hname, hname']
        exact fun heq => hnodup.1 (List.mem_map.mpr ⟨e', he', heq⟩)
      rw [hnames]
      exact ⟨o', (honly.ownerships e'.2 o' hne).mpr ho', howner', hname'⟩) b' hb'
    refine ⟨hmoves.trans hrest, w', ?_, fun n => ?_⟩
    · rw [hcore, hcore₁]
    · rw [hqueue, hnames, hqueue₁, List.map_cons, hname, howner]
      by_cases hn : n = e.1
      · rw [hn, if_neg hnodup.1, if_pos rfl, if_pos List.mem_cons_self]
      · rw [if_neg hn]
        exact if_congr (by rw [List.mem_cons, or_iff_right hn]) rfl rfl

/-- All ownerships of a peer that leaves. -/
theorem moves_releaseNames (h : Good x b.core) {id : ℕ} {silent : Bool}
    (hsilent : silent = true → x.silent = true) (hflushing : x.flushing = false) (harming : x.arming = none)
    {b' : Bus} (hb' : (b.names.owners id).ownershipTree.values.foldl (driverReleaseOwnership sizes policy silent) b = b') :
    Moves ok (x, b) (x, b') ∧ ∃ w', b'.core = { b.core with names := w' } ∧ ∀ n, id ∉ (nameQueue w' n).owners := by
  have hbooks : NameBooks b.names (b.core.pins x.held) := h.names
  obtain ⟨hmoves, w', hcore, hqueue⟩ : Moves ok (x, b) _ ∧ _ := moves_releaseEntries sizes policy h
    (b.names.owners id).ownershipTree.nodup_keys (fun e he => by
      have hfind := ((b.names.owners id).ownershipTree.find?_eq_some_iff e.1 e.2).mpr he
      exact ((hbooks.names e.1).owned id e.2).mp hfind) hsilent hflushing harming b' hb'
  refine ⟨hmoves, w', hcore, fun n => ?_⟩
  rw [hqueue]
  split
  · exact OwnerQueue.not_mem_owners_without _ id
  · next hout =>
    intro hin
    obtain ⟨i, hi⟩ := ((hbooks.names n).mem_owners_iff_ownershipOf id).mp hin
    exact hout (((b.names.owners id).ownershipTree.mem_keys_iff n).mpr ⟨i, hi⟩)

end Releases

end DbusBroker
