import DbusBroker.Bus.NameQueue

/-!
# Requests and releases of names

`RequestName` and `ReleaseName` as the queue of the name sees them. The effect of an
operation on one name is its new queue, together with the books of the name, the counters
and the record of the change.
-/

namespace DbusBroker

open Std

section Request

variable {ο : Type} [DecidableEq ο] {w w' : NameRegistry ο} {n : Bytes} {pins : ℕ} {loose : Option ℕ}
variable {id p : ℕ} {o : NameOwnership ο} {l rest : List ℕ}

/-- What an operation on a name does to it. -/
structure NameEffect (w w' : NameRegistry ο) (n : Bytes) (pins : ℕ) (q : OwnerQueue ο) : Prop where
  books : NameAt w' n pins none
  only : OnlyName w w' n
  queue : nameQueue w' n = q
  counters : CountersMoved w.counters w'.counters (nameQueue w n).primary q.primary
  next : w.nextOwnership ≤ w'.nextOwnership
  fresh : ∀ id, (w'.ownerships.find? id).isSome →
    (w.ownerships.find? id).isSome ∨ w.nextOwnership ≤ id ∧ id < w'.nextOwnership

/-- The number of references a record of a change holds. -/
def changePins (p p' : Option ο) : ℕ := if p = p' then 0 else 1

section Entries

variable {H : SearchTree (compare : ℕ → ℕ → Ordering) (NameOwnership ο)} {o' : NameOwnership ο}

omit [DecidableEq ο] in
/-- The entry that was written. -/
theorem entryIn_insert_self (H : SearchTree (compare : ℕ → ℕ → Ordering) (NameOwnership ο)) (id : ℕ)
    (o' : NameOwnership ο) : entryIn (H.insert id o') id = some (o'.owner, o'.flags) := by
  rw [entryIn, H.find?_insert_self, Option.map_some]

omit [DecidableEq ο] in
/-- Other entries are kept when one is written. -/
theorem filterMap_entryIn_insert (hid : id ∉ l) : l.filterMap (entryIn (H.insert id o')) = l.filterMap (entryIn H) := by
  refine List.filterMap_congr fun i hi => ?_
  have hne : i ≠ id := fun heq => hid (heq ▸ hi)
  rw [entryIn, H.find?_insert_of_ne hne, entryIn]

omit [DecidableEq ο] in
/-- Other entries are kept when one is erased. -/
theorem filterMap_entryIn_erase (hid : id ∉ l) : l.filterMap (entryIn (H.erase id)) = l.filterMap (entryIn H) := by
  refine List.filterMap_congr fun i hi => ?_
  have hne : i ≠ id := fun heq => hid (heq ▸ hi)
  rw [entryIn, H.find?_erase_of_ne hne, entryIn]

omit [DecidableEq ο] in
/-- Erasing an ownership creates none. -/
theorem isSome_of_isSome_erase {i : ℕ} (h : ((H.erase id).find? i).isSome) : (H.find? i).isSome := by
  rw [H.find?_erase] at h
  split at h
  · cases h
  · exact h

omit [DecidableEq ο] in
/-- Rewriting an ownership creates none. -/
theorem isSome_of_isSome_insert {i : ℕ} (ho : H.find? id = some o) (h : ((H.insert id o').find? i).isSome) :
    (H.find? i).isSome := by
  rw [H.find?_insert] at h
  split at h
  · next heq => rw [heq, ho, Option.isSome_some]
  · exact h

end Entries

omit [DecidableEq ο] in
/-- The queue behind the primary owner. -/
theorem NameAt.nameQueue_cons (h : NameAt w n pins loose) (hl : w.ownershipList n = p :: rest) :
    ∃ op, w.ownerships.find? p = some op ∧ op.name = n ∧
      nameQueue w n = (op.owner, op.flags) :: rest.filterMap w.entry := by
  obtain ⟨op, hop, hname, hentry⟩ := h.entry_of_mem (hl ▸ List.mem_cons_self : p ∈ w.ownershipList n)
  refine ⟨op, hop, hname, ?_⟩
  rw [nameQueue, hl, List.filterMap_cons, hentry]

section End

variable {H : SearchTree (compare : ℕ → ℕ → Ordering) (NameOwnership ο)} {q q' : Option ο} {k : ℕ}
variable {idle : Bytes → Bool} {users users' : UserRegistry} {flags : UInt32} {change : NameChange ο} {r : NameResult}

/-- A queued ownership stays, and the request drops its own reference on the name. -/
theorem nameRegistryRequestUpdate_of_mem
    (hupdate : nameOwnershipUpdate idle users w id flags = (users', w', change, r))
    (hupdated : Updated w w' n (k + 1) none l H q q') (hid : id ∈ l) :
    ∃ users' w', nameRegistryRequestUpdate idle users w n id flags = (users', w', change, r) ∧
      Updated w w' n k none l H q q' := by
  refine ⟨users', nameUnref idle w' n, ?_, hupdated.unref idle⟩
  rw [nameRegistryRequestUpdate, hupdate]
  simp only [hupdated.list, if_pos hid]

/-- An ownership that is not in the queue is destroyed. -/
theorem nameRegistryRequestUpdate_of_not_mem
    (hupdate : nameOwnershipUpdate idle users w id flags = (users', w', change, r))
    (hupdated : Updated w w' n (k + 1) (some id) l H q q') (hid : id ∉ l) :
    ∃ users' w', nameRegistryRequestUpdate idle users w n id flags = (users', w', change, r) ∧
      Updated w w' n k none l (H.erase id) q q' := by
  refine ⟨(nameOwnershipFree idle users' w' id).1, _, ?_, (hupdated.free idle users').unref idle⟩
  rw [nameRegistryRequestUpdate, hupdate]
  simp only [hupdated.list, if_neg hid]

end End

/-- How a request ends: what is queued and what exists after it. -/
def RequestEnds (w w' : NameRegistry ο) (n : Bytes) (pins : ℕ) (q : OwnerQueue ο) : Prop :=
  ∃ l H, Updated w w' n (pins + changePins (nameQueue w n).primary q.primary) none l H
    (nameQueue w n).primary q.primary ∧ l.filterMap (entryIn H) = q ∧
      ∀ i, (H.find? i).isSome → (w.ownerships.find? i).isSome

/-- A request ended. -/
theorem Updated.requestEnds {H : SearchTree (compare : ℕ → ℕ → Ordering) (NameOwnership ο)} {a b : Option ο}
    {q : OwnerQueue ο} {k : ℕ} (h : Updated w w' n k none l H a b) (ha : (nameQueue w n).primary = a)
    (hb : q.primary = b) (hk : k = pins + changePins a b) (hq : l.filterMap (entryIn H) = q)
    (hfresh : ∀ i, (H.find? i).isSome → (w.ownerships.find? i).isSome) : RequestEnds w w' n pins q := by
  subst ha hb hk
  exact ⟨l, H, h, hq, hfresh⟩

section Refines

variable (idle : Bytes → Bool) (users : UserRegistry) (flags : UInt32)

/-- A request for a name without an owner. -/
theorem requestUpdate_nil (h : NameAt w n (pins + 1) loose) (ho : w.ownerships.find? id = some o)
    (hname : o.name = n) (hl : w.ownershipList n = []) :
    ∃ users' w', nameRegistryRequestUpdate idle users w n id flags =
        (users', w', ⟨some n, none, some o.owner⟩, .success) ∧ RequestEnds w w' n pins [(o.owner, flags)] := by
  have hq : nameQueue w n = [] := by rw [nameQueue, hl, List.filterMap_nil]
  have hid : loose = some id := (h.place ho hname).resolve_left (by rw [hl]; exact List.not_mem_nil)
  subst hid
  obtain ⟨w', hupdate, hupdated⟩ := nameOwnershipUpdate_unowned idle users flags h ho hname hl
  obtain ⟨users', w'', hend, hended⟩ := nameRegistryRequestUpdate_of_mem hupdate hupdated List.mem_cons_self
  refine ⟨users', w'', hend, hended.requestEnds (by rw [hq]; rfl) rfl rfl ?_ fun i hi =>
    isSome_of_isSome_insert ho hi⟩
  rw [List.filterMap_cons, entryIn_insert_self, List.filterMap_nil]

/-- A request by the primary owner. -/
theorem requestUpdate_already (h : NameAt w n (pins + 1) loose) (ho : w.ownerships.find? id = some o)
    (hname : o.name = n) (hloose : loose = none ∨ loose = some id) (hl : w.ownershipList n = id :: rest) :
    ∃ users' w', nameRegistryRequestUpdate idle users w n id flags = (users', w', .init, .alreadyOwner) ∧
      RequestEnds w w' n pins ((o.owner, flags) :: rest.filterMap w.entry) := by
  have hmem : id ∈ w.ownershipList n := hl ▸ List.mem_cons_self
  have hnodup := h.nodup
  rw [hl, List.nodup_cons] at hnodup
  obtain rfl := hloose.resolve_right ((h.queued id).mp hmem).1
  obtain ⟨op, hop, -, hq⟩ := h.nameQueue_cons hl
  rw [ho] at hop
  cases hop
  obtain ⟨w', hupdate, hupdated⟩ := nameOwnershipUpdate_already idle users flags h ho hname hl
  obtain ⟨users', w'', hend, hended⟩ := nameRegistryRequestUpdate_of_mem hupdate hupdated List.mem_cons_self
  refine ⟨users', w'', hend, hended.requestEnds (by rw [hq]; rfl) rfl ?_ ?_ fun i hi =>
    isSome_of_isSome_insert ho hi⟩
  · rw [changePins, if_pos rfl, Nat.add_zero]
  · rw [List.filterMap_cons, entryIn_insert_self, filterMap_entryIn_insert hnodup.1]
    rfl

section Other

variable {op : NameOwnership ο} (h : NameAt w n (pins + 1) loose) (ho : w.ownerships.find? id = some o)
variable (hname : o.name = n) (hloose : loose = none ∨ loose = some id) (hl : w.ownershipList n = p :: rest)
variable (hne : p ≠ id) (hop : w.ownerships.find? p = some op)
variable (hq : nameQueue w n = (op.owner, op.flags) :: rest.filterMap w.entry)
include h ho hname hloose hl hne hop hq

omit [DecidableEq ο] hloose hne hop hq in
/-- The owners of the ownerships behind the primary one. -/
theorem NameAt.owner_eq_iff_of_mem_tail : ∀ i ∈ rest, ∀ x, w.entry i = some x → (x.1 = o.owner ↔ i = id) :=
  fun _ hi _ hx => h.owner_eq_iff ho hname (hl ▸ List.mem_cons_of_mem p hi) hx

omit [DecidableEq ο] hloose hq in
/-- The caller is not the primary owner. -/
theorem NameAt.primary_owner_ne : op.owner ≠ o.owner := by
  have hentry : w.entry p = some (op.owner, op.flags) := by rw [NameRegistry.entry, entryIn, hop, Option.map_some]
  exact fun heq => hne ((h.owner_eq_iff ho hname (hl ▸ List.mem_cons_self) hentry).mp heq)

/-- A request that replaces a primary owner which goes on waiting. -/
theorem requestUpdate_replace (hcount : 0 < (w.owners op.owner).nOwnerPrimaries)
    (hreplace : (hasFlag flags nameFlagReplaceExisting && hasFlag op.flags nameFlagAllowReplacement) = true)
    (hqueue : hasFlag op.flags nameFlagDoNotQueue = false) :
    ∃ users' w', nameRegistryRequestUpdate idle users w n id flags =
        (users', w', ⟨some n, some op.owner, some o.owner⟩, .success) ∧
      RequestEnds w w' n pins
        ((o.owner, flags) :: (op.owner, op.flags) :: OwnerQueue.without (rest.filterMap w.entry) o.owner) := by
  have hnodup := h.nodup
  rw [hl, List.nodup_cons] at hnodup
  have howner := h.primary_owner_ne ho hname hl hne hop
  obtain ⟨u, w', hupdate, hupdated⟩ := nameOwnershipUpdate_replace idle users flags h ho hname hloose hl hne hop
    hcount howner hreplace hqueue
  obtain ⟨users', w'', hend, hended⟩ := nameRegistryRequestUpdate_of_mem hupdate hupdated List.mem_cons_self
  have hp : entryIn (w.ownerships.insert id { o with flags := flags }) p = some (op.owner, op.flags) := by
    rw [entryIn, w.ownerships.find?_insert_of_ne hne, hop, Option.map_some]
  have hrest := filterMap_erase_eq_without (e := w.entry) hnodup.2 (h.owner_eq_iff_of_mem_tail ho hname hl)
  refine ⟨users', w'', hend, hended.requestEnds (by rw [hq]; rfl) rfl ?_ ?_ fun i hi =>
    isSome_of_isSome_insert ho hi⟩
  · rw [changePins, if_neg fun heq => howner (Option.some.inj heq)]
  · rw [List.filterMap_cons, entryIn_insert_self, List.filterMap_cons, hp,
      filterMap_entryIn_insert hnodup.2.not_mem_erase, ← hrest]
    rfl

/-- A request that replaces a primary owner which does not wait. -/
theorem requestUpdate_replaceDrop (hcount : 0 < (w.owners op.owner).nOwnerPrimaries)
    (hreplace : (hasFlag flags nameFlagReplaceExisting && hasFlag op.flags nameFlagAllowReplacement) = true)
    (hqueue : hasFlag op.flags nameFlagDoNotQueue = true) :
    ∃ users' w', nameRegistryRequestUpdate idle users w n id flags =
        (users', w', ⟨some n, some op.owner, some o.owner⟩, .success) ∧
      RequestEnds w w' n pins ((o.owner, flags) :: OwnerQueue.without (rest.filterMap w.entry) o.owner) := by
  have hnodup := h.nodup
  rw [hl, List.nodup_cons] at hnodup
  have howner := h.primary_owner_ne ho hname hl hne hop
  obtain ⟨u, w', hupdate, hupdated⟩ := nameOwnershipUpdate_replaceDrop idle users flags h ho hname hloose hl hne hop
    hcount howner hreplace hqueue
  obtain ⟨users', w'', hend, hended⟩ := nameRegistryRequestUpdate_of_mem hupdate hupdated List.mem_cons_self
  have hp : p ∉ id :: rest.erase id := by
    rw [List.mem_cons, not_or]
    exact ⟨hne, fun hin => hnodup.1 (List.mem_of_mem_erase hin)⟩
  have hrest := filterMap_erase_eq_without (e := w.entry) hnodup.2 (h.owner_eq_iff_of_mem_tail ho hname hl)
  refine ⟨users', w'', hend, hended.requestEnds (by rw [hq]; rfl) rfl ?_ ?_ fun i hi =>
    isSome_of_isSome_insert ho (isSome_of_isSome_erase hi)⟩
  · rw [changePins, if_neg fun heq => howner (Option.some.inj heq)]
  · rw [filterMap_entryIn_erase hp, List.filterMap_cons, entryIn_insert_self,
      filterMap_entryIn_insert hnodup.2.not_mem_erase, ← hrest]
    rfl

/-- A request that waits. -/
theorem requestUpdate_queue
    (hreplace : (hasFlag flags nameFlagReplaceExisting && hasFlag op.flags nameFlagAllowReplacement) = false)
    (hqueue : hasFlag flags nameFlagDoNotQueue = false) :
    ∃ users' w', nameRegistryRequestUpdate idle users w n id flags = (users', w', .init, .inQueue) ∧
      RequestEnds w w' n pins (if o.owner ∈ OwnerQueue.owners (rest.filterMap w.entry)
        then (op.owner, op.flags) :: OwnerQueue.reflag (rest.filterMap w.entry) o.owner flags
        else (op.owner, op.flags) :: rest.filterMap w.entry ++ [(o.owner, flags)]) := by
  have hnodup := h.nodup
  rw [hl, List.nodup_cons] at hnodup
  have howner := h.primary_owner_ne ho hname hl hne hop
  have hkey := h.owner_eq_iff_of_mem_tail ho hname hl
  have hp : entryIn (w.ownerships.insert id { o with flags := flags }) p = some (op.owner, op.flags) := by
    rw [entryIn, w.ownerships.find?_insert_of_ne hne, hop, Option.map_some]
  have hwaits : o.owner ∈ OwnerQueue.owners (rest.filterMap w.entry) ↔ id ∈ rest := by
    have hmem := h.mem_owners_iff ho hname
    rw [hq, hl, OwnerQueue.owners, List.map_cons, List.mem_cons, List.mem_cons, or_iff_right howner.symm,
      or_iff_right hne.symm] at hmem
    exact hmem
  obtain ⟨u, w', hupdate, hupdated⟩ := nameOwnershipUpdate_queue idle users flags h ho hname hloose hl hne hop
    hreplace hqueue
  by_cases hid : id ∈ rest
  · rw [if_pos hid] at hupdated
    obtain ⟨users', w'', hend, hended⟩ :=
      nameRegistryRequestUpdate_of_mem hupdate hupdated (List.mem_cons_of_mem p hid)
    rw [if_pos (hwaits.mpr hid)]
    refine ⟨users', w'', hend, hended.requestEnds (by rw [hq]; rfl) rfl ?_ ?_ fun i hi =>
      isSome_of_isSome_insert ho hi⟩
    · rw [changePins, if_pos rfl, Nat.add_zero]
    · have hreflag : rest.filterMap (entryIn (w.ownerships.insert id { o with flags := flags })) =
          OwnerQueue.reflag (rest.filterMap w.entry) o.owner flags := by
        refine filterMap_eq_reflag (fun i _ hi => ?_) (entryIn_insert_self _ _ _) (fun _ => ?_) hkey
        · rw [entryIn, w.ownerships.find?_insert_of_ne hi]
          rfl
        · rw [NameRegistry.entry, entryIn, ho]
          rfl
      rw [List.filterMap_cons, hp, hreflag]
  · rw [if_neg hid] at hupdated
    obtain ⟨users', w'', hend, hended⟩ :=
      nameRegistryRequestUpdate_of_mem hupdate hupdated (List.mem_append_right _ List.mem_cons_self)
    rw [if_neg fun hin => hid (hwaits.mp hin)]
    refine ⟨users', w'', hend, hended.requestEnds (by rw [hq]; rfl) rfl ?_ ?_ fun i hi =>
      isSome_of_isSome_insert ho hi⟩
    · rw [changePins, if_pos rfl, Nat.add_zero]
    · rw [List.filterMap_append, List.filterMap_cons, hp, List.filterMap_cons, entryIn_insert_self,
        filterMap_entryIn_insert hid]
      rfl

/-- A request that does not wait. -/
theorem requestUpdate_drop
    (hreplace : (hasFlag flags nameFlagReplaceExisting && hasFlag op.flags nameFlagAllowReplacement) = false)
    (hqueue : hasFlag flags nameFlagDoNotQueue = true) :
    ∃ users' w', nameRegistryRequestUpdate idle users w n id flags = (users', w', .init, .exists) ∧
      RequestEnds w w' n pins
        ((op.owner, op.flags) :: OwnerQueue.without (rest.filterMap w.entry) o.owner) := by
  have hnodup := h.nodup
  rw [hl, List.nodup_cons] at hnodup
  obtain ⟨u, w', hupdate, hupdated⟩ := nameOwnershipUpdate_drop idle users flags h ho hname hloose hl hne hop
    hreplace hqueue
  have hid : id ∉ p :: rest.erase id := by
    rw [List.mem_cons, not_or]
    exact ⟨hne.symm, hnodup.2.not_mem_erase⟩
  have hp : entryIn (w.ownerships.insert id { o with flags := flags }) p = some (op.owner, op.flags) := by
    rw [entryIn, w.ownerships.find?_insert_of_ne hne, hop, Option.map_some]
  obtain ⟨users', w'', hend, hended⟩ := nameRegistryRequestUpdate_of_not_mem hupdate hupdated hid
  have hrest := filterMap_erase_eq_without (e := w.entry) hnodup.2 (h.owner_eq_iff_of_mem_tail ho hname hl)
  refine ⟨users', w'', hend, hended.requestEnds (by rw [hq]; rfl) rfl ?_ ?_ fun i hi =>
    isSome_of_isSome_insert ho (isSome_of_isSome_erase hi)⟩
  · rw [changePins, if_pos rfl, Nat.add_zero]
  · rw [filterMap_entryIn_erase hid, List.filterMap_cons, hp, filterMap_entryIn_insert hnodup.2.not_mem_erase,
      ← hrest]
    rfl

end Other

/-- The end of a request refines the queue. -/
theorem nameRegistryRequestUpdate_spec (h : NameAt w n (pins + 1) loose) (ho : w.ownerships.find? id = some o)
    (hname : o.name = n) (hloose : loose = none ∨ loose = some id)
    (hcount : ∀ a, (nameQueue w n).primary = some a → 0 < (w.owners a).nOwnerPrimaries) :
    ∃ users' w', nameRegistryRequestUpdate idle users w n id flags =
        (users', w', nameChangeOf n (nameQueue w n).primary ((nameQueue w n).request o.owner flags).1.primary,
          ((nameQueue w n).request o.owner flags).2) ∧
      RequestEnds w w' n pins ((nameQueue w n).request o.owner flags).1 := by
  cases hl : w.ownershipList n with
  | nil =>
    have hq : nameQueue w n = [] := by rw [nameQueue, hl, List.filterMap_nil]
    rw [hq]
    exact requestUpdate_nil idle users flags h ho hname hl
  | cons p rest =>
    obtain ⟨op, hop, -, hq⟩ := h.nameQueue_cons hl
    have hcount' := hcount op.owner (by rw [hq]; rfl)
    rw [hq]
    by_cases hne : p = id
    · subst hne
      rw [ho] at hop
      cases hop
      have hkept : nameChangeOf n (OwnerQueue.primary ((o.owner, o.flags) :: rest.filterMap w.entry))
          (OwnerQueue.primary ((o.owner, flags) :: rest.filterMap w.entry)) = .init := if_pos rfl
      simp only [OwnerQueue.request, if_true, hkept]
      exact requestUpdate_already idle users flags h ho hname hloose hl
    · have howner := h.primary_owner_ne ho hname hl hne hop
      have hkept : ∀ q : OwnerQueue ο, nameChangeOf n (OwnerQueue.primary ((op.owner, op.flags) :: rest.filterMap w.entry))
          (OwnerQueue.primary ((op.owner, op.flags) :: q)) = .init := fun q => if_pos rfl
      have hmoved : ∀ q : OwnerQueue ο, nameChangeOf n (OwnerQueue.primary ((op.owner, op.flags) :: rest.filterMap w.entry))
          (OwnerQueue.primary ((o.owner, flags) :: q)) = ⟨some n, some op.owner, some o.owner⟩ :=
        fun q => if_neg fun heq => howner (Option.some.inj heq)
      cases hreplace : hasFlag flags nameFlagReplaceExisting && hasFlag op.flags nameFlagAllowReplacement with
      | true =>
        cases hqueue : hasFlag op.flags nameFlagDoNotQueue with
        | true =>
          simp only [OwnerQueue.request, if_neg howner, hreplace, hqueue, if_true, hmoved]
          exact requestUpdate_replaceDrop idle users flags h ho hname hloose hl hne hop hq hcount' hreplace hqueue
        | false =>
          simp only [OwnerQueue.request, if_neg howner, hreplace, hqueue, if_true, Bool.false_eq_true, if_false, hmoved]
          exact requestUpdate_replace idle users flags h ho hname hloose hl hne hop hq hcount' hreplace hqueue
      | false =>
        cases hqueue : hasFlag flags nameFlagDoNotQueue with
        | true =>
          simp only [OwnerQueue.request, if_neg howner, hreplace, hqueue, Bool.not_true, Bool.false_eq_true, if_false,
            hkept]
          exact requestUpdate_drop idle users flags h ho hname hloose hl hne hop hq hreplace hqueue
        | false =>
          have hwaits := requestUpdate_queue idle users flags h ho hname hloose hl hne hop hq hreplace hqueue
          simp only [OwnerQueue.request, if_neg howner, hreplace, hqueue, Bool.not_false, Bool.false_eq_true, if_false,
            if_true]
          split
          · next hin =>
            rw [if_pos hin] at hwaits
            rw [hkept]
            exact hwaits
          · next hout =>
            rw [if_neg hout] at hwaits
            rw [List.cons_append, hkept]
            exact hwaits

end Refines

section New

variable {x : Name} {a : ο} {user : Option Uid} {users users' : UserRegistry} {charge : UserCharge}

omit [DecidableEq ο] in
/-- A check that holds does nothing. -/
@[simp] theorem NameRegistry.check_true (w : NameRegistry ο) : w.check true = w := by
  simp [NameRegistry.check]

omit [DecidableEq ο] in
/-- Taking and dropping a reference changes nothing. -/
theorem nameUnref_nameRef (idle : Bytes → Bool) (hx : w.nameTree.find? n = some x) (hpos : 0 < x.nRefs) :
    nameUnref idle (nameRef w n) n = w := by
  have hne : x.nRefs + 1 ≠ 1 := by omega
  have hpos' : 0 < x.nRefs + 1 := Nat.succ_pos _
  rw [nameRef_eq hx, nameUnref, find?_setName]
  simp only [hpos, hpos', hne, decide_true, NameRegistry.check_true, if_false, NameRegistry.setName,
    SearchTree.insert_insert, Nat.add_sub_cancel]
  rw [w.nameTree.insert_of_find?_some hx]

/-- `name_ownership_free` on an ownership that was never linked. -/
theorem nameOwnershipFree_unlinked (idle : Bytes → Bool) (users : UserRegistry)
    (ho : w.ownerships.find? id = some o) (htree : w.ownershipOf o.owner o.name ≠ some id)
    (hlist : id ∉ w.ownershipList o.name) :
    nameOwnershipFree idle users w id =
      ((userChargeDeinit users o.charge).1,
        nameUnref idle { w with ownerships := w.ownerships.erase id } o.name) := by
  have hunlinked : (w.owners o.owner).ownershipTree.find? o.name ≠ some id := htree
  rw [nameOwnershipFree, ho]
  simp only [hlist, not_false_eq_true, decide_true, NameRegistry.check_true, if_neg hunlinked]
  rw [ownerships_nameUnref]
  exact congrArg _ (nameUnref_setOwnerships idle w o.name (w.ownerships.erase id))

/-- A new ownership that exceeds the quota leaves nothing behind but its charge, which is returned. -/
theorem nameOwnershipNew_quota (idle : Bytes → Bool) (h : NameAt w n pins none)
    (hx : w.nameTree.find? n = some x) (hfresh : w.ownerships.find? w.nextOwnership = none)
    (howned : w.ownershipOf a n = none)
    (hcharge : userCharge users user .init none userSlotObjects 1 = (users', charge, .quota)) :
    nameOwnershipNew idle users w a user n =
      ((userChargeDeinit users' charge).1, { w with nextOwnership := w.nextOwnership + 1 }, none) := by
  let w₁ : NameRegistry ο := { w with nextOwnership := w.nextOwnership + 1 }
  let w₂ := (nameRef w₁ n).setOwnership w.nextOwnership ⟨a, n, 0, charge⟩
  have hlist : w.nextOwnership ∉ w₂.ownershipList n := by
    intro hmem
    have hmem' : w.nextOwnership ∈ w.ownershipList n := (ownershipList_nameRef w₁ n n) ▸ hmem
    obtain ⟨-, o, ho, -⟩ := (h.queued _).mp hmem'
    rw [hfresh] at ho
    cases ho
  have htree : w₂.ownershipOf a n ≠ some w.nextOwnership := by
    have hsame : w₂.ownershipOf a n = w.ownershipOf a n := by
      simp only [w₂, NameRegistry.setOwnership, NameRegistry.ownershipOf]
      rw [nameRef_eq_with]
    rw [hsame, howned]
    exact (Option.some_ne_none _).symm
  have hfind : w₂.ownerships.find? w.nextOwnership = some ⟨a, n, 0, charge⟩ := SearchTree.find?_insert_self _ _ _
  have hback : { w₂ with ownerships := w₂.ownerships.erase w.nextOwnership } = nameRef w₁ n := by
    have herase : w₂.ownerships.erase w.nextOwnership = (nameRef w₁ n).ownerships :=
      SearchTree.erase_insert_of_find?_none _ (by rw [ownerships_nameRef]; exact hfresh) _
    rw [herase]
    rfl
  have hfree := nameOwnershipFree_unlinked idle users' hfind htree hlist
  rw [hback, nameUnref_nameRef idle (w := w₁) hx (h.live x hx)] at hfree
  rw [nameOwnershipNew, hcharge]
  exact congrArg (fun r : UserRegistry × NameRegistry ο => (r.1, r.2, none)) hfree

omit [DecidableEq ο] in
/-- A name that is referred to for a moment is left as it was: a new one is destroyed again, which only checks that no
rules are linked to it. -/
theorem nameUnref_nameRegistryRefName (idle : Bytes → Bool) (h : NameAt w n pins none) (next : ℕ) :
    nameUnref idle { nameRegistryRefName w n with nextOwnership := next } n =
      { w with
        nextOwnership := next
        assertFailed := w.assertFailed || ((w.nameTree.find? n).isNone && !idle n) } := by
  cases hx : w.nameTree.find? n with
  | some x =>
    have hsame : { nameRef w n with nextOwnership := next } = nameRef { w with nextOwnership := next } n := by
      rw [nameRef_eq hx, nameRef_eq (w := { w with nextOwnership := next }) hx]
      rfl
    have hback := nameUnref_nameRef idle (w := { w with nextOwnership := next }) hx (h.live x hx)
    rw [nameRegistryRefName, hx]
    simp only [Option.isNone_some, Bool.false_and, Bool.or_false]
    rw [hsame, hback]
  | none =>
    have herase : (w.nameTree.insert n .init).erase n = w.nameTree := SearchTree.erase_insert_of_find?_none _ hx _
    have hfind : (w.nameTree.insert n .init).find? n = some .init := SearchTree.find?_insert_self _ _ _
    have hempty : (Name.init.ownershipList.isEmpty && Name.init.activation.isNone && idle n) = idle n := Bool.true_and _
    have hone : Name.init.nRefs = 1 := rfl
    rw [nameRegistryRefName, hx, nameUnref]
    simp only [NameRegistry.setName, hfind]
    rw [if_pos hone, nameFree, hempty]
    simp only [NameRegistry.check, herase, Option.isNone_none, Bool.true_and]

/-- A new ownership within the quota is loose until the request is decided. -/
theorem nameOwnershipNew_success (idle : Bytes → Bool) (h : NameAt w n (pins + 1) none)
    (hfresh : w.ownerships.find? w.nextOwnership = none) (howned : w.ownershipOf a n = none)
    (hcharge : userCharge users user .init none userSlotObjects 1 = (users', charge, .success)) :
    ∃ w', nameOwnershipNew idle users w a user n = (users', w', some w.nextOwnership) ∧
      NameAt (nameOwnershipLink w' a n w.nextOwnership) n (pins + 1) (some w.nextOwnership) ∧
      OnlyName w (nameOwnershipLink w' a n w.nextOwnership) n ∧
      (nameOwnershipLink w' a n w.nextOwnership).ownershipList n = w.ownershipList n ∧
      w'.ownerships = w.ownerships.insert w.nextOwnership ⟨a, n, 0, charge⟩ ∧
      w'.counters = w.counters ∧ w'.nextOwnership = w.nextOwnership + 1 := by
  let w₁ : NameRegistry ο := { w with nextOwnership := w.nextOwnership + 1 }
  have h₁ : NameAt w₁ n (pins + 1) none := h.congr rfl (fun _ => rfl) fun _ _ _ => Iff.rfl
  obtain ⟨x, hx⟩ := h₁.exists_name (Nat.succ_pos pins)
  have howned' : (nameRef w₁ n).ownershipOf a n = none := by
    rw [nameRef_eq_with]
    exact howned
  have hfresh' : (nameRef w₁ n).ownerships.find? w.nextOwnership = none := by
    rw [ownerships_nameRef]
    exact hfresh
  refine ⟨(nameRef w₁ n).setOwnership w.nextOwnership ⟨a, n, 0, charge⟩, ?_, (h₁.ref hx).create hfresh' howned' charge,
    ?_, ownershipList_nameRef w₁ n n, ?_, counters_nameRef w₁ n, nextOwnership_nameRef w₁ n⟩
  · rw [nameOwnershipNew, hcharge]
  · have hset : OnlyName (nameRef w₁ n) ((nameRef w₁ n).setOwnership w.nextOwnership ⟨a, n, 0, charge⟩) n := by
      refine onlyName_setOwnership rfl fun o ho => ?_
      rw [hfresh'] at ho
      cases ho
    have hnext : OnlyName w w₁ n := ⟨fun _ _ => rfl, fun _ _ _ => rfl, fun _ _ _ => Iff.rfl⟩
    exact (hnext.trans (onlyName_nameRef w₁ n)).trans (hset.trans (onlyName_nameOwnershipLink _ a n _))
  · exact congrArg (SearchTree.insert · w.nextOwnership ⟨a, n, 0, charge⟩) (ownerships_nameRef w₁ n)

end New

section Whole

variable {a : ο} (idle : Bytes → Bool) (users : UserRegistry)

/-- Whether the user can pay for one more ownership. -/
def ownershipAdmitted (users : UserRegistry) (user : Option Uid) : Bool :=
  (userCharge users user .init none userSlotObjects 1).2.2 = .success

omit [DecidableEq ο] in
/-- Those in the queue have an ownership. -/
theorem NameAt.mem_owners_iff_ownershipOf (h : NameAt w n pins none) (a : ο) :
    a ∈ (nameQueue w n).owners ↔ ∃ id, w.ownershipOf a n = some id := by
  constructor
  · intro hmem
    obtain ⟨e, he, howner⟩ := List.mem_map.mp hmem
    obtain ⟨id, hid, hentry⟩ := List.mem_filterMap.mp he
    obtain ⟨o, ho, hname, hentry'⟩ := h.entry_of_mem hid
    rw [hentry'] at hentry
    cases hentry
    exact ⟨id, (h.owned a id).mpr ⟨o, ho, howner, hname⟩⟩
  · rintro ⟨id, hid⟩
    obtain ⟨o, ho, howner, hname⟩ := (h.owned a id).mp hid
    rw [← howner, h.mem_owners_iff ho hname]
    exact (h.queued id).mpr ⟨(Option.some_ne_none id).symm, o, ho, hname⟩

omit [DecidableEq ο] in
/-- Queues that list the same ownerships. -/
theorem nameQueue_eq_of_list (hlist : w'.ownershipList n = w.ownershipList n)
    (hheap : ∀ id ∈ w.ownershipList n, w'.ownerships.find? id = w.ownerships.find? id) :
    nameQueue w' n = nameQueue w n := by
  rw [nameQueue, nameQueue, hlist]
  refine List.filterMap_congr fun id hid => ?_
  rw [NameRegistry.entry, NameRegistry.entry, entryIn, entryIn, hheap id hid]

/-- The effect of a request that came to its end. -/
theorem RequestEnds.effect {w₀ : NameRegistry ο} {q : OwnerQueue ο} (h : RequestEnds w w' n pins q)
    (honly : OnlyName w₀ w n) (hqueue : nameQueue w n = nameQueue w₀ n) (hcounters : w.counters = w₀.counters)
    (hnext : w₀.nextOwnership ≤ w.nextOwnership)
    (hfresh : ∀ id, (w.ownerships.find? id).isSome →
      (w₀.ownerships.find? id).isSome ∨ w₀.nextOwnership ≤ id ∧ id < w.nextOwnership) :
    NameEffect w₀ w' n (pins + changePins (nameQueue w₀ n).primary q.primary) q := by
  obtain ⟨l, H, hupdated, hq, hold⟩ := h
  rw [hqueue] at hupdated
  refine ⟨hupdated.books, honly.trans hupdated.only, ?_, hcounters ▸ hupdated.counters, ?_, fun id hid => ?_⟩
  · rw [nameQueue, hupdated.list, NameRegistry.entry, hupdated.ownerships, hq]
  · rw [hupdated.next]
    exact hnext
  · rw [hupdated.ownerships] at hid
    rw [hupdated.next]
    exact hfresh id (hold id hid)

section Referenced

variable {w₁ : NameRegistry ο} {user : Option Uid} {flags : UInt32} (h : NameAt w₁ n (pins + 1) none)
variable (hfresh : w₁.ownerships.find? w₁.nextOwnership = none)
include h hfresh

omit hfresh in
/-- A request that exceeds the quota drops its reference again. -/
theorem nameEffect_quota :
    NameEffect w₁ (nameUnref idle { w₁ with nextOwnership := w₁.nextOwnership + 1 } n) n pins (nameQueue w₁ n) := by
  have hnext : NameAt { w₁ with nextOwnership := w₁.nextOwnership + 1 } n (pins + 1) none :=
    h.congr rfl (fun _ => rfl) fun _ _ _ => Iff.rfl
  have honly : OnlyName w₁ { w₁ with nextOwnership := w₁.nextOwnership + 1 } n :=
    ⟨fun _ _ => rfl, fun _ _ _ => rfl, fun _ _ _ => Iff.rfl⟩
  refine ⟨hnext.unref (Nat.succ_pos pins) idle, honly.trans (onlyName_nameUnref idle _ n), ?_, ?_, ?_, fun id hid => ?_⟩
  · refine nameQueue_eq_of_list (hnext.ownershipList_unref (Nat.succ_pos pins) idle) fun id _ => ?_
    rw [ownerships_nameUnref]
  · rw [counters_nameUnref]
    exact CountersMoved.refl _ _
  · rw [nextOwnership_nameUnref]
    exact Nat.le_succ _
  · rw [ownerships_nameUnref] at hid
    exact Or.inl hid

/-- A request that creates an ownership refines the queue. -/
theorem nameOwnershipNew_spec (howned : w₁.ownershipOf a n = none)
    (hcount : ∀ b, (nameQueue w₁ n).primary = some b → 0 < (w₁.owners b).nOwnerPrimaries) {users' : UserRegistry}
    {charge : UserCharge}
    (hcharge : userCharge users user .init none userSlotObjects 1 = (users', charge, .success)) :
    ∃ w₂ users'' w', nameOwnershipNew idle users w₁ a user n = (users', w₂, some w₁.nextOwnership) ∧
      nameRegistryRequestUpdate idle users' (nameOwnershipLink w₂ a n w₁.nextOwnership) n w₁.nextOwnership flags =
        (users'', w', nameChangeOf n (nameQueue w₁ n).primary ((nameQueue w₁ n).request a flags).1.primary,
          ((nameQueue w₁ n).request a flags).2) ∧
      NameEffect w₁ w' n (pins + changePins (nameQueue w₁ n).primary ((nameQueue w₁ n).request a flags).1.primary)
        ((nameQueue w₁ n).request a flags).1 := by
  obtain ⟨w₂, hnew, h₂, honly, hlist, hheap, hcounters, hnext⟩ :=
    nameOwnershipNew_success idle h hfresh howned hcharge
  have hheap' : (nameOwnershipLink w₂ a n w₁.nextOwnership).ownerships =
      w₁.ownerships.insert w₁.nextOwnership ⟨a, n, 0, charge⟩ := hheap
  have hcounters' : (nameOwnershipLink w₂ a n w₁.nextOwnership).counters = w₁.counters := by
    rw [← hcounters, NameRegistry.counters, NameRegistry.counters]
    refine congrArg _ (funext fun b => ?_)
    simp only [nameOwnershipLink, NameRegistry.setOwnershipTree]
    by_cases hb : b = a
    · rw [hb, Function.update_self]
    · rw [Function.update_of_ne hb]
  have hfind : (nameOwnershipLink w₂ a n w₁.nextOwnership).ownerships.find? w₁.nextOwnership =
      some ⟨a, n, 0, charge⟩ := by
    rw [hheap']
    exact w₁.ownerships.find?_insert_self _ _
  have hqueue : nameQueue (nameOwnershipLink w₂ a n w₁.nextOwnership) n = nameQueue w₁ n := by
    refine nameQueue_eq_of_list hlist fun id hid => ?_
    obtain ⟨o, ho, -⟩ := h.entry_of_mem hid
    have hne : id ≠ w₁.nextOwnership := by
      intro heq
      rw [heq, hfresh] at ho
      cases ho
    rw [hheap', w₁.ownerships.find?_insert_of_ne hne]
  have hcount' : ∀ b, (nameQueue (nameOwnershipLink w₂ a n w₁.nextOwnership) n).primary = some b →
      0 < ((nameOwnershipLink w₂ a n w₁.nextOwnership).owners b).nOwnerPrimaries := by
    intro b hb
    have hsame := congrFun (congrArg NameCounters.nOwnerPrimaries hcounters') b
    simp only [NameRegistry.counters] at hsame
    rw [hsame]
    exact hcount b (hqueue ▸ hb)
  obtain ⟨users'', w', hend, hends⟩ :=
    nameRegistryRequestUpdate_spec idle users' flags h₂ hfind rfl (Or.inr rfl) hcount'
  rw [hqueue] at hend hends
  refine ⟨w₂, users'', w', hnew, hend, hends.effect honly hqueue hcounters' ?_ fun id hid => ?_⟩
  · change w₁.nextOwnership ≤ w₂.nextOwnership
    omega
  · change (w₁.ownerships.find? id).isSome ∨ w₁.nextOwnership ≤ id ∧ id < w₂.nextOwnership
    rw [hheap', w₁.ownerships.find?_insert] at hid
    split at hid
    · right
      omega
    · exact Or.inl hid

end Referenced

/-- An effect after a reference was taken. -/
theorem NameEffect.after_refName {q : OwnerQueue ο} (h : NameEffect (nameRegistryRefName w n) w' n pins q) :
    NameEffect w w' n pins q := by
  have hqueue : nameQueue (nameRegistryRefName w n) n = nameQueue w n :=
    nameQueue_eq_of_list (ownershipList_nameRegistryRefName w n n) fun id _ => by
      rw [ownerships_nameRegistryRefName]
  refine ⟨h.books, (onlyName_nameRegistryRefName w n).trans h.only, h.queue, ?_, ?_, fun id hid => ?_⟩
  · have hcounters := h.counters
    rw [hqueue, counters_nameRegistryRefName] at hcounters
    exact hcounters
  · have hnext := h.next
    rw [nextOwnership_nameRegistryRefName] at hnext
    exact hnext
  · have hold := h.fresh id hid
    rw [nextOwnership_nameRegistryRefName, ownerships_nameRegistryRefName] at hold
    exact hold

/-- `name_registry_request_name` refines the queue of the name. -/
theorem nameRegistryRequestName_spec (a : ο) (user : Option Uid) (flags : UInt32) (h : NameAt w n pins none)
    (hfresh : ∀ id o, w.ownerships.find? id = some o → id < w.nextOwnership)
    (hcount : ∀ b, (nameQueue w n).primary = some b → 0 < (w.owners b).nOwnerPrimaries) :
    ∃ users' w', nameRegistryRequestName idle users w a user n flags =
        (users', w', nameChangeOf n (nameQueue w n).primary
          ((nameQueue w n).requestWithin (ownershipAdmitted users user) a flags).1.primary,
          ((nameQueue w n).requestWithin (ownershipAdmitted users user) a flags).2) ∧
      NameEffect w w' n (pins + changePins (nameQueue w n).primary
          ((nameQueue w n).requestWithin (ownershipAdmitted users user) a flags).1.primary)
        ((nameQueue w n).requestWithin (ownershipAdmitted users user) a flags).1 := by
  have h₁ : NameAt (nameRegistryRefName w n) n (pins + 1) none := h.refName
  have hqueue : nameQueue (nameRegistryRefName w n) n = nameQueue w n :=
    nameQueue_eq_of_list (ownershipList_nameRegistryRefName w n n) fun id _ => by
      rw [ownerships_nameRegistryRefName]
  have hcount₁ : ∀ b, (nameQueue (nameRegistryRefName w n) n).primary = some b →
      0 < ((nameRegistryRefName w n).owners b).nOwnerPrimaries := by
    intro b hb
    have hsame := congrFun (congrArg NameCounters.nOwnerPrimaries (counters_nameRegistryRefName w n)) b
    simp only [NameRegistry.counters] at hsame
    rw [hsame]
    exact hcount b (hqueue ▸ hb)
  have hfresh₁ : (nameRegistryRefName w n).ownerships.find? (nameRegistryRefName w n).nextOwnership = none := by
    rw [ownerships_nameRegistryRefName, nextOwnership_nameRegistryRefName]
    cases ho : w.ownerships.find? w.nextOwnership with
    | none => rfl
    | some o => exact absurd (hfresh _ o ho) (Nat.lt_irrefl _)
  have hmem := h₁.mem_owners_iff_ownershipOf a
  rw [hqueue] at hmem
  rw [nameRegistryRequestName]
  cases hown : (nameRegistryRefName w n).ownershipOf a n with
  | some id =>
    obtain ⟨o, ho, howner, hname⟩ := (h₁.owned a id).mp hown
    subst howner
    obtain ⟨users', w', hend, hends⟩ :=
      nameRegistryRequestUpdate_spec idle users flags h₁ ho hname (Or.inl rfl) hcount₁
    rw [hqueue] at hend hends
    have hwithin : (nameQueue w n).requestWithin (ownershipAdmitted users user) o.owner flags =
        (nameQueue w n).request o.owner flags := by
      rw [OwnerQueue.requestWithin, if_pos (by rw [decide_eq_true (hmem.mpr ⟨id, hown⟩), Bool.true_or])]
    rw [hwithin]
    refine ⟨users', w', ?_, ?_⟩
    · rw [NameRegistry.ownershipOf] at hown
      simp only [hown]
      exact hend
    · have heffect := hends.effect (OnlyName.refl _ n) rfl rfl (Nat.le_refl _) fun id hid => Or.inl hid
      rw [hqueue] at heffect
      exact heffect.after_refName
  | none =>
    have hout : a ∉ (nameQueue w n).owners := fun hin => by
      obtain ⟨id, hid⟩ := hmem.mp hin
      rw [hown] at hid
      cases hid
    have hfind := hown
    rw [NameRegistry.ownershipOf] at hfind
    simp only [hfind]
    rcases hcharge : userCharge users user .init none userSlotObjects 1 with ⟨users', charge, r⟩
    cases r with
    | success =>
      have hwithin : (nameQueue w n).requestWithin (ownershipAdmitted users user) a flags =
          (nameQueue w n).request a flags := by
        rw [OwnerQueue.requestWithin, ownershipAdmitted, hcharge, if_pos (by simp)]
      obtain ⟨w₂, users'', w', hnew, hend, heffect⟩ :=
        nameOwnershipNew_spec idle users h₁ hfresh₁ hown hcount₁ hcharge
      rw [hqueue] at hend heffect
      rw [hwithin, hnew]
      exact ⟨users'', w', hend, heffect.after_refName⟩
    | quota =>
      obtain ⟨x, hx⟩ := h₁.exists_name (Nat.succ_pos pins)
      have hwithin : (nameQueue w n).requestWithin (ownershipAdmitted users user) a flags =
          (nameQueue w n, .quota) := by
        rw [OwnerQueue.requestWithin, ownershipAdmitted, hcharge, if_neg (by simp [hout])]
      have heffect := nameEffect_quota idle h₁
      rw [hqueue] at heffect
      rw [hwithin, nameOwnershipNew_quota idle h₁ hx hfresh₁ hown hcharge]
      simp only [nameChangeOf, changePins, if_true, Nat.add_zero]
      exact ⟨_, _, rfl, heffect.after_refName⟩

end Whole

section Release

variable (idle : Bytes → Bool) (users : UserRegistry)

/-- An operation that has not begun. -/
theorem NameAt.unchanged (h : NameAt w n pins loose) (q : Option ο) :
    Updated w w n pins loose (w.ownershipList n) w.ownerships q q :=
  ⟨h, OnlyName.refl w n, rfl, rfl, CountersMoved.refl _ _, rfl⟩

/-- An ownership is taken off the queue. -/
theorem NameAt.unlink (h : NameAt w n pins none) (hid : id ∈ w.ownershipList n) (q : Option ο) :
    Updated w (w.setOwnershipList n ((w.ownershipList n).erase id)) n pins (some id) ((w.ownershipList n).erase id)
      w.ownerships q q := by
  have hlength := List.length_erase_of_mem hid
  have hpos := List.length_pos_of_mem hid
  refine (h.unchanged q).relist (some id) _ (by omega) (h.nodup.erase id) (fun i => ?_) (fun i hi => ?_) ?_
  · rw [h.nodup.mem_erase_iff, or_iff_left (Option.some_ne_none i).symm]
    simp [eq_comm]
  · cases hi
    exact Or.inl hid
  · simp only [Option.isSome_some, Option.isSome_none, if_true, Bool.false_eq_true, if_false]
    omega

/-- The effect of a release that came to its end. -/
theorem Updated.effect {a b : Option ο} {q : OwnerQueue ο} {k : ℕ}
    (h : Updated w w' n k none l (w.ownerships.erase id) a b) (ha : (nameQueue w n).primary = a)
    (hb : q.primary = b) (hq : l.filterMap (entryIn (w.ownerships.erase id)) = q) : NameEffect w w' n k q := by
  subst ha hb
  refine ⟨h.books, h.only, ?_, h.counters, Nat.le_of_eq h.next.symm, fun i hi => Or.inl ?_⟩
  · rw [nameQueue, h.list, NameRegistry.entry, h.ownerships, hq]
  · rw [h.ownerships] at hi
    exact isSome_of_isSome_erase hi

/-- The counters after a primary owner gave up a name, whoever comes next. -/
theorem Updated.succeedPrimary {H : SearchTree (compare : ℕ → ℕ → Ordering) (NameOwnership ο)} {a : ο}
    (h : Updated w w' n pins loose l H (some a) (some a)) (hlive : 0 < pins + l.length + if loose.isSome then 1 else 0)
    (hprimaries : 0 < w.nPrimaries) (ha : 0 < (w.owners a).nOwnerPrimaries) (b : Option ο) :
    b ≠ some a → Updated w (match b with
      | some b => (nameRef (w'.dropPrimary a) n).promotePrimary b
      | none => nameRef (w'.dropPrimary a) n) n (pins + 1) loose l H (some a) b := by
  intro hab
  have hdropped := (h.dropPrimary hprimaries ha).ref hlive
  cases b with
  | none => exact hdropped
  | some b =>
    have hsame : w'.nPrimaries = w.nPrimaries := Nat.add_right_cancel h.counters.primaries
    have hmoved := countersMoved_promotePrimary (w := w') (a := a) (b := b) (fun heq => hab (heq ▸ rfl))
      (by omega) (by rw [h.nOwnerPrimaries_eq]; exact ha)
    have hcounters : ((nameRef (w'.dropPrimary a) n).promotePrimary b).counters =
        ((w'.dropPrimary a).promotePrimary b).counters := by
      rw [nameRef_eq_with]
      rfl
    obtain ⟨hbooks, honly⟩ : NameAt ((nameRef (w'.dropPrimary a) n).promotePrimary b) _ _ _ ∧
        OnlyName _ ((nameRef (w'.dropPrimary a) n).promotePrimary b) _ := hdropped.books.setOwnerPrimaries rfl rfl
      (ownershipTree_setOwnerPrimaries (nameRef (w'.dropPrimary a) n) b _)
    refine ⟨hbooks, hdropped.only.trans honly, hdropped.list, hdropped.ownerships, ?_, hdropped.next⟩
    rw [hcounters]
    exact h.counters.trans hmoved

section Owned

variable (h : NameAt w n pins none) (ho : w.ownerships.find? id = some o) (hname : o.name = n)
include h ho hname

/-- The queue after an owner was taken off it and destroyed. -/
theorem NameAt.filterMap_erase :
    ((w.ownershipList n).erase id).filterMap (entryIn (w.ownerships.erase id)) =
      (nameQueue w n).without o.owner := by
  rw [filterMap_entryIn_erase h.nodup.not_mem_erase]
  exact filterMap_erase_eq_without (e := w.entry) h.nodup fun _ hi _ hx => h.owner_eq_iff ho hname hi hx

/-- `name_ownership_release` of a waiter. -/
theorem nameOwnershipRelease_waiter (hid : id ∈ w.ownershipList n) (hwaits : namePrimary w n ≠ some id) :
    ∃ users' w', nameOwnershipRelease idle users w id = (users', w', .init) ∧
      (nameQueue w n).primary = ((nameQueue w n).without o.owner).primary ∧
      NameEffect w w' n pins ((nameQueue w n).without o.owner) := by
  have hqueue := h.filterMap_erase ho hname
  have hunlinked := h.unlink hid (nameQueue w n).primary
  have hsame : (nameQueue w n).primary = ((nameQueue w n).without o.owner).primary := by
    rw [h.primary_eq, ← hqueue, OwnerQueue.primary, filterMap_entryIn_erase h.nodup.not_mem_erase]
    cases hl : w.ownershipList n with
    | nil => rw [hl] at hid; cases hid
    | cons p rest =>
      have hp : p ≠ id := fun heq => hwaits (by rw [namePrimary, hl, heq, List.head?_cons])
      obtain ⟨op, hop, -, hentry⟩ := h.entry_of_mem (hl ▸ List.mem_cons_self : p ∈ w.ownershipList n)
      rw [NameRegistry.entry] at hentry
      rw [namePrimary, hl, List.erase_cons, if_neg (by simpa using hp), List.filterMap_cons, hentry, List.head?_cons,
        List.head?_cons, Option.bind_some, NameRegistry.ownerOf, hop]
      rfl
  have hfreed := hunlinked.free idle users
  refine ⟨(nameOwnershipFree idle users (w.setOwnershipList n ((w.ownershipList n).erase id)) id).1, _, ?_, hsame,
    hfreed.effect rfl hsame.symm hqueue⟩
  subst hname
  rw [nameOwnershipRelease, ho]
  simp only [if_neg hwaits]

/-- `name_ownership_release` of the primary owner. -/
theorem nameOwnershipRelease_primary (hprimary : namePrimary w n = some id)
    (hprimaries : 0 < w.nPrimaries) (hcount : 0 < (w.owners o.owner).nOwnerPrimaries) :
    ∃ users' w', nameOwnershipRelease idle users w id =
        (users', w', ⟨some n, some o.owner, ((nameQueue w n).without o.owner).primary⟩) ∧
      NameEffect w w' n (pins + 1) ((nameQueue w n).without o.owner) := by
  have hid : id ∈ w.ownershipList n := List.mem_of_mem_head? hprimary
  have hfirst : (nameQueue w n).primary = some o.owner := by
    rw [h.primary_eq, hprimary, Option.bind_some, NameRegistry.ownerOf, ho, Option.map_some]
  have hqueue := h.filterMap_erase ho hname
  have hunlinked := h.unlink hid (some o.owner)
  have hsuccessor : (namePrimary ((w.setOwnershipList n ((w.ownershipList n).erase id)).dropPrimary o.owner) n).bind
      ((w.setOwnershipList n ((w.ownershipList n).erase id)).dropPrimary o.owner).ownerOf =
        ((nameQueue w n).without o.owner).primary := by
    refine hunlinked.books.primary_eq.symm.trans ?_
    rw [nameQueue, hunlinked.list, NameRegistry.entry, hunlinked.ownerships, ← hqueue,
      filterMap_entryIn_erase h.nodup.not_mem_erase]
  have hcounted := (hunlinked.succeedPrimary (by simp) hprimaries hcount ((nameQueue w n).without o.owner).primary
    (Ne.symm (OwnerQueue.primary_without_ne _ _))).free idle users
  have heffect := hcounted.effect hfirst rfl hqueue
  subst hname
  rw [nameOwnershipRelease, ho]
  simp only [if_pos hprimary]
  simp only [hsuccessor]
  exact ⟨_, _, rfl, heffect⟩

end Owned

/-- `name_ownership_release` takes an owner off the queue of the name. -/
theorem nameOwnershipRelease_spec (h : NameAt w n pins none) (ho : w.ownerships.find? id = some o)
    (hname : o.name = n) (hcount : ∀ b, (nameQueue w n).primary = some b →
      0 < w.nPrimaries ∧ 0 < (w.owners b).nOwnerPrimaries) :
    ∃ users' w', nameOwnershipRelease idle users w id =
        (users', w', nameChangeOf n (nameQueue w n).primary ((nameQueue w n).without o.owner).primary) ∧
      NameEffect w w' n
        (pins + changePins (nameQueue w n).primary ((nameQueue w n).without o.owner).primary)
        ((nameQueue w n).without o.owner) := by
  have hid : id ∈ w.ownershipList n := (h.queued id).mpr ⟨(Option.some_ne_none id).symm, o, ho, hname⟩
  by_cases hprimary : namePrimary w n = some id
  · have hfirst : (nameQueue w n).primary = some o.owner := by
      rw [h.primary_eq, hprimary, Option.bind_some, NameRegistry.ownerOf, ho, Option.map_some]
    obtain ⟨hprimaries, howner⟩ := hcount o.owner hfirst
    obtain ⟨users', w', hrelease, heffect⟩ :=
      nameOwnershipRelease_primary idle users h ho hname hprimary hprimaries howner
    have hne : some o.owner ≠ ((nameQueue w n).without o.owner).primary := OwnerQueue.primary_without_ne _ _
    rw [hfirst, nameChangeOf, changePins, if_neg hne, if_neg hne]
    exact ⟨users', w', hrelease, heffect⟩
  · obtain ⟨users', w', hrelease, hsame, heffect⟩ :=
      nameOwnershipRelease_waiter idle users h ho hname hid hprimary
    rw [nameChangeOf, changePins, if_pos hsame, if_pos hsame]
    exact ⟨users', w', hrelease, heffect⟩

/-- An operation that does nothing. -/
theorem NameAt.effect_refl (h : NameAt w n pins none) : NameEffect w w n pins (nameQueue w n) :=
  ⟨h, OnlyName.refl w n, rfl, CountersMoved.refl _ _, Nat.le_refl _, fun _ hid => Or.inl hid⟩

omit [DecidableEq ο] in
/-- A name without a primary owner has an empty queue. -/
theorem NameAt.namePrimary_eq_none_iff (h : NameAt w n pins loose) :
    namePrimary w n = none ↔ nameQueue w n = [] := by
  rw [namePrimary]
  cases hl : w.ownershipList n with
  | nil => simp [nameQueue, hl]
  | cons p rest =>
    obtain ⟨op, -, -, hq⟩ := h.nameQueue_cons hl
    simp [hq]

/-- `name_registry_release_name` refines the queue of the name. -/
theorem nameRegistryReleaseName_spec (a : ο) (h : NameAt w n pins none)
    (hcount : ∀ b, (nameQueue w n).primary = some b → 0 < w.nPrimaries ∧ 0 < (w.owners b).nOwnerPrimaries) :
    ∃ users' w', nameRegistryReleaseName idle users w a n =
        (users', w', nameChangeOf n (nameQueue w n).primary ((nameQueue w n).release a).1.primary,
          ((nameQueue w n).release a).2) ∧
      NameEffect w w' n (pins + changePins (nameQueue w n).primary ((nameQueue w n).release a).1.primary)
        ((nameQueue w n).release a).1 := by
  have hmem := h.mem_owners_iff_ownershipOf a
  rw [nameRegistryReleaseName, OwnerQueue.release]
  cases hprimary : namePrimary w n with
  | none =>
    rw [if_pos (h.namePrimary_eq_none_iff.mp hprimary)]
    simp only [nameChangeOf, changePins, if_true, Nat.add_zero]
    exact ⟨users, w, rfl, h.effect_refl⟩
  | some p =>
    have hne : nameQueue w n ≠ [] := fun hnil => by
      rw [h.namePrimary_eq_none_iff.mpr hnil] at hprimary
      cases hprimary
    rw [if_neg hne]
    cases hown : w.ownershipOf a n with
    | none =>
      have hout : a ∉ (nameQueue w n).owners := fun hin => by
        obtain ⟨id, hid⟩ := hmem.mp hin
        rw [hown] at hid
        cases hid
      rw [NameRegistry.ownershipOf] at hown
      rw [if_neg hout]
      simp only [hown, nameChangeOf, changePins, if_true, Nat.add_zero]
      exact ⟨users, w, rfl, h.effect_refl⟩
    | some id =>
      obtain ⟨o, ho, howner, hname⟩ := (h.owned a id).mp hown
      obtain ⟨users', w', hrelease, heffect⟩ := nameOwnershipRelease_spec idle users h ho hname hcount
      rw [howner] at hrelease heffect
      rw [if_pos (hmem.mpr ⟨id, hown⟩)]
      rw [NameRegistry.ownershipOf] at hown
      simp only [hown, hrelease]
      exact ⟨users', w', rfl, heffect⟩

end Release

end Request

end DbusBroker
