import DbusBroker.Bus.NameRequest
import DbusBroker.Lib.Run
import DbusBroker.Util.UserAccounts

/-!
# Runs of the name registry

The name registry seen from its callers: peers request and release names and leave, and
other objects hold references on names. Between two calls anything can happen to the quotas
of the users. In every run the queues of the registry are the queues of the specification,
and the trees, the queues and the counters agree.
-/

namespace DbusBroker

open Std Machine

namespace OwnerQueue

variable {ο : Type}

/-- Nobody who waits asked not to. -/
def Patient (q : OwnerQueue ο) : Prop := ∀ e ∈ q.tail, hasFlag e.2 nameFlagDoNotQueue = false

variable [DecidableEq ο] {q : OwnerQueue ο}

/-- Those who wait after somebody left did so before. -/
theorem mem_tail_of_mem_tail_without {o : ο} {e : ο × UInt32} (he : e ∈ (q.without o).tail) : e ∈ q.tail := by
  cases q with
  | nil => exact absurd he List.not_mem_nil
  | cons first rest =>
    rw [without, List.filter_cons] at he
    split at he
    · exact List.mem_of_mem_filter he
    · exact List.mem_of_mem_filter (List.mem_of_mem_tail he)

/-- Leaving keeps the others patient. -/
theorem Patient.without (h : q.Patient) (o : ο) : (q.without o).Patient :=
  fun e he => h e (mem_tail_of_mem_tail_without he)

/-- A request adds nobody to those who wait but the old primary owner, unless it asked not to, and
the caller under the same condition. -/
theorem Patient.request (h : q.Patient) (o : ο) (flags : UInt32) : (q.request o flags).1.Patient := by
  cases q with
  | nil => exact fun e he => absurd he List.not_mem_nil
  | cons first rest =>
    obtain ⟨p, pflags⟩ := first
    have hrest : ∀ e ∈ rest, hasFlag e.2 nameFlagDoNotQueue = false := h
    have hwithout : ∀ e ∈ OwnerQueue.without rest o, hasFlag e.2 nameFlagDoNotQueue = false :=
      fun e he => hrest e (List.mem_of_mem_filter he)
    simp only [OwnerQueue.request]
    split
    · exact hrest
    · split
      · split
        · exact hwithout
        · next hdrop =>
          intro e he
          rcases List.mem_cons.mp he with rfl | hin
          · exact Bool.eq_false_iff.mpr hdrop
          · exact hwithout e hin
      · split
        · next hwait =>
          have hflags : hasFlag flags nameFlagDoNotQueue = false := by simpa using hwait
          split
          · intro e he
            obtain ⟨e', he', rfl⟩ := List.mem_map.mp he
            split
            · exact hflags
            · exact hrest e' he'
          · intro e he
            rcases List.mem_append.mp he with hin | hin
            · exact hrest e hin
            · rw [List.mem_singleton.mp hin]
              exact hflags
        · exact hwithout

/-- A request within a quota keeps those who wait patient. -/
theorem Patient.requestWithin (h : q.Patient) (admitted : Bool) (o : ο) (flags : UInt32) :
    (q.requestWithin admitted o flags).1.Patient := by
  rw [OwnerQueue.requestWithin]
  split
  · exact h.request o flags
  · exact h

/-- A release keeps those who wait patient. -/
theorem Patient.release (h : q.Patient) (o : ο) : (q.release o).1.Patient := by
  rw [OwnerQueue.release]
  split
  · exact h
  · split
    · exact h.without o
    · exact h

/-- Somebody who left cannot leave again. -/
theorem without_without (q : OwnerQueue ο) (o : ο) : (q.without o).without o = q.without o := by
  rw [without, without, List.filter_filter]
  simp

/-- Other flags of somebody do not matter to everybody else. -/
theorem without_reflag (q : OwnerQueue ο) (o : ο) (flags : UInt32) :
    (q.reflag o flags).without o = q.without o := by
  induction q with
  | nil => rfl
  | cons e rest ih =>
    rw [reflag, without, without] at *
    rw [List.map_cons]
    by_cases he : e.1 = o
    · rw [if_pos he, List.filter_cons_of_neg (by simp), List.filter_cons_of_neg (by simp [he])]
      exact ih
    · rw [if_neg he, List.filter_cons_of_pos (by simp [he]), List.filter_cons_of_pos (by simp [he]), ih]

/-- A request keeps the order of everybody else; only a primary owner that does not wait can leave. -/
theorem without_request_sublist (q : OwnerQueue ο) (o : ο) (flags : UInt32) :
    ((q.request o flags).1.without o).Sublist (q.without o) := by
  cases q with
  | nil => simp [request, without]
  | cons first rest =>
    obtain ⟨p, pflags⟩ := first
    have hself : ∀ l : OwnerQueue ο, without ((o, flags) :: l) o = l.without o := fun l => by
      rw [without, List.filter_cons_of_neg (by simp)]
      rfl
    simp only [OwnerQueue.request]
    by_cases hp : p = o
    · rw [if_pos hp, hself, ← hp, without, without, List.filter_cons_of_neg (by simp)]
    · have hcons : ∀ l : OwnerQueue ο, without ((p, pflags) :: l) o = (p, pflags) :: l.without o := fun l => by
        rw [without, List.filter_cons_of_pos (by simpa using hp)]
        rfl
      rw [if_neg hp, hcons]
      split
      · split
        · rw [hself, without_without]
          exact List.sublist_cons_self _ _
        · rw [hself, hcons, without_without]
      · split
        · split
          · rw [hcons, without_reflag]
          · rw [List.cons_append, hcons]
            simp [without]
        · rw [hcons, without_without]

/-- A request within a quota keeps the order of everybody else. -/
theorem without_requestWithin_sublist (q : OwnerQueue ο) (admitted : Bool) (o : ο) (flags : UInt32) :
    ((q.requestWithin admitted o flags).1.without o).Sublist (q.without o) := by
  rw [requestWithin]
  split
  · exact without_request_sublist q o flags
  · exact List.Sublist.refl _

/-- A release keeps everybody else. -/
theorem without_release (q : OwnerQueue ο) (o : ο) : (q.release o).1.without o = q.without o := by
  rw [release]
  split
  · rfl
  · split
    · exact without_without q o
    · rfl

end OwnerQueue

section Books

variable {ο : Type} {w w' : NameRegistry ο} {held : Bytes → ℕ} {n : Bytes} {pins : ℕ}

/-- The number of names whose primary owner is counted by `f`. -/
def NameRegistry.primaries (w : NameRegistry ο) (f : Option ο → ℕ) : ℕ :=
  w.nameTree.total fun n _ => f (nameQueue w n).primary

/-- The primary owner of a name weighs what is counted of it. -/
theorem weightAt_primary {f : Option ο → ℕ} (hf : f none = 0) (w : NameRegistry ο) (n : Bytes) :
    w.nameTree.weightAt (fun n _ => f (nameQueue w n).primary) n = f (nameQueue w n).primary := by
  rw [SearchTree.weightAt]
  cases hx : w.nameTree.find? n with
  | some x => rfl
  | none =>
    have hnil : nameQueue w n = [] := by rw [nameQueue, NameRegistry.ownershipList, hx, List.filterMap_nil]
    rw [hnil]
    exact hf.symm

variable [DecidableEq ο]

/-- The books of the registry, with the references held outside of the queues. -/
structure NameBooks (w : NameRegistry ο) (held : Bytes → ℕ) : Prop where
  names : ∀ n, NameAt w n (held n) none
  fresh : ∀ id o, w.ownerships.find? id = some o → id < w.nextOwnership
  patient : ∀ n, (nameQueue w n).Patient
  nPrimaries : w.nPrimaries = w.primaries fun p => if p.isSome then 1 else 0
  nOwnerPrimaries : ∀ a, (w.owners a).nOwnerPrimaries = w.primaries fun p => if p = some a then 1 else 0
  bounded : w.counters.Bounded

/-- The empty registry. -/
theorem nameBooks_init : NameBooks (NameRegistry.init : NameRegistry ο) fun _ => 0 := by
  refine ⟨fun n => ⟨List.nodup_nil, fun id => ?_, fun id hid => ?_, fun a id => ?_, rfl, fun x hx => ?_⟩,
    fun id o ho => ?_, fun n e he => ?_, rfl, fun a => rfl, Nat.le_refl 0, fun a => Nat.le_refl 0⟩
  · exact ⟨fun hid => absurd hid List.not_mem_nil, fun ⟨_, o, ho, _⟩ => by cases ho⟩
  · cases hid
  · exact ⟨fun hid => (by cases hid), fun ⟨o, ho, _⟩ => (by cases ho)⟩
  · cases hx
  · cases ho
  · exact absurd he List.not_mem_nil

/-- The primary owners after an operation on one name. -/
theorem NameBooks.primaries_effect {q : OwnerQueue ο} (h : NameBooks w held) (he : NameEffect w w' n pins q)
    {f : Option ο → ℕ} (hf : f none = 0) :
    w'.primaries f + f (nameQueue w n).primary = w.primaries f + f q.primary := by
  have htotal := SearchTree.total_of_eq_off w.nameTree (f := fun n _ => f (nameQueue w n).primary)
    (g := fun n _ => f (nameQueue w' n).primary) he.only.names fun n' _ hn _ => by
      rw [he.only.nameQueue (h.names n') hn]
  rw [weightAt_primary hf, weightAt_primary hf, he.queue] at htotal
  exact htotal

/-- A counted primary owner. -/
theorem NameBooks.counted (h : NameBooks w held) {a : ο} (ha : (nameQueue w n).primary = some a) :
    0 < w.nPrimaries ∧ 0 < (w.owners a).nOwnerPrimaries := by
  have hpos : ∀ f : Option ο → ℕ, f none = 0 → f (some a) = 1 → 0 < w.primaries f := by
    intro f hnone hone
    have hweight := weightAt_primary hnone w n
    have hle := SearchTree.total_erase (fun n _ => f (nameQueue w n).primary) w.nameTree n
    rw [hweight, ha, hone] at hle
    rw [NameRegistry.primaries]
    omega
  rw [h.nPrimaries, h.nOwnerPrimaries a]
  exact ⟨hpos _ rfl rfl, hpos _ rfl (if_pos rfl)⟩

/-- An operation on one name keeps the books. -/
theorem NameBooks.effect {q : OwnerQueue ο} (h : NameBooks w held) (he : NameEffect w w' n pins q) (hq : q.Patient) :
    NameBooks w' (Function.update held n pins) := by
  refine ⟨fun n' => ?_, fun id o ho => ?_, fun n' => ?_, ?_, fun a => ?_, he.counters.bounded h.bounded⟩
  · by_cases hn : n' = n
    · rw [hn, Function.update_self]
      exact he.books
    · rw [Function.update_of_ne hn]
      exact he.only.nameAt hn (h.names n')
  · rcases he.fresh id (Option.isSome_of_eq_some ho) with hold | ⟨-, hlt⟩
    · obtain ⟨o', ho'⟩ := Option.isSome_iff_exists.mp hold
      exact Nat.lt_of_lt_of_le (h.fresh id o' ho') he.next
    · exact hlt
  · by_cases hn : n' = n
    · rw [hn, he.queue]
      exact hq
    · rw [he.only.nameQueue (h.names n') hn]
      exact h.patient n'
  · have hmoved : w'.nPrimaries + _ = w.nPrimaries + _ := he.counters.primaries
    have hcount := h.primaries_effect he (f := fun p => if p.isSome then 1 else 0) rfl
    rw [h.nPrimaries] at hmoved
    omega
  · have hmoved : (w'.owners a).nOwnerPrimaries + _ = (w.owners a).nOwnerPrimaries + _ := he.counters.owners a
    have hcount := h.primaries_effect he (f := fun p => if p = some a then 1 else 0) rfl
    rw [h.nOwnerPrimaries] at hmoved
    omega

/-- A reference is taken. -/
theorem NameAt.effect_refName (h : NameAt w n pins none) :
    NameEffect w (nameRegistryRefName w n) n (pins + 1) (nameQueue w n) :=
  NameEffect.after_refName (by
    have hqueue : nameQueue (nameRegistryRefName w n) n = nameQueue w n :=
      nameQueue_eq_of_list (ownershipList_nameRegistryRefName w n n) fun id _ => by
        rw [ownerships_nameRegistryRefName]
    rw [← hqueue]
    exact h.refName.effect_refl)

/-- A reference is dropped. -/
theorem NameAt.effect_unref (h : NameAt w n pins none) (hpins : 0 < pins) (idle : Bytes → Bool) :
    NameEffect w (nameUnref idle w n) n (pins - 1) (nameQueue w n) := by
  refine ⟨h.unref hpins idle, onlyName_nameUnref idle w n, ?_, ?_, ?_, fun id hid => Or.inl ?_⟩
  · refine nameQueue_eq_of_list (h.ownershipList_unref hpins idle) fun id _ => ?_
    rw [ownerships_nameUnref]
  · rw [counters_nameUnref]
    exact CountersMoved.refl _ _
  · rw [nextOwnership_nameUnref]
  · rw [ownerships_nameUnref] at hid
    exact hid

end Books

/-- The name registry with what is around it: the users that pay for ownerships, the references that
others hold, which names have no match rules, and the results returned so far. -/
structure NameWorld (ο : Type) where
  users : UserRegistry
  names : NameRegistry ο
  held : Bytes → ℕ
  idle : Bytes → Bool
  results : List NameResult

/-- A call of the name registry, or something that happens around it. -/
inductive NameOp (ο : Type) where
  | request (owner : ο) (user : Option Uid) (name : Bytes) (flags : UInt32)
  | release (owner : ο) (name : Bytes)
  | releaseOwnership (id : ℕ)
  | disconnect (owner : ο)
  | refName (name : Bytes)
  | unref (name : Bytes)
  | other (users : UserRegistry) (idle : Bytes → Bool)

namespace NameWorld

variable {ο : Type}

/-- The reference that a record of a change holds is handed to the caller. -/
def hold (held : Bytes → ℕ) (change : NameChange ο) : Bytes → ℕ :=
  match change.name with
  | some n => Function.update held n (held n + 1)
  | none => held

/-- Nothing is requested yet. -/
def init (users : UserRegistry) : NameWorld ο := ⟨users, .init, fun _ => 0, fun _ => true, []⟩

variable [DecidableEq ο]

/-- `name_ownership_release` by the caller that holds the ownership. -/
def releaseOwnership (s : NameWorld ο) (id : ℕ) : NameWorld ο :=
  let (users, names, change) := nameOwnershipRelease s.idle s.users s.names id
  { s with users := users, names := names, held := hold s.held change }

/-- One call. Only references that are held are dropped, and an owner that leaves releases
every ownership in its tree. -/
def step (s : NameWorld ο) : NameOp ο → NameWorld ο
  | .request owner user name flags =>
    let (users, names, change, r) := nameRegistryRequestName s.idle s.users s.names owner user name flags
    { s with users := users, names := names, held := hold s.held change, results := s.results ++ [r] }
  | .release owner name =>
    let (users, names, change, r) := nameRegistryReleaseName s.idle s.users s.names owner name
    { s with users := users, names := names, held := hold s.held change, results := s.results ++ [r] }
  | .releaseOwnership id => s.releaseOwnership id
  | .disconnect owner => (s.names.owners owner).ownershipTree.values.foldl releaseOwnership s
  | .refName name =>
    { s with names := nameRegistryRefName s.names name, held := Function.update s.held name (s.held name + 1) }
  | .unref name =>
    if 0 < s.held name then
      { s with names := nameUnref s.idle s.names name, held := Function.update s.held name (s.held name - 1) }
    else s
  | .other users idle => { s with users := users, idle := idle }

end NameWorld

/-- The queues of all names, with the results returned so far. -/
structure QueueWorld (ο : Type) where
  queues : Bytes → OwnerQueue ο
  results : List NameResult

/-- What happens to the queues. -/
inductive QueueOp (ο : Type) where
  | request (owner : ο) (name : Bytes) (flags : UInt32) (admitted : Bool)
  | release (owner : ο) (name : Bytes)
  | withdraw (owner : ο) (name : Bytes)
  | leave (owner : ο)
  | nothing

namespace QueueWorld

variable {ο : Type}

/-- Nobody wants anything. -/
def init : QueueWorld ο := ⟨fun _ => [], []⟩

variable [DecidableEq ο]

/-- The new queue of one name and the result of the call. -/
def answer (s : QueueWorld ο) (name : Bytes) (qr : OwnerQueue ο × NameResult) : QueueWorld ο :=
  ⟨Function.update s.queues name qr.1, s.results ++ [qr.2]⟩

/-- One event. -/
def step (s : QueueWorld ο) : QueueOp ο → QueueWorld ο
  | .request owner name flags admitted => s.answer name ((s.queues name).requestWithin admitted owner flags)
  | .release owner name => s.answer name ((s.queues name).release owner)
  | .withdraw owner name => { s with queues := Function.update s.queues name ((s.queues name).without owner) }
  | .leave owner => { s with queues := fun name => (s.queues name).without owner }
  | .nothing => s

end QueueWorld

namespace NameWorld

variable {ο : Type}

/-- The queues in the registry. -/
def view (s : NameWorld ο) : QueueWorld ο := ⟨nameQueue s.names, s.results⟩

/-- What a call means for the queues. -/
def specOp (s : NameWorld ο) : NameOp ο → QueueOp ο
  | .request owner user name flags => .request owner name flags (ownershipAdmitted s.users user)
  | .release owner name => .release owner name
  | .releaseOwnership id =>
    match s.names.ownerships.find? id with
    | some ownership => .withdraw ownership.owner ownership.name
    | none => .nothing
  | .disconnect owner => .leave owner
  | .refName _ | .unref _ | .other _ _ => .nothing

/-- The one whose place in the queues an event is about. -/
def actor : QueueOp ο → Option ο
  | .request owner _ _ _ | .release owner _ | .withdraw owner _ | .leave owner => some owner
  | .nothing => none

variable [DecidableEq ο]

/-- What a run means for the queues. -/
def specOps (s : NameWorld ο) : List (NameOp ο) → List (QueueOp ο)
  | [] => []
  | op :: ops => s.specOp op :: specOps (s.step op) ops

/-- The registry is in order. -/
def Books (s : NameWorld ο) : Prop := NameBooks s.names s.held

/-- A step keeps the books, follows the queues and lowers no peak. -/
structure Follows (s s' : NameWorld ο) (e : QueueOp ο) : Prop where
  books : s'.Books
  view : s'.view = s.view.step e
  primariesPeak : s.names.nPrimariesPeak ≤ s'.names.nPrimariesPeak
  ownersPeak : s.names.nOwnerPrimariesPeak ≤ s'.names.nOwnerPrimariesPeak

variable {s s' : NameWorld ο} {n : Bytes} {pins : ℕ} {q : OwnerQueue ο}

/-- The queues after an operation on one name. -/
theorem nameQueue_effect {w w' : NameRegistry ο} {held : Bytes → ℕ} (h : NameBooks w held)
    (he : NameEffect w w' n pins q) : nameQueue w' = Function.update (nameQueue w) n q := by
  funext n'
  by_cases hn : n' = n
  · rw [hn, Function.update_self, he.queue]
  · rw [Function.update_of_ne hn, he.only.nameQueue (h.names n') hn]

/-- The references after a call that may have returned a record of a change. -/
theorem hold_nameChangeOf (held : Bytes → ℕ) (n : Bytes) (p p' : Option ο) :
    hold held (nameChangeOf n p p') = Function.update held n (held n + changePins p p') := by
  rw [nameChangeOf, changePins]
  split
  · exact (Function.update_eq_self n held).symm
  · rfl

/-- An operation on one name is a step. -/
theorem Books.follows_effect (h : s.Books) (he : NameEffect s.names s'.names n pins q) (hq : q.Patient)
    (hheld : s'.held = Function.update s.held n pins) {e : QueueOp ο}
    (hview : (⟨Function.update s.view.queues n q, s'.results⟩ : QueueWorld ο) = s.view.step e) :
    Follows s s' e := by
  refine ⟨?_, ?_, he.counters.primariesPeak, he.counters.ownersPeak⟩
  · rw [Books, hheld]
    exact NameBooks.effect h he hq
  · rw [← hview, NameWorld.view, nameQueue_effect h he]
    rfl

/-- An operation that changes no queue is a step. -/
theorem Books.follows_nothing (h : s.Books) (he : NameEffect s.names s'.names n pins (nameQueue s.names n))
    (hheld : s'.held = Function.update s.held n pins) (hresults : s'.results = s.results) :
    Follows s s' .nothing := by
  refine h.follows_effect he (NameBooks.patient h n) hheld ?_
  rw [hresults]
  exact congrArg (QueueWorld.mk · s.results) (Function.update_eq_self n (nameQueue s.names))

/-- A request is a step. -/
theorem Books.follows_request (h : s.Books) (owner : ο) (user : Option Uid) (name : Bytes) (flags : UInt32) :
    Follows s (s.step (.request owner user name flags))
      (.request owner name flags (ownershipAdmitted s.users user)) := by
  obtain ⟨users', w', hrequest, heffect⟩ := nameRegistryRequestName_spec s.idle s.users owner user flags
    (NameBooks.names h name) (NameBooks.fresh h) fun b hb => (NameBooks.counted h hb).2
  rw [step, hrequest]
  refine h.follows_effect heffect ((NameBooks.patient h name).requestWithin _ owner flags) ?_ rfl
  exact hold_nameChangeOf s.held name _ _

/-- A release is a step. -/
theorem Books.follows_release (h : s.Books) (owner : ο) (name : Bytes) :
    Follows s (s.step (.release owner name)) (.release owner name) := by
  obtain ⟨users', w', hrelease, heffect⟩ := nameRegistryReleaseName_spec s.idle s.users owner
    (NameBooks.names h name) fun b hb => NameBooks.counted h hb
  rw [step, hrelease]
  refine h.follows_effect heffect ((NameBooks.patient h name).release owner) ?_ rfl
  exact hold_nameChangeOf s.held name _ _

/-- The release of a live ownership is a step. -/
theorem Books.follows_releaseOwnership (h : s.Books) {id : ℕ} {o : NameOwnership ο}
    (ho : s.names.ownerships.find? id = some o) :
    Follows s (s.releaseOwnership id) (.withdraw o.owner o.name) ∧
      OnlyName s.names (s.releaseOwnership id).names o.name := by
  obtain ⟨users', w', hrelease, heffect⟩ := nameOwnershipRelease_spec s.idle s.users
    (NameBooks.names h o.name) ho rfl fun b hb => NameBooks.counted h hb
  rw [releaseOwnership, hrelease]
  refine ⟨h.follows_effect heffect ((NameBooks.patient h o.name).without o.owner) ?_ rfl, heffect.only⟩
  exact hold_nameChangeOf s.held o.name _ _

/-- The state of an owner that is about to release some ownerships. -/
def Releasing (s : NameWorld ο) (owner : ο) (entries : List (Bytes × ℕ)) : Prop :=
  (entries.map Prod.fst).Nodup ∧
    ∀ e ∈ entries, ∃ o, s.names.ownerships.find? e.2 = some o ∧ o.owner = owner ∧ o.name = e.1

/-- An owner that leaves is taken off the queue of every name it released. -/
theorem Books.follows_releasing (h : s.Books) {owner : ο} {entries : List (Bytes × ℕ)}
    (hentries : s.Releasing owner entries) :
    ∀ s', (entries.map Prod.snd).foldl releaseOwnership s = s' → s'.Books ∧ s'.results = s.results ∧
      (∀ name, nameQueue s'.names name =
        if name ∈ entries.map Prod.fst then (nameQueue s.names name).without owner else nameQueue s.names name) ∧
      s.names.nPrimariesPeak ≤ s'.names.nPrimariesPeak ∧
      s.names.nOwnerPrimariesPeak ≤ s'.names.nOwnerPrimariesPeak := by
  induction entries generalizing s with
  | nil =>
    rintro s' rfl
    exact ⟨h, rfl, fun name => by simp, Nat.le_refl _, Nat.le_refl _⟩
  | cons e rest ih =>
    obtain ⟨hnodup, hlive⟩ := hentries
    rw [List.map_cons, List.nodup_cons] at hnodup
    obtain ⟨o, ho, howner, hname⟩ := hlive e List.mem_cons_self
    obtain ⟨hfollows, honly⟩ := h.follows_releaseOwnership ho
    have hrest : (s.releaseOwnership e.2).Releasing owner rest := by
      refine ⟨hnodup.2, fun e' he' => ?_⟩
      obtain ⟨o', ho', howner', hname'⟩ := hlive e' (List.mem_cons_of_mem e he')
      have hne : o'.name ≠ o.name := by
        rw [hname, hname']
        exact fun heq => hnodup.1 (List.mem_map.mpr ⟨e', he', heq⟩)
      exact ⟨o', (honly.ownerships e'.2 o' hne).mpr ho', howner', hname'⟩
    intro s' hs'
    obtain ⟨hbooks, hresults, hqueues, hpeak, hownersPeak⟩ := ih hfollows.books hrest s' hs'
    have hqueue : nameQueue (s.releaseOwnership e.2).names =
        Function.update (nameQueue s.names) e.1 ((nameQueue s.names e.1).without owner) := by
      have hview := congrArg QueueWorld.queues hfollows.view
      rw [← howner, ← hname]
      exact hview
    have hres : (s.releaseOwnership e.2).results = s.results := congrArg QueueWorld.results hfollows.view
    refine ⟨hbooks, hresults.trans hres, fun name => ?_, hfollows.primariesPeak.trans hpeak,
      hfollows.ownersPeak.trans hownersPeak⟩
    rw [hqueues, hqueue, List.map_cons]
    by_cases hn : name = e.1
    · rw [hn, if_neg hnodup.1, if_pos List.mem_cons_self, Function.update_self]
    · rw [Function.update_of_ne hn]
      exact if_congr (by rw [List.mem_cons, or_iff_right hn]) rfl rfl

/-- Somebody who has no ownership of a name is not in its queue. -/
theorem without_eq_self {q : OwnerQueue ο} {o : ο} (ho : o ∉ q.owners) : q.without o = q := by
  rw [OwnerQueue.without, List.filter_eq_self]
  intro e he
  have hne : e.1 ≠ o := fun heq => ho (List.mem_map.mpr ⟨e, he, heq⟩)
  simpa using hne

/-- A disconnect is a step. -/
theorem Books.follows_disconnect (h : s.Books) (owner : ο) :
    Follows s (s.step (.disconnect owner)) (.leave owner) := by
  have hentries : s.Releasing owner (s.names.owners owner).ownershipTree.entries := by
    refine ⟨(s.names.owners owner).ownershipTree.nodup_keys, fun e he => ?_⟩
    have hfind := ((s.names.owners owner).ownershipTree.find?_eq_some_iff e.1 e.2).mpr he
    exact ((NameBooks.names h e.1).owned owner e.2).mp hfind
  obtain ⟨hbooks, hresults, hqueues, hpeak, hownersPeak⟩ := h.follows_releasing hentries _ rfl
  refine ⟨hbooks, ?_, hpeak, hownersPeak⟩
  have hqueue : ∀ name, nameQueue (s.step (.disconnect owner)).names name = (nameQueue s.names name).without owner := by
    intro name
    refine (hqueues name).trans ?_
    split
    · rfl
    · next hout =>
      refine (without_eq_self fun hin => ?_).symm
      obtain ⟨id, hid⟩ := ((NameBooks.names h name).mem_owners_iff_ownershipOf owner).mp hin
      exact hout (((s.names.owners owner).ownershipTree.mem_keys_iff name).mpr ⟨id, hid⟩)
  rw [view, funext hqueue]
  exact congrArg (QueueWorld.mk _) hresults

/-- Every call is a step. -/
theorem Books.follows_step (h : s.Books) (op : NameOp ο) : Follows s (s.step op) (s.specOp op) := by
  cases op with
  | request owner user name flags => exact h.follows_request owner user name flags
  | release owner name => exact h.follows_release owner name
  | releaseOwnership id =>
    rw [specOp]
    cases ho : s.names.ownerships.find? id with
    | some o => exact (h.follows_releaseOwnership ho).1
    | none =>
      rw [step, releaseOwnership, nameOwnershipRelease, ho]
      have hcheck : NameBooks (s.names.check false) s.held :=
        ⟨fun n => (NameBooks.names h n).check false, h.fresh, h.patient, h.nPrimaries, h.nOwnerPrimaries, h.bounded⟩
      exact ⟨hcheck, rfl, Nat.le_refl _, Nat.le_refl _⟩
  | disconnect owner => exact h.follows_disconnect owner
  | refName name => exact h.follows_nothing (NameBooks.names h name).effect_refName rfl rfl
  | unref name =>
    rw [specOp, step]
    split
    · next hheld => exact h.follows_nothing ((NameBooks.names h name).effect_unref hheld s.idle) rfl rfl
    · exact ⟨h, rfl, Nat.le_refl _, Nat.le_refl _⟩
  | other users idle => exact ⟨h, rfl, Nat.le_refl _, Nat.le_refl _⟩

/-- The registry is in order at first. -/
theorem books_init (users : UserRegistry) : (init users : NameWorld ο).Books := nameBooks_init

/-- The registry stays in order. -/
theorem Books.run (h : s.Books) (ops : List (NameOp ο)) : (Machine.run step s ops).Books := by
  induction ops generalizing s with
  | nil => exact h
  | cons op rest ih => exact ih (h.follows_step op).books

/-- A run follows the queues. -/
theorem Books.view_run (h : s.Books) (ops : List (NameOp ο)) :
    (Machine.run step s ops).view = Machine.run QueueWorld.step s.view (s.specOps ops) := by
  induction ops generalizing s with
  | nil => rfl
  | cons op rest ih =>
    have hfollows := h.follows_step op
    rw [run_cons, ih hfollows.books, hfollows.view]
    rfl

/-- A run lowers no peak. -/
theorem Books.peaks_run (h : s.Books) (ops : List (NameOp ο)) :
    s.names.nPrimariesPeak ≤ (Machine.run step s ops).names.nPrimariesPeak ∧
      s.names.nOwnerPrimariesPeak ≤ (Machine.run step s ops).names.nOwnerPrimariesPeak := by
  induction ops generalizing s with
  | nil => exact ⟨Nat.le_refl _, Nat.le_refl _⟩
  | cons op rest ih =>
    have hfollows := h.follows_step op
    obtain ⟨hprimaries, howners⟩ := ih hfollows.books
    exact ⟨hfollows.primariesPeak.trans hprimaries, hfollows.ownersPeak.trans howners⟩

end NameWorld

section Invariant

variable {ο : Type} [DecidableEq ο] {w : NameRegistry ο} {held : Bytes → ℕ}

/-- How the trees, the queues and the counters of the registry agree. -/
structure NameInvariant (w : NameRegistry ο) : Prop where
  owned : ∀ id o, w.ownerships.find? id = some o →
    ((w.owners o.owner).ownershipTree.find? o.name = some id ↔ (w.ownershipList o.name).count id = 1)
  tree : ∀ a n id, (w.owners a).ownershipTree.find? n = some id →
    ∃ o, w.ownerships.find? id = some o ∧ o.owner = a ∧ o.name = n
  queue : ∀ n id, id ∈ w.ownershipList n →
    (w.ownershipList n).count id = 1 ∧ ∃ o, w.ownerships.find? id = some o ∧ o.name = n
  unique : ∀ id id' o o', w.ownerships.find? id = some o → w.ownerships.find? id' = some o' →
    o.owner = o'.owner → o.name = o'.name → id = id'
  waiting : ∀ n, ∀ id ∈ (w.ownershipList n).tail, ∀ o, w.ownerships.find? id = some o →
    hasFlag o.flags nameFlagDoNotQueue = false
  nPrimaries : w.nPrimaries = w.nameTree.keys.countP fun n => w.ownershipList n ≠ []
  nOwnerPrimaries : ∀ a, (w.owners a).nOwnerPrimaries =
    w.nameTree.keys.countP fun n => (namePrimary w n).bind w.ownerOf = some a

omit [DecidableEq ο] in
/-- Counting names. -/
theorem primaries_eq_countP (w : NameRegistry ο) (f : Option ο → ℕ) (P : Bytes → Bool)
    (hP : ∀ n, f (nameQueue w n).primary = if P n then 1 else 0) :
    w.primaries f = w.nameTree.keys.countP P := by
  rw [NameRegistry.primaries, SearchTree.total, SearchTree.keys]
  induction w.nameTree.entries with
  | nil => rfl
  | cons e rest ih =>
    rw [List.map_cons, List.sum_cons, ih, List.map_cons, List.countP_cons, hP, Nat.add_comm]

/-- The books say how everything agrees. -/
theorem NameBooks.invariant (h : NameBooks w held) : NameInvariant w := by
  have hcount : ∀ n id, id ∈ w.ownershipList n → (w.ownershipList n).count id = 1 := fun n id hid =>
    List.count_eq_one_of_mem (h.names n).nodup hid
  have hplace : ∀ id o, w.ownerships.find? id = some o → id ∈ w.ownershipList o.name := fun id o ho =>
    ((h.names o.name).queued id).mpr ⟨(Option.some_ne_none id).symm, o, ho, rfl⟩
  have hfind : ∀ id o, w.ownerships.find? id = some o → (w.owners o.owner).ownershipTree.find? o.name = some id :=
    fun id o ho => ((h.names o.name).owned o.owner id).mpr ⟨o, ho, rfl, rfl⟩
  refine ⟨fun id o ho => ?_, fun a n id hid => ((h.names n).owned a id).mp hid, fun n id hid => ?_,
    fun id id' o o' ho ho' howner hname => ?_, fun n id hid o ho => ?_, ?_, fun a => ?_⟩
  · exact iff_of_true (hfind id o ho) (hcount o.name id (hplace id o ho))
  · exact ⟨hcount n id hid, (((h.names n).queued id).mp hid).2⟩
  · have htree := hfind id o ho
    rw [howner, hname, hfind id' o' ho'] at htree
    exact (Option.some.inj htree).symm
  · cases hl : w.ownershipList n with
    | nil =>
      rw [hl] at hid
      cases hid
    | cons p rest =>
      obtain ⟨op, -, -, hq⟩ := (h.names n).nameQueue_cons hl
      rw [hl] at hid
      have hpatient := h.patient n
      rw [OwnerQueue.Patient, hq] at hpatient
      refine hpatient (o.owner, o.flags) (List.mem_filterMap.mpr ⟨id, hid, ?_⟩)
      rw [NameRegistry.entry, entryIn, ho, Option.map_some]
  · rw [h.nPrimaries]
    refine primaries_eq_countP w _ _ fun n => ?_
    have hnone := (h.names n).namePrimary_eq_none_iff
    cases hl : w.ownershipList n with
    | nil =>
      have hq : nameQueue w n = [] := hnone.mp (by rw [namePrimary, hl, List.head?_nil])
      rw [hq]
      rfl
    | cons p rest =>
      obtain ⟨op, -, -, hq⟩ := (h.names n).nameQueue_cons hl
      rw [hq]
      rfl
  · rw [h.nOwnerPrimaries]
    refine primaries_eq_countP w _ _ fun n => ?_
    rw [(h.names n).primary_eq]
    simp

end Invariant

/-- In every run the trees, the queues and the counters of the name registry agree, and the peaks
are at least what the counters were at any time. -/
theorem nameInvariant_run {ο : Type} [DecidableEq ο] (users : UserRegistry) (ops : List (NameOp ο)) :
    NameInvariant (run NameWorld.step (NameWorld.init users) ops).names ∧
      ∀ before after, ops = before ++ after →
        (run NameWorld.step (NameWorld.init users) before).names.nPrimaries ≤
            (run NameWorld.step (NameWorld.init users) ops).names.nPrimariesPeak ∧
          ∀ a : ο, ((run NameWorld.step (NameWorld.init users) before).names.owners a).nOwnerPrimaries ≤
            (run NameWorld.step (NameWorld.init users) ops).names.nOwnerPrimariesPeak := by
  have hinit := NameWorld.books_init (ο := ο) users
  refine ⟨(hinit.run ops).invariant, fun before after hops => ?_⟩
  have hbefore := hinit.run before
  obtain ⟨hprimaries, howners⟩ := hbefore.peaks_run after
  obtain ⟨hbounded, hownersBounded⟩ := hbefore.bounded
  rw [hops, run_append]
  exact ⟨hbounded.trans hprimaries, fun a => (hownersBounded a).trans howners⟩

section Refused

variable {ο : Type} [DecidableEq ο] {w w' : NameRegistry ο} {held : Bytes → ℕ} {users users' : UserRegistry}
  {change : NameChange ο}

/-- A queue refuses nobody. -/
theorem OwnerQueue.request_ne_quota (q : OwnerQueue ο) (o : ο) (flags : UInt32) : (q.request o flags).2 ≠ .quota := by
  cases q with
  | nil => exact NameResult.noConfusion
  | cons e rest =>
    rw [OwnerQueue.request.eq_def]
    by_cases hown : e.1 = o
    · simp [hown]
    · by_cases hreplace : hasFlag flags nameFlagReplaceExisting && hasFlag e.2 nameFlagAllowReplacement
      · by_cases hdrop : hasFlag e.2 nameFlagDoNotQueue <;> simp [hown, hreplace, hdrop]
      · by_cases hwait : hasFlag flags nameFlagDoNotQueue
        · simp [hown, hreplace, hwait]
        · by_cases hin : o ∈ owners rest <;> simp [hown, hreplace, hwait, hin]

/-- Only those are refused that are not in the queue and cannot pay for a place. -/
theorem OwnerQueue.requestWithin_eq_quota_iff (q : OwnerQueue ο) (admitted : Bool) (o : ο) (flags : UInt32) :
    (q.requestWithin admitted o flags).2 = .quota ↔ o ∉ owners q ∧ admitted = false := by
  by_cases hin : o ∈ owners q
  · simp [OwnerQueue.requestWithin, hin, request_ne_quota]
  · cases admitted with
    | true => simp [OwnerQueue.requestWithin, request_ne_quota]
    | false => simp [OwnerQueue.requestWithin, hin]

/-- A refused request leaves the registry in order as it was, and returns what it charged. -/
theorem NameBooks.request_refused (h : NameBooks w held) {idle : Bytes → Bool} {owner : ο} {user : Option Uid}
    {name : Bytes} {flags : UInt32}
    (hrefused : nameRegistryRequestName idle users w owner user name flags = (users', w', change, .quota)) :
    (w' = { w with
        nextOwnership := w.nextOwnership + 1
        assertFailed := w.assertFailed || ((w.nameTree.find? name).isNone && !idle name) } ∧
      change = .init) ∧ (users.accounts.Live → users'.accounts = users.accounts) := by
  obtain ⟨users₁, w₁, hspec, -⟩ := nameRegistryRequestName_spec idle users owner user flags (h.names name) h.fresh
    fun b hb => (h.counted hb).2
  have hresult := congrArg (fun r : UserRegistry × NameRegistry ο × NameChange ο × NameResult => r.2.2.2)
    (hspec.symm.trans hrefused)
  obtain ⟨hout, hquota⟩ := (OwnerQueue.requestWithin_eq_quota_iff _ _ _ _).mp hresult
  have href : NameAt (nameRegistryRefName w name) name (held name + 1) none := (h.names name).refName
  obtain ⟨x, hx⟩ := href.exists_name (Nat.succ_pos _)
  have howned : (nameRegistryRefName w name).ownershipOf owner name = none := by
    by_contra hne
    obtain ⟨id, hid⟩ := Option.ne_none_iff_exists'.mp hne
    have hqueue : nameQueue (nameRegistryRefName w name) name = nameQueue w name :=
      nameQueue_eq_of_list (ownershipList_nameRegistryRefName w name name) fun id _ => by
        rw [ownerships_nameRegistryRefName]
    exact hout (hqueue ▸ (href.mem_owners_iff_ownershipOf owner).mpr ⟨id, hid⟩)
  have hfresh : (nameRegistryRefName w name).ownerships.find? (nameRegistryRefName w name).nextOwnership = none := by
    rw [ownerships_nameRegistryRefName, nextOwnership_nameRegistryRefName]
    cases ho : w.ownerships.find? w.nextOwnership with
    | none => rfl
    | some o => exact absurd (h.fresh _ o ho) (Nat.lt_irrefl _)
  obtain ⟨⟨users₂, charge, r⟩, hcharge⟩ : ∃ c, userCharge users user .init none userSlotObjects 1 = c := ⟨_, rfl⟩
  have hr : r = .quota := by
    rw [ownershipAdmitted, hcharge] at hquota
    cases r with
    | success => exact absurd hquota (by simp)
    | quota => rfl
  rw [hr] at hcharge
  have hnew := nameOwnershipNew_quota idle href hx hfresh howned hcharge
  rw [nextOwnership_nameRegistryRefName] at hnew
  rw [NameRegistry.ownershipOf] at howned
  rw [nameRegistryRequestName] at hrefused
  simp only [howned, hnew, nameUnref_nameRegistryRefName idle (h.names name)] at hrefused
  cases hrefused
  exact ⟨⟨rfl, rfl⟩, fun hlive => accounts_charge_deinit hlive hcharge rfl⟩

/-- In every run a refused request changes nothing: no name, no queue with its flags, no reference count and no
counter; only the address of the next ownership object is another one. No record of a change is written, the accounts
of the users are as before, and the only thing checked is that a name that is new has no match rules. -/
theorem nameRegistryRequestName_refused (users₀ : UserRegistry) (ops : List (NameOp ο)) (owner : ο)
    (user : Option Uid) (name : Bytes) (flags : UInt32) {before : NameWorld ο}
    (hbefore : before = run NameWorld.step (NameWorld.init users₀) ops)
    (hrefused : nameRegistryRequestName before.idle before.users before.names owner user name flags =
      (users', w', change, .quota)) :
    w' = { before.names with
        nextOwnership := before.names.nextOwnership + 1
        assertFailed := before.names.assertFailed ||
          ((before.names.nameTree.find? name).isNone && !before.idle name) } ∧
      change = .init ∧ (before.users.accounts.Live → users'.accounts = before.users.accounts) := by
  have hbooks : NameBooks before.names before.held := hbefore ▸ (NameWorld.books_init users₀).run ops
  obtain ⟨⟨hnames, hchange⟩, haccounts⟩ := hbooks.request_refused hrefused
  exact ⟨hnames, hchange, haccounts⟩

/-- Somebody owns a name, and a user without a quota for objects asks for it. -/
def refusedWorld : NameWorld ℕ :=
  run NameWorld.step (NameWorld.init (userRegistryRefUser ⟨false, .empty, 5, fun _ => 0, false, false⟩ 0))
    [.request 1 none (lit "a.b") 0]

/-- The owner of the name stays alone. -/
theorem refusedWorld_unchanged :
    (nameRegistryRequestName refusedWorld.idle refusedWorld.users refusedWorld.names 7 (some 0) (lit "a.b") 0).2.2 =
        (.init, .quota) ∧
      (nameRegistryRequestName refusedWorld.idle refusedWorld.users refusedWorld.names 7 (some 0) (lit "a.b")
        0).2.1.nameTree = refusedWorld.names.nameTree := by
  obtain ⟨⟨users', names, change, result⟩, hrequest⟩ : ∃ r, nameRegistryRequestName refusedWorld.idle
      refusedWorld.users refusedWorld.names 7 (some 0) (lit "a.b") 0 = r := ⟨_, rfl⟩
  have hquota : (nameRegistryRequestName refusedWorld.idle refusedWorld.users refusedWorld.names 7 (some 0) (lit "a.b")
      0).2.2.2 = .quota := rfl
  rw [hrequest] at hquota
  obtain rfl : result = .quota := hquota
  obtain ⟨hnames, hchange, -⟩ := nameRegistryRequestName_refused _ _ 7 (some 0) (lit "a.b") 0 rfl hrequest
  rw [hrequest, hnames, hchange]
  exact ⟨rfl, rfl⟩

end Refused

namespace NameWorld

variable {ο : Type} [DecidableEq ο]

/-- The queue but for the place of the one an event is about. -/
def others (q : OwnerQueue ο) (e : QueueOp ο) : OwnerQueue ο :=
  match actor e with
  | some a => q.without a
  | none => q

/-- An event keeps the order of all others in a queue. -/
theorem others_step_sublist (s : QueueWorld ο) (e : QueueOp ο) (name : Bytes) :
    (others ((s.step e).queues name) e).Sublist (others (s.queues name) e) := by
  have hupdate : ∀ (n : Bytes) (q : OwnerQueue ο), (others q e).Sublist (others (s.queues n) e) →
      (others (Function.update s.queues n q name) e).Sublist (others (s.queues name) e) := by
    intro n q hq
    by_cases hn : name = n
    · rw [hn, Function.update_self]
      exact hq
    · rw [Function.update_of_ne hn]
  cases e with
  | request owner n flags admitted =>
    exact hupdate n _ (OwnerQueue.without_requestWithin_sublist _ admitted owner flags)
  | release owner n =>
    refine hupdate n _ ?_
    change List.Sublist (OwnerQueue.without ((s.queues n).release owner).1 owner) _
    rw [OwnerQueue.without_release]
    exact List.Sublist.refl _
  | withdraw owner n =>
    refine hupdate n _ ?_
    change List.Sublist (((s.queues n).without owner).without owner) _
    rw [OwnerQueue.without_without]
    exact List.Sublist.refl _
  | leave owner =>
    change List.Sublist (((s.queues name).without owner).without owner) _
    rw [OwnerQueue.without_without]
    exact List.Sublist.refl _
  | nothing => exact List.Sublist.refl _

/-- In every run the queues of the registry and the results are those of the specification, where a
request that needs a new ownership is refused when the user cannot pay for it, and no operation
changes the order of those it is not about. -/
theorem view_run_eq_spec (users : UserRegistry) (ops : List (NameOp ο)) :
    (run step (init users) ops).view = run QueueWorld.step .init (specOps (init users) ops) ∧
      ∀ op name, (others (nameQueue ((run step (init users) ops).step op).names name)
          ((run step (init users) ops).specOp op)).Sublist
        (others (nameQueue (run step (init users) ops).names name) ((run step (init users) ops).specOp op)) := by
  have hbooks := (books_init (ο := ο) users).run ops
  refine ⟨(books_init users).view_run ops, fun op name => ?_⟩
  have hview := congrArg QueueWorld.queues (hbooks.follows_step op).view
  have hqueue : nameQueue ((run step (init users) ops).step op).names name = _ := congrFun hview name
  rw [hqueue]
  exact others_step_sublist _ _ name

/-- A request that no quota refuses. -/
def unlimited : QueueOp ο → QueueOp ο
  | .request owner name flags _ => .request owner name flags true
  | e => e

/-- A user without a quota for objects does not become the owner of a name nobody has. -/
theorem not_view_run_eq_unlimited :
    ¬ ∀ (users : UserRegistry) (ops : List (NameOp ℕ)),
      (run step (init users) ops).view = run QueueWorld.step .init ((specOps (init users) ops).map unlimited) := by
  intro hall
  have hview := hall (userRegistryRefUser ⟨false, .empty, 5, fun _ => 0, false, false⟩ 0)
    [.request 7 (some 0) [97, 46, 98] 0]
  have hresults := congrArg QueueWorld.results hview
  revert hresults
  decide

end NameWorld

end DbusBroker
