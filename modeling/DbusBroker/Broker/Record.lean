import DbusBroker.Broker.BrokerMoves
import DbusBroker.Lib.Record

/-!
# The record of the bus

What the bus recorded of its own doing, without where each message went. A ledger is a relation between the core
of the bus and its record that every step keeps. The first one is the roll: who is registered can be read from the
record, at any time when no peer is about to leave.
-/

namespace DbusBroker

open Std Machine Record

/-- What a bus did, without where messages went. -/
def Bus.record (b : Bus) : List Event := b.trace.filter fun e => !e.isEmission

section Ledgers

variable {ok : Core → Leave → Prop} {x x' : Aux} {c c' : Core} {said : List Event}

/-- A ledger that every step keeps is kept by some moves. -/
theorem Moves.ledger {L : Aux → Core → List Event → Prop}
    (hstep : ∀ x c x' c' said record, Good x c → Change ok x c x' c' said → L x c record → L x' c' (record ++ said))
    {s s' : Aux × Bus} (hmoves : Moves ok s s') (h : Good s.1 s.2.core) (hledger : L s.1 s.2.core s.2.record) :
    L s'.1 s'.2.core s'.2.record := by
  induction hmoves with
  | refl => exact hledger
  | tail hmoves hmove ih =>
    obtain ⟨said, events, hchange, hsays, htrace, -⟩ := hmove
    rw [Bus.record, htrace, List.filter_append, hsays.said]
    exact hstep _ _ _ _ _ _ (h.moves hmoves) hchange ih

/-- The steps before the end of the broker keep a ledger. -/
theorem Moves.ledger_running {L : Aux → Core → List Event → Prop}
    (hstep : ∀ x c x' c' said record, Good x c → Change ok x c x' c' said → x.silent = false → L x c record →
      L x' c' (record ++ said))
    {s s' : Aux × Bus} (hmoves : Moves ok s s') (h : Good s.1 s.2.core) (hledger : L s.1 s.2.core s.2.record)
    (hsilent : s'.1.silent = false) : L s'.1 s'.2.core s'.2.record := by
  refine Moves.ledger (L := fun x c record => x.silent = false → L x c record) ?_ hmoves h (fun _ => hledger) hsilent
  intro x c x' c' said record hgood hchange hbefore hafter
  have hrunning : x.silent = false := by
    cases hchange with
    | silence => cases hafter
    | _ => exact hafter
  exact hstep x c x' c' said record hgood hchange hrunning (hbefore hrunning)

end Ledgers

section Roll

/-- Whether a peer is registered after an event. -/
def Event.registers (id : ℕ) (registered : Bool) : Event → Bool
  | .hello peer => if peer = id then true else registered
  | .goodbye peer => if peer = id then false else registered
  | _ => registered

/-- Whether a peer is registered after some events. -/
def registeredIn (record : List Event) (id : ℕ) : Bool := record.foldl (Event.registers id) false

/-- One more event. -/
theorem registeredIn_concat (record : List Event) (e : Event) (id : ℕ) :
    registeredIn (record ++ [e]) id = e.registers id (registeredIn record id) := by
  rw [registeredIn, List.foldl_append]
  rfl

/-- Events that are not about who is registered. -/
theorem registeredIn_append {said : List Event} (h : ∀ e ∈ said, ∀ id r, e.registers id r = r) (record : List Event)
    (id : ℕ) : registeredIn (record ++ said) id = registeredIn record id := by
  induction said generalizing record with
  | nil => rw [List.append_nil]
  | cons e rest ih =>
    rw [List.append_cons, ih (fun e' he' => h e' (List.mem_cons_of_mem e he')), registeredIn_concat,
      h e List.mem_cons_self]

/-- Nothing in the announcement of a name is about who is registered. -/
theorem registers_announce {n : Bytes} {old new : Option ℕ} : ∀ e ∈ announce n old new, ∀ id r, e.registers id r = r := by
  intro e he id r
  rcases List.mem_append.mp he with hlost | hrest
  · obtain ⟨peer, -, rfl⟩ := List.mem_map.mp hlost
    rfl
  · rcases List.mem_cons.mp hrest with rfl | hacquired
    · rfl
    · obtain ⟨peer, -, rfl⟩ := List.mem_map.mp hacquired
      rfl

/-- Who is registered can be read from the record. A peer that said goodbye is not, though it may take a while. -/
structure Roll (x : Aux) (c : Core) (record : List Event) : Prop where
  known : ∀ id, x.leaving ≠ some id ∨ x.parting = false → c.isRegistered id = registeredIn record id
  parted : ∀ id, x.leaving = some id → x.parting = true → registeredIn record id = false

variable {ok : Core → Leave → Prop} {x x' : Aux} {c c' : Core} {record said : List Event}

/-- The roll while no peer is about to leave. -/
theorem Roll.isRegistered (h : Roll x c record) (hleaving : x.leaving = none) (id : ℕ) :
    c.isRegistered id = registeredIn record id :=
  h.known id (.inl (by rw [hleaving]; exact (Option.some_ne_none id).symm))

/-- A step that does not touch who is registered. -/
theorem Roll.keep (h : Roll x c record) (hleaving : x'.leaving = x.leaving) (hparting : x'.parting = x.parting)
    (hregistered : ∀ id, c'.isRegistered id = c.isRegistered id) (hsaid : ∀ e ∈ said, ∀ id r, e.registers id r = r) :
    Roll x' c' (record ++ said) := by
  constructor
  · intro id hid
    rw [hleaving, hparting] at hid
    rw [hregistered, registeredIn_append hsaid, h.known id hid]
  · intro id hid hpart
    rw [registeredIn_append hsaid, h.parted id (hleaving ▸ hid) (hparting ▸ hpart)]

/-- A peer is written back, registered as it was. -/
theorem Core.isRegistered_setPeer_same (c : Core) {id : ℕ} {peer peer' : Peer} (hpeer : c.peers.find? id = some peer)
    (hsame : peer'.registered = peer.registered) (a : ℕ) : (c.setPeer id peer').isRegistered a = c.isRegistered a := by
  rw [Core.isRegistered_setPeer]
  by_cases ha : a = id
  · rw [if_pos ha, ha, Core.isRegistered_of_find? hpeer, hsame]
  · rw [if_neg ha]

/-- An event that is not about who is registered. -/
theorem registers_singleton {e : Event} (he : ∀ id r, e.registers id r = r) : ∀ e' ∈ [e], ∀ id r, e'.registers id r = r := by
  intro e' he'
  rw [List.mem_singleton.mp he']
  exact he

/-- Nothing was said. -/
theorem registers_nil : ∀ e ∈ ([] : List Event), ∀ id r, e.registers id r = r :=
  fun _ he => absurd he List.not_mem_nil

/-- Every step keeps the roll. -/
theorem Roll.change (h : Roll x c record) (hgood : Good x c) (hchange : Change ok x c x' c' said) :
    Roll x' c' (record ++ said) := by
  cases hchange with
  | connect peer hregistered hmonitor hleaving =>
    refine h.keep rfl rfl (fun id => ?_) registers_nil
    have hfresh : c.peers.find? c.ids = none := hgood.peers.find?_ids
    show ((c.peers.insert c.ids peer).find? id).any _ = _
    rw [SearchTree.find?_insert]
    by_cases hid : id = c.ids
    · rw [if_pos hid, hid, Core.isRegistered, hfresh]
      exact hregistered
    · rw [if_neg hid]
      rfl
  | hangup id hleaving =>
    refine ⟨fun a _ => ?_, fun a _ hpart => by cases hpart⟩
    rw [List.append_nil]
    exact h.isRegistered hleaving a
  | register id peer hpeer hregistered hmonitor hhup hleaving =>
    constructor
    · intro a _
      rw [registeredIn_concat, Event.registers, Core.isRegistered_setPeer]
      by_cases ha : a = id
      · rw [if_pos ha, if_pos ha.symm]
      · rw [if_neg ha, if_neg fun heq => ha heq.symm]
        exact h.isRegistered hleaving a
    · intro a ha
      rw [hleaving] at ha
      cases ha
  | announceUnique id old new hflushing => exact h.keep rfl rfl (fun _ => rfl) registers_announce
  | goodbye id hleaving hflushing harming =>
    constructor
    · intro a ha
      have hne : a ≠ id := by
        rintro rfl
        obtain hne | hpart := ha
        · exact hne rfl
        · cases hpart
      rw [registeredIn_concat, Event.registers, if_neg fun heq => hne heq.symm]
      refine h.known a (.inl ?_)
      obtain hnone | hsome := hleaving
      · rw [hnone]
        exact (Option.some_ne_none a).symm
      · rw [hsome]
        exact fun heq => hne (Option.some.inj heq).symm
    · intro a ha _
      rw [registeredIn_concat, Event.registers, if_pos (Option.some.inj ha)]
  | startMonitor id peer rules instances hpeer =>
    have hsame : ({ peer with monitor := true } : Peer).registered = peer.registered := rfl
    exact h.keep rfl rfl (fun a => c.isRegistered_setPeer_same hpeer hsame a) (registers_singleton fun _ _ => rfl)
  | drop id keys rule said hrule hsaid =>
    refine h.keep rfl rfl (fun a => ?_) ?_
    · rw [Core.dropRule_eq]
      rfl
    · obtain ⟨rfl, -⟩ | ⟨rfl, -⟩ := hsaid
      · exact registers_singleton fun _ _ => rfl
      · exact registers_nil
  | names w' n q pins busy said heffect hpatient hkept howners hbusy hactivated hsaid =>
    refine h.keep rfl rfl (fun _ => rfl) ?_
    obtain rfl | ⟨rfl, -⟩ := hsaid
    · rw [nameChangeOf]
      split
      · exact registers_nil
      · exact registers_announce
    · exact registers_nil
  | unregister id peer hpeer hregistered hleaving hparting =>
    rw [List.append_nil]
    refine ⟨fun a ha => ?_, h.parted⟩
    have hne : a ≠ id := by
      rintro rfl
      obtain hne | hpart := ha
      · exact hne hleaving
      · rw [hparting] at hpart
        cases hpart
    rw [Core.isRegistered_setPeer, if_neg hne]
    exact h.known a ha
  | stopMonitor id peer hpeer =>
    have hsame : ({ peer with monitor := false } : Peer).registered = peer.registered := rfl
    exact h.keep rfl rfl (fun a => c.isRegistered_setPeer_same hpeer hsame a) registers_nil
  | left id parting hleaving hparting hflushing hclear =>
    rw [List.append_nil]
    refine ⟨fun a _ => ?_, fun a ha => by cases ha⟩
    by_cases ha : a = id
    · rw [ha, hclear.registered, h.parted id hleaving hparting]
    · exact h.known a (.inl (by rw [hleaving]; exact fun heq => ha (Option.some.inj heq).symm))
  | free id peer hpeer hclear hleaving =>
    refine h.keep rfl rfl (fun a => ?_) registers_nil
    show ((c.peers.erase id).find? a).any _ = _
    rw [SearchTree.find?_erase]
    by_cases ha : a = id
    · rw [if_pos ha, ha, hclear.registered]
      rfl
    · rw [if_neg ha]
      rfl
  | endReply callee caller slot serial event hfind hevent =>
    refine h.keep rfl rfl (fun _ => rfl) (registers_singleton ?_)
    cases event <;> first | exact fun _ _ => rfl | exact absurd hevent id
  | arm => exact h.keep rfl rfl (fun _ => rfl) registers_nil
  | idle => exact h.keep rfl rfl (fun _ => rfl) registers_nil
  | flushed => exact h.keep rfl rfl (fun _ => rfl) registers_nil
  | armed => exact h.keep rfl rfl (fun _ => rfl) registers_nil
  | flush => exact h.keep rfl rfl (fun _ => rfl) registers_nil
  | addActivation => exact h.keep rfl rfl (fun _ => rfl) registers_nil
  | removeActivation => exact h.keep rfl rfl (fun _ => rfl) registers_nil
  | pend => exact h.keep rfl rfl (fun _ => rfl) registers_nil
  | settle => exact h.keep rfl rfl (fun _ => rfl) registers_nil
  | settled => exact h.keep rfl rfl (fun _ => rfl) registers_nil
  | slots => exact h.keep rfl rfl (fun _ => rfl) registers_nil
  | silence => exact h.keep rfl rfl (fun _ => rfl) registers_nil
  | _ => exact h.keep rfl rfl (fun _ => rfl) (registers_singleton fun _ _ => rfl)

end Roll

end DbusBroker
