import DbusBroker.Dbus.UniqueId
import DbusBroker.Launch.NssCache

/-!
# Lookups in the cache of users and groups

Every record in the cache was either populated or given by the system. A lookup that finds an
entry is right if the entry is what the system has for the key of the lookup, and this is kept by
every record that fits in with the others. The exception is a number that does not exist: its
entry says that there is such a user, since its name is empty rather than missing.
-/

namespace DbusBroker

open Std

namespace Launch

section source

variable {π ρ : Type} {kind : NssKind π ρ}

/-- A record that a file is populated with, which has a name. -/
abbrev NssRecord (kind : NssKind π ρ) := { e : π // (kind.name e).isSome }

/-- What the cache would answer to a name with a record is what the system answers. -/
def NssSource.Known (source : NssSource kind) (n : Bytes) (e : π) : Prop :=
  if kind.id e = nssInvalidId then source.byName n = none
  else ∃ e', source.byName n = some e' ∧ kind.result e' = kind.result e

/-- A record is what the system has for its name, and for its number if the system has the number at all. A name that
is a number is never looked up as a name. -/
structure NssSource.Fits (source : NssSource kind) (e : π) : Prop where
  name : ∀ n, kind.name e = some n → nssNumericId n = none → source.Known n e
  id : kind.id e ≠ nssInvalidId → ∀ e', source.byId (kind.id e) = some e' → kind.result e' = kind.result e

/-- The records that the system can be asked for fit in with each other. -/
structure NssSource.Agrees (source : NssSource kind) : Prop where
  byName : ∀ n e, nssNumericId n = none → source.byName n = some e → source.Fits e
  byId : ∀ i e, i ≠ nssInvalidId → source.byId i = some e → source.Fits e

/-- The lookup is of a number that does not exist and has an entry in the cache. -/
def NssSource.Repeats (source : NssSource kind) (t : NssTrees π) (name : Bytes) : Prop :=
  ∃ id, nssNumericId name = some id ∧ source.byId id = none ∧ (t.byId.find? id).isSome

/-- The lookup is of a number that neither the cache nor the system has. -/
def NssSource.Misses (source : NssSource kind) (t : NssTrees π) (name : Bytes) : Prop :=
  ∃ id, nssNumericId name = some id ∧ source.byId id = none ∧ t.byId.find? id = none

/-- The entry under the key of a lookup. -/
def NssTrees.found (t : NssTrees π) (name : Bytes) : Option ℕ :=
  match nssNumericId name with
  | some id => t.byId.find? id
  | none => t.byName.find? name

/-- The record that is stored when the cache has no entry. -/
def NssSource.stored (source : NssSource kind) (name : Bytes) : π :=
  match nssNumericId name with
  | some id => (source.byId id).getD (kind.missingId id)
  | none => (source.byName name).getD (kind.missingName name)

/-- The number of a lookup is not the invalid one. -/
theorem nssNumericId_ne {name : Bytes} {id : UInt32} (h : nssNumericId name = some id) : id ≠ nssInvalidId := by
  rw [nssNumericId] at h
  split_ifs at h with hvalid
  obtain rfl := Option.some.inj h
  rw [Bool.and_eq_true, decide_eq_true_eq] at hvalid
  intro hinvalid
  have hnat := congrArg UInt32.toNat hinvalid
  rw [UInt32.toNat_ofNat_of_lt' (Nat.lt_trans hvalid.2 (by decide))] at hnat
  exact absurd hnat (Nat.ne_of_lt hvalid.2)

/-- A number is looked up by its decimal digits. -/
theorem nssNumericId_toString {id : UInt32} (h : id ≠ nssInvalidId) :
    nssNumericId (lit (toString id.toNat)) = some id := by
  have hdecimal := isDecimal_lit_toString id.toNat
  have hread := readDigits_append hdecimal.digit (t := []) rfl 0
  rw [List.append_nil, ← decimal, decimal_lit_toString] at hread
  have hhead {c : UInt8} (hc : (lit (toString id.toNat)).head? = some c) : isDigit c = true :=
    hdecimal.digit c (List.mem_of_mem_head? hc)
  have hplain : PlainHead (lit (toString id.toNat)) := by
    intro c hc
    have hdisjoint : ∀ n : Fin 256, isDigit (UInt8.ofNat n) = true →
        isSpace (UInt8.ofNat n) = false ∧ UInt8.ofNat n ≠ byte '+' := by decide +kernel
    have hself := hdisjoint ⟨c.toNat, c.toNat_lt⟩
    rw [UInt8.ofNat_toNat] at hself
    exact hself (hhead hc)
  have hminus : (lit (toString id.toNat)).head? ≠ some (byte '-') := fun hc => absurd (hhead hc) (by decide)
  have hlength : (lit (toString id.toNat)).length ≠ 0 := fun hnil =>
    hdecimal.ne_nil (List.eq_nil_of_length_eq_zero hnil)
  have hid : id.toNat ≠ 2 ^ 32 - 1 := fun heq => h (UInt32.toNat_inj.mp heq)
  have hbound := id.toNat_lt
  have hvalue := strtoull_signed hplain false _ (.inr ⟨rfl, rfl, hminus⟩)
  rw [hread] at hvalue
  dsimp only [List.length_nil] at hvalue
  rw [if_neg (Ne.symm hlength), if_neg (by omega)] at hvalue
  rw [nssNumericId, hvalue]
  have hcheck : (([] : Bytes).length != (lit (toString id.toNat)).length && ([] : Bytes).isEmpty && !false &&
      decide (numeralValue false id.toNat < 2 ^ 32 - 1)) = true := by
    simp only [numeralValue, List.length_nil, List.isEmpty_nil, Bool.and_true, Bool.not_false, Bool.and_eq_true,
      bne_iff_ne, ne_eq, decide_eq_true_eq, Bool.false_eq_true, if_false]
    exact ⟨Ne.symm hlength, by omega⟩
  rw [if_pos hcheck, numeralValue, if_neg Bool.false_ne_true, UInt32.ofNat_toNat]

end source

/-! ## One lookup -/

section lookup

variable {π ρ : Type} {kind : NssKind π ρ} {t t' : NssTrees π} {e : π} {name : Bytes}

/-- A record that is stored has a name or a number. -/
theorem NssSource.stored_key (source : NssSource kind) (name : Bytes) :
    kind.name (source.stored name) ≠ none ∨ kind.id (source.stored name) ≠ nssInvalidId := by
  rw [NssSource.stored]
  cases hid : nssNumericId name with
  | some id =>
    dsimp only
    cases he : source.byId id with
    | some e => exact .inl (Option.isSome_iff_ne_none.mp (source.named_byId id e he))
    | none => exact .inr ((kind.id_missingId id).symm ▸ nssNumericId_ne hid)
  | none =>
    dsimp only
    cases he : source.byName name with
    | some e => exact .inl (Option.isSome_iff_ne_none.mp (source.named_byName name e he))
    | none => exact .inl (by rw [Option.getD_none, kind.name_missingName]; exact Option.some_ne_none _)

/-- A lookup that finds an entry. -/
theorem nssCacheGet_of_found (source : NssSource kind) {a : ℕ} {node : NssCacheNode π} (hfound : t.found name = some a)
    (hnode : t.nodes.find? a = some node) (he : node.entry = some e) :
    nssCacheGet kind source t name = (t, nssCacheAnswer kind (nssNumericId name).isSome e) := by
  rw [NssTrees.found] at hfound
  rw [nssCacheGet]
  cases hid : nssNumericId name with
  | some id =>
    rw [hid] at hfound
    dsimp only at hfound ⊢
    rw [hfound, Option.bind_some, hnode]
    dsimp only
    rw [he]
    rfl
  | none =>
    rw [hid] at hfound
    dsimp only at hfound ⊢
    rw [hfound, Option.bind_some, hnode]
    dsimp only
    rw [he]
    rfl

/-- A lookup that finds no entry stores what the system answers. -/
theorem NssTrees.Sound.get_of_found_none (h : t.Sound) (source : NssSource kind) (hfound : t.found name = none) :
    ∃ t', nssCacheStore kind t (source.stored name) = .ok t' ∧
      nssCacheGet kind source t name = (t', nssDirect kind source name) := by
  have hmiss (found : Option π) (missing : π) (hkey : kind.name (found.getD missing) ≠ none ∨
      kind.id (found.getD missing) ≠ nssInvalidId) : ∃ t', nssCacheStore kind t (found.getD missing) = .ok t' ∧
        nssCacheMiss kind t found missing = (t', found.elim (.error .invalidName) fun e => .ok (kind.result e)) := by
    obtain ⟨t', ht'⟩ := h.exists_store hkey
    refine ⟨t', ht', ?_⟩
    cases found with
    | some e =>
      rw [Option.getD_some] at ht'
      rw [nssCacheMiss, ht']
      rfl
    | none =>
      rw [Option.getD_none] at ht'
      rw [nssCacheMiss, ht']
      rfl
  have hstored := source.stored_key name
  rw [nssCacheGet, nssDirect]
  rw [NssTrees.found] at hfound
  rw [NssSource.stored] at hstored ⊢
  cases hid : nssNumericId name with
  | some id =>
    rw [hid] at hstored hfound
    dsimp only at hstored hfound ⊢
    rw [hfound]
    exact hmiss _ _ hstored
  | none =>
    rw [hid] at hstored hfound
    dsimp only at hstored hfound ⊢
    rw [hfound]
    exact hmiss _ _ hstored

/-- The entry that a lookup finds is filled in. -/
theorem NssTrees.Sound.exists_of_found (h : t.Sound) {a : ℕ} (hfound : t.found name = some a) :
    ∃ node e, t.nodes.find? a = some node ∧ node.entry = some e := by
  have hnode : ∃ node, t.nodes.find? a = some node := by
    rw [NssTrees.found] at hfound
    cases hid : nssNumericId name with
    | some id =>
      rw [hid] at hfound
      obtain ⟨node, hnode, -⟩ := h.ids id a hfound
      exact ⟨node, hnode⟩
    | none =>
      rw [hid] at hfound
      obtain ⟨node, hnode, -⟩ := h.names name a hfound
      exact ⟨node, hnode⟩
  obtain ⟨node, hnode⟩ := hnode
  obtain ⟨e, he⟩ := Option.isSome_iff_exists.mp (h.filled a node hnode)
  exact ⟨node, e, hnode, he⟩

/-- The cache answers a lookup from an entry exactly if it has one under the key. -/
theorem NssSource.repeats_iff (source : NssSource kind) (t : NssTrees π) (name : Bytes) :
    source.Repeats t name ↔ ∃ id, nssNumericId name = some id ∧ source.byId id = none ∧ (t.found name).isSome := by
  rw [NssSource.Repeats, NssTrees.found]
  cases hid : nssNumericId name with
  | none => simp
  | some id => simp

end lookup

/-! ## Records that agree -/

section agree

variable {π ρ : Type} {kind : NssKind π ρ} {source : NssSource kind} {t t' : NssTrees π} {e : π} {name : Bytes}

/-- Every entry is right for each of its keys. -/
structure NssTrees.Faithful (source : NssSource kind) (t : NssTrees π) : Prop where
  sound : t.Sound
  named : ∀ a node e, t.nodes.find? a = some node → node.entry = some e → (kind.name e).isSome
  names : ∀ n a node e, t.byName.find? n = some a → t.nodes.find? a = some node → node.entry = some e →
    nssNumericId n = none → source.Known n e
  ids : ∀ i a node e, t.byId.find? i = some a → t.nodes.find? a = some node → node.entry = some e →
    kind.id e = i ∧ ∀ e', source.byId i = some e' → kind.result e' = kind.result e

/-- An empty cache. -/
theorem NssTrees.faithful_init (source : NssSource kind) : (NssTrees.init : NssTrees π).Faithful source where
  sound := NssTrees.sound_init
  named a node e h := by cases h
  names n a node e h := by cases h
  ids i a node e h := by cases h

/-- An answer does not depend on the name that a record is kept under. -/
theorem NssSource.known_keep (source : NssSource kind) (n m : Bytes) (e : π) :
    source.Known n (kind.keep e m) ↔ source.Known n e := by
  rw [NssSource.Known, NssSource.Known, kind.id_keep, kind.result_keep]

/-- An answer to a name is right exactly if it is what the system answers. -/
theorem NssSource.known_iff (source : NssSource kind) (n : Bytes) (e : π) :
    source.Known n e ↔ nssCacheAnswer kind false e =
      (source.byName n).elim (.error .invalidName) fun e' => .ok (kind.result e') := by
  rw [NssSource.Known, nssCacheAnswer, Bool.false_and, if_neg Bool.false_ne_true]
  by_cases hinvalid : kind.id e = nssInvalidId
  · rw [if_pos hinvalid, if_pos hinvalid]
    cases source.byName n with
    | none => exact iff_of_true rfl rfl
    | some e' => exact iff_of_false (Option.some_ne_none e') (fun heq => by cases heq)
  · rw [if_neg hinvalid, if_neg hinvalid]
    cases source.byName n with
    | none => exact iff_of_false (fun hsome => by obtain ⟨e', he', -⟩ := hsome; cases he') (fun heq => by cases heq)
    | some e' =>
      constructor
      · intro hsome
        obtain ⟨e'', he'', hsame⟩ := hsome
        rw [Option.some.inj he'', ← hsame]
        rfl
      · exact fun heq => ⟨e', rfl, (Except.ok.inj heq).symm⟩

/-- What stands for something that does not exist fits in with records that agree. -/
theorem NssSource.Agrees.stored (h : source.Agrees) (name : Bytes) : source.Fits (source.stored name) := by
  rw [NssSource.stored]
  cases hid : nssNumericId name with
  | some id =>
    dsimp only
    cases he : source.byId id with
    | some e => exact h.byId id e (nssNumericId_ne hid) he
    | none =>
      rw [Option.getD_none]
      refine ⟨fun n hn => ?_, fun _ e hfound => ?_⟩
      · rw [kind.name_missingId] at hn
        cases hn
      · rw [kind.id_missingId, he] at hfound
        cases hfound
  | none =>
    dsimp only
    cases he : source.byName name with
    | some e => exact h.byName name e hid he
    | none =>
      rw [Option.getD_none]
      refine ⟨fun n hn _ => ?_, fun hvalid => absurd (kind.id_missingName name) hvalid⟩
      rw [kind.name_missingName] at hn
      obtain rfl := Option.some.inj hn
      rw [NssSource.Known, if_pos (kind.id_missingName name)]
      exact he

/-- Storing a record that fits in keeps the entries right. -/
theorem NssTrees.Faithful.store (h : t.Faithful source) (he : source.Fits e)
    (hstore : nssCacheStore kind t e = .ok t') : t'.Faithful source := by
  have hstores := h.sound.stores kind e
  have hsound := h.sound.store hstore
  rw [hstore] at hstores
  have hnewName {n : Bytes} (m : Bytes) (hn : kind.name e = some n) (hnumeric : nssNumericId n = none) :
      source.Known n (kind.keep e m) := (source.known_keep n m e).mpr (he.name n hn hnumeric)
  have hnewId {i : UInt32} (m : Bytes) (hvalid : kind.id e ≠ nssInvalidId) (hi : i = kind.id e) :
      kind.id (kind.keep e m) = i ∧ ∀ e', source.byId i = some e' → kind.result e' = kind.result (kind.keep e m) := by
    rw [kind.id_keep, kind.result_keep, hi]
    exact ⟨rfl, he.id hvalid⟩
  cases hstores with
  | bypassed => exact h
  | @refilled a node hnode hname hid _ =>
    -- a tree that has the node has it under the key of the record
    have hentry {b : ℕ} {node' : NssCacheNode π} {e' : π} (hb : (t.refilled a node (kind.keep e)).nodes.find? b = some node')
        (he' : node'.entry = some e') :
        b = a ∧ e' = kind.keep e node.name ∨ b ≠ a ∧ t.nodes.find? b = some node' := by
      rw [refilled_nodes_find?] at hb
      by_cases hba : b = a
      · rw [if_pos hba] at hb
        cases hb
        exact .inl ⟨hba, (Option.some.inj he').symm⟩
      · rw [if_neg hba] at hb
        exact .inr ⟨hba, hb⟩
    exact {
      sound := hsound
      named := fun b node' e' hb he' => by
        obtain ⟨-, rfl⟩ | ⟨-, hold⟩ := hentry hb he'
        · rw [kind.name_keep]
          rfl
        · exact h.named b node' e' hold he'
      names := fun n b node' e' hlink hb he' hn => by
        obtain ⟨rfl, rfl⟩ | ⟨-, hold⟩ := hentry hb he'
        · obtain ⟨node'', hnode'', hkey⟩ := h.sound.names n b hlink
          have hlinked := h.sound.linkedByName hlink
          have hsame := hname.resolve_right fun hnone => absurd hlinked (ne_true_of_eq_false hnone.2)
          obtain ⟨node₁, hnode₁, hkey₁⟩ := h.sound.node_of_name hsame
          rw [hnode''] at hnode₁
          obtain rfl := Option.some.inj hnode₁
          exact hnewName _ (hkey₁.trans (congrArg some hkey)) hn
        · exact h.names n b node' e' hlink hold he' hn
      ids := fun i b node' e' hlink hb he' => by
        obtain ⟨rfl, rfl⟩ | ⟨-, hold⟩ := hentry hb he'
        · obtain ⟨node'', hnode'', hkey⟩ := h.sound.ids i b hlink
          have hlinked := h.sound.linkedById hlink
          have hsame := hid.resolve_right fun hnone => absurd hlinked (ne_true_of_eq_false hnone.2)
          obtain ⟨node₁, hnode₁, hkey₁, hvalid⟩ := h.sound.node_of_id hsame
          rw [hnode''] at hnode₁
          obtain rfl := Option.some.inj hnode₁
          exact hnewId _ hvalid (hkey.symm.trans hkey₁)
        · exact h.ids i b node' e' hlink hold he' }
  | grown _ _ _ =>
    have hentry {b : ℕ} {node' : NssCacheNode π} {e' : π}
        (hb : (t.grown (kind.name e) (kind.id e) (kind.keep e)).nodes.find? b = some node') (he' : node'.entry = some e') :
        b = t.next ∧ (∃ m, e' = kind.keep e m) ∨ b ≠ t.next ∧ t.nodes.find? b = some node' := by
      rw [grown_nodes_find?] at hb
      by_cases hnext : b = t.next
      · rw [if_pos hnext] at hb
        cases hb
        exact .inl ⟨hnext, _, (Option.some.inj he').symm⟩
      · rw [if_neg hnext] at hb
        exact .inr ⟨hnext, hb⟩
    exact {
      sound := hsound
      named := fun b node' e' hb he' => by
        obtain ⟨-, m, rfl⟩ | ⟨-, hold⟩ := hentry hb he'
        · rw [kind.name_keep]
          rfl
        · exact h.named b node' e' hold he'
      names := fun n b node' e' hlink hb he' hn => by
        obtain ⟨hname, rfl⟩ | ⟨-, hlink⟩ := (grown_byName_find?_eq_some_iff t _ _ _ n b).mp hlink
        · obtain ⟨-, m, rfl⟩ | ⟨hne, -⟩ := hentry hb he'
          · exact hnewName m hname hn
          · exact absurd rfl hne
        · obtain ⟨old, hold, -⟩ := h.sound.names n b hlink
          obtain ⟨rfl, -⟩ | ⟨-, hold⟩ := hentry hb he'
          · exact absurd (h.sound.fresh _ old hold) (Nat.lt_irrefl _)
          · exact h.names n b node' e' hlink hold he' hn
      ids := fun i b node' e' hlink hb he' => by
        obtain ⟨⟨hvalid, hi⟩, rfl⟩ | ⟨-, hlink⟩ := (grown_byId_find?_eq_some_iff t _ _ _ i b).mp hlink
        · obtain ⟨-, m, rfl⟩ | ⟨hne, -⟩ := hentry hb he'
          · exact hnewId m hvalid hi
          · exact absurd rfl hne
        · obtain ⟨old, hold, -⟩ := h.sound.ids i b hlink
          obtain ⟨rfl, -⟩ | ⟨-, hold⟩ := hentry hb he'
          · exact absurd (h.sound.fresh _ old hold) (Nat.lt_irrefl _)
          · exact h.ids i b node' e' hlink hold he' }

/-- A lookup keeps the entries right, and is right itself unless it finds the entry of a number that does not exist. -/
theorem NssTrees.Faithful.get (h : t.Faithful source) (hagrees : source.Agrees) (name : Bytes) :
    (nssCacheGet kind source t name).1.Faithful source ∧
      ((nssCacheGet kind source t name).2 = nssDirect kind source name ↔ ¬source.Repeats t name) := by
  rw [source.repeats_iff]
  cases hfound : t.found name with
  | none =>
    obtain ⟨t', hstore, hget⟩ := h.sound.get_of_found_none source hfound
    rw [hget]
    refine ⟨h.store (hagrees.stored name) hstore, iff_of_true rfl fun hrepeats => ?_⟩
    obtain ⟨id, -, -, hsome⟩ := hrepeats
    cases hsome
  | some a =>
    obtain ⟨node, e, hnode, he⟩ := h.sound.exists_of_found hfound
    rw [nssCacheGet_of_found source hfound hnode he]
    refine ⟨h, ?_⟩
    rw [NssTrees.found] at hfound
    rw [nssDirect]
    cases hid : nssNumericId name with
    | some id =>
      rw [hid] at hfound
      obtain ⟨hkey, hsame⟩ := h.ids id a node e hfound hnode he
      have hnamed : (kind.name e).isNone = false := by
        rw [Option.isNone_eq_false_iff]
        exact h.named a node e hnode he
      dsimp only
      rw [nssCacheAnswer, hnamed, if_neg (by simp), if_neg (hkey ▸ nssNumericId_ne hid)]
      cases he' : source.byId id with
      | some e' =>
        refine iff_of_true (congrArg Except.ok (hsame e' he').symm) fun hrepeats => ?_
        obtain ⟨id', hsame', hnone, -⟩ := hrepeats
        rw [← Option.some.inj hsame', he'] at hnone
        cases hnone
      | none => exact iff_of_false (fun heq => by cases heq) fun hrepeats => hrepeats ⟨id, rfl, he', rfl⟩
    | none =>
      rw [hid] at hfound
      have hknown := h.names name a node e hfound hnode he hid
      exact iff_of_true ((source.known_iff name e).mp hknown) (by simp)

/-- The first record that is stored. -/
theorem nssCacheStore_init (hkey : kind.name e ≠ none ∨ kind.id e ≠ nssInvalidId) :
    nssCacheStore kind (NssTrees.init : NssTrees π) e =
      .ok (NssTrees.init.grown (kind.name e) (kind.id e) (kind.keep e)) := by
  have hnoName : (NssTrees.init : NssTrees π).nodeByName (kind.name e) = none := by
    cases kind.name e with
    | none => rfl
    | some n => rfl
  have hnoId : (NssTrees.init : NssTrees π).nodeById (kind.id e) = none := by
    rw [NssTrees.nodeById]
    split <;> rfl
  have hkeys : ((kind.name e).isNone && kind.id e == nssInvalidId) = false := by
    rw [Bool.and_eq_false_iff, Option.isNone_eq_false_iff, Option.isSome_iff_ne_none, beq_eq_false_iff_ne]
    exact hkey
  rw [nssCacheStore, nssCacheAdd, hkeys, if_neg Bool.false_ne_true, hnoName, hnoId]
  exact congrArg Except.ok (fill_addNode _ _ _ _)

/-- If two lookups on an empty cache are always right, the records fit in with each other. -/
theorem NssSource.agrees_of_get (source : NssSource kind)
    (h : ∀ name name', (nssCacheGet kind source (nssCacheGet kind source .init name).1 name').2 =
      nssDirect kind source name' ↔ ¬source.Repeats (nssCacheGet kind source .init name).1 name') : source.Agrees := by
  have hfits (name : Bytes) (e : π) (hname : (kind.name e).isSome) (hstored : source.stored name = e) :
      source.Fits e := by
    have hfound : (NssTrees.init : NssTrees π).found name = none := by
      rw [NssTrees.found]
      split <;> rfl
    obtain ⟨t', hstore, hget⟩ := NssTrees.sound_init.get_of_found_none source hfound
    rw [hstored, nssCacheStore_init (.inl (Option.isSome_iff_ne_none.mp hname))] at hstore
    cases hstore
    have hnode := (grown_nodes_find? NssTrees.init (kind.name e) (kind.id e) (kind.keep e) 0).trans (if_pos rfl)
    refine ⟨fun n hn hnumeric => ?_, fun hvalid e' he' => ?_⟩
    · have hlookup := h name n
      rw [hget] at hlookup
      have hentry : (NssTrees.init.grown (kind.name e) (kind.id e) (kind.keep e)).found n = some 0 := by
        rw [NssTrees.found, hnumeric]
        exact (grown_byName_find?_eq_some_iff _ _ _ _ _ _).mpr (.inl ⟨hn, rfl⟩)
      rw [nssCacheGet_of_found source hentry hnode rfl, source.repeats_iff, nssDirect, hnumeric] at hlookup
      exact (source.known_keep n _ e).mp ((source.known_iff n _).mpr (hlookup.mpr (by simp)))
    · have hnumeric := nssNumericId_toString hvalid
      have hlookup := h name (lit (toString (kind.id e).toNat))
      rw [hget] at hlookup
      have hentry : (NssTrees.init.grown (kind.name e) (kind.id e) (kind.keep e)).found
          (lit (toString (kind.id e).toNat)) = some 0 := by
        rw [NssTrees.found, hnumeric]
        exact (grown_byId_find?_eq_some_iff _ _ _ _ _ _).mpr (.inl ⟨⟨hvalid, rfl⟩, rfl⟩)
      rw [nssCacheGet_of_found source hentry hnode rfl, source.repeats_iff, nssDirect, nssCacheAnswer, hnumeric] at hlookup
      have hrepeats : ¬∃ id, some (kind.id e) = some id ∧ source.byId id = none ∧
          ((NssTrees.init.grown (kind.name e) (kind.id e) (kind.keep e)).found
            (lit (toString (kind.id e).toNat))).isSome := by
        intro hrepeats
        obtain ⟨id, hid, hnone, -⟩ := hrepeats
        rw [← Option.some.inj hid, he'] at hnone
        cases hnone
      have hanswer := hlookup.mpr hrepeats
      dsimp only at hanswer
      rw [kind.name_keep, kind.id_keep, kind.result_keep, if_neg (by simp), if_neg hvalid, he'] at hanswer
      exact (Except.ok.inj hanswer).symm
  refine ⟨fun n e hnumeric he => ?_, fun i e hvalid he => ?_⟩
  · apply hfits n e (source.named_byName n e he)
    rw [NssSource.stored, hnumeric]
    dsimp only
    rw [he]
    rfl
  · apply hfits (lit (toString i.toNat)) e (source.named_byId i e he)
    rw [NssSource.stored, nssNumericId_toString hvalid]
    dsimp only
    rw [he]
    rfl

end agree

end Launch

end DbusBroker
