import DbusBroker.Bus.MatchBuffer
import Mathlib.Algebra.GroupWithZero.Nat
import Mathlib.Algebra.Order.BigOperators.Group.List
import Mathlib.Algebra.Order.Group.Nat

/-!
# The room of match keys

The values of a rule lose their quotes and separators and gain a terminator, which takes the place of the
equals sign in front of the value, so a rule never needs more than its own length.

A clone copies the strings that are pointed to. These are not more than what was written, as each of them
was written once and values that nothing points to only leave a gap.
-/

namespace DbusBroker

open Terminated

/-! ## Strings in a buffer -/

section Packed

variable {buffer buffer' : Bytes} {fields fields' : MatchFields ℕ} {refs refs' : List ℕ}

/-- The room of strings with their terminators. -/
def room (buffer : Bytes) (refs : List ℕ) : ℕ := (refs.map fun p => (stringAt 0 buffer p).length + 1).sum

/-- References lead to terminated strings of a buffer that has room for all of them. -/
structure Packed (buffer : Bytes) (refs : List ℕ) : Prop where
  held : ∀ p ∈ refs, Holds 0 buffer p
  fits : room buffer refs ≤ buffer.length

/-- The references that fields have. -/
def MatchFields.references (fields : MatchFields ℕ) : List ℕ := fields.slots.reduceOption

/-- Room of strings does not change when the buffer grows. -/
theorem room_eq (hheld : ∀ p ∈ refs, Holds 0 buffer p) (hgrows : buffer <+: buffer') :
    room buffer' refs = room buffer refs := by
  rw [room, room]
  refine congrArg List.sum (List.map_congr_left fun p hp => ?_)
  rw [(hheld p hp).stringAt_eq hgrows]

/-- Fewer strings need less room. -/
theorem room_le (h : refs'.Subperm refs) : room buffer refs' ≤ room buffer refs := by
  obtain ⟨refs'', hperm, hsublist⟩ := h
  rw [room, ← (hperm.map _).sum_eq]
  exact (hsublist.map _).sum_le_sum fun _ _ => Nat.zero_le _

/-- A value that was pushed and is perhaps referred to. -/
theorem Packed.push {v : Bytes} (h : Packed buffer refs) (hv : (0 : UInt8) ∉ v)
    (hwrites : refs'.Subperm (buffer.length :: refs)) : Packed (push 0 buffer v) refs' where
  held := by
    intro p hp
    obtain rfl | hp := List.mem_cons.mp (hwrites.subset hp)
    · exact holds_push 0 buffer v
    · exact (h.held p hp).mono (prefix_push 0 buffer v)
  fits := by
    calc room (Terminated.push 0 buffer v) refs'
        ≤ room (Terminated.push 0 buffer v) (buffer.length :: refs) := room_le hwrites
      _ = (v.length + 1) + room buffer refs := by
        rw [← room_eq h.held (prefix_push 0 buffer v), room, List.map_cons, List.sum_cons, stringAt_push buffer hv]
        rfl
      _ ≤ (Terminated.push 0 buffer v).length := by
        have hfits := h.fits
        rw [length_push]
        omega

/-- Fields lead to what their references lead to. -/
theorem MatchFields.map_congr {f g : ℕ → Bytes} (h : ∀ p ∈ fields.references, f p = g p) :
    fields.map f = fields.map g := by
  have hslot : ∀ slot ∈ fields.slots, slot.map f = slot.map g := by
    intro slot hslot
    cases slot with
    | none => rfl
    | some p => exact congrArg some (h p (List.reduceOption_mem_iff.mpr hslot))
  have hargs : ∀ slot ∈ fields.args, slot ∈ fields.slots := fun slot hmem => by simp [slots, hmem]
  have hargpaths : ∀ slot ∈ fields.argpaths, slot ∈ fields.slots := fun slot hmem => by simp [slots, hmem]
  exact MatchFields.ext rfl rfl (hslot _ (by simp [slots])) (hslot _ (by simp [slots])) (hslot _ (by simp [slots]))
    (List.map_congr_left fun slot hmem => hslot slot (hargs slot hmem))
    (List.map_congr_left fun slot hmem => hslot slot (hargpaths slot hmem)) (hslot _ (by simp [slots]))
    (hslot _ (by simp [slots])) (hslot _ (by simp [slots])) (hslot _ (by simp [slots]))

/-- What fields lead to stays when the buffer grows. -/
theorem map_stringAt_eq (hheld : ∀ p ∈ fields.references, Holds 0 buffer p) (hgrows : buffer <+: buffer') :
    fields.map (stringAt 0 buffer') = fields.map (stringAt 0 buffer) :=
  MatchFields.map_congr fun p hp => (hheld p hp).stringAt_eq hgrows

/-! ## The parser -/

variable {allowEavesdrop : Bool} {keys : MatchKeys} {s : Bytes} {n : ℕ}

/-- Both parsers agree: they end with the same error, or the keys in the buffer lead to the same strings; and the
buffer has room for what was written. -/
inductive ParseAgrees (n : ℕ) : Option (MatchError × MatchFields ℕ × Bytes) → Except MatchError MatchKeys → Prop
  | error {e : MatchError} {fields : MatchFields ℕ} {written : Bytes} (he : e ≠ .eof) (size : written.length ≤ n) :
      ParseAgrees n (some (e, fields, written)) (.error e)
  | ok {fields : MatchFields ℕ} {keys : MatchKeys} {written : Bytes} (packed : Packed written fields.references)
      (loads : fields.map (stringAt 0 written) = keys.fields) (size : written.length ≤ n) :
      ParseAgrees n (some (.eof, fields, written)) (.ok keys)

/-- A key that was read is not empty, and the string behind it is a part of the string. -/
theorem matchParseKey_ok {key body : Bytes} (h : matchParseKey s = .ok (key, body)) :
    body <:+ s ∧ body.length < s.length := by
  obtain ⟨heof, -⟩ | hinvalid | ⟨lead, key', gap, body', hok, hs, -⟩ := matchParseKey_cases s
  · cases heof.symm.trans h
  · cases hinvalid.symm.trans h
  · cases hok.symm.trans h
    have hsuffix : byte '=' :: body <:+ s :=
      hs ▸ ((List.suffix_append gap _).trans (List.suffix_append key _)).trans (List.suffix_append lead _)
    exact ⟨(List.suffix_cons _ body).trans hsuffix, hsuffix.length_le⟩

/-- What `match_parse_key` fails with. -/
theorem matchParseKey_error {e : MatchError} (h : matchParseKey s = .error e) : e = .eof ∨ e = .invalid := by
  obtain ⟨heof, -⟩ | hinvalid | ⟨lead, key', gap, body', hok, -⟩ := matchParseKey_cases s
  · exact .inl (Except.error.inj (heof.symm.trans h)).symm
  · exact .inr (Except.error.inj (hinvalid.symm.trans h)).symm
  · cases hok.symm.trans h

/-- The loop of `match_keys_parse` writes no more than it reads, and ends with the same keys. -/
theorem matchKeysParseInto_agrees (fuel : ℕ) (hpacked : Packed buffer fields.references)
    (hloads : fields.map (stringAt 0 buffer) = keys.fields) (hs : (0 : UInt8) ∉ s) (hfuel : s.length < fuel)
    (hsize : buffer.length + s.length ≤ n) :
    ParseAgrees n (matchKeysParseInto allowEavesdrop fuel fields s buffer)
      (matchKeysParseLoop allowEavesdrop fuel keys s) := by
  induction fuel generalizing fields buffer keys s with
  | zero => exact absurd hfuel (Nat.not_lt_zero _)
  | succ fuel ih =>
    rw [matchKeysParseInto, matchKeysParseLoop]
    cases hkey : matchParseKey s with
    | error e =>
      obtain rfl | rfl := matchParseKey_error hkey
      · exact .ok hpacked hloads (by omega)
      · exact .error (by simp) (by omega)
    | ok r =>
      obtain ⟨key, body⟩ := r
      obtain ⟨hbody, hlength⟩ := matchParseKey_ok hkey
      have hplain : (0 : UInt8) ∉ body := fun hmem => hs (hbody.mem hmem)
      have hcopy := matchCopyValueInto_agrees hplain false buffer
      dsimp only
      generalize matchCopyValueInto body false buffer = r at hcopy ⊢
      generalize matchCopyValue body false = r' at hcopy ⊢
      cases hcopy with
      | leftOpen size =>
        refine .error (by simp) ?_
        rw [length_push]
        omega
      | @value v rest size plain suffix =>
        have hsame : fields.map (stringAt 0 (push 0 buffer v)) = keys.fields :=
          (map_stringAt_eq hpacked.held (prefix_push 0 buffer v)).trans hloads
        have hassign := matchKeysAssignAt_agrees hsame key buffer.length allowEavesdrop
        rw [stringAt_push buffer plain] at hassign
        dsimp only
        generalize matchKeysAssignAt (stringAt 0 (push 0 buffer v)) fields key buffer.length allowEavesdrop = a at hassign ⊢
        generalize matchKeysAssign keys key v allowEavesdrop = a' at hassign ⊢
        cases hassign with
        | invalid =>
          refine .error (by simp) ?_
          rw [length_push]
          omega
        | ok loads writes =>
          refine ih (hpacked.push plain writes) loads (fun hmem => hplain (suffix.mem hmem)) (by omega) ?_
          rw [length_push]
          omega

/-- More rounds than needed change nothing. -/
theorem matchKeysParseInto_mono {fuel fuel' : ℕ} {r : MatchError × MatchFields ℕ × Bytes}
    (h : matchKeysParseInto allowEavesdrop fuel fields s buffer = some r) (hle : fuel ≤ fuel') :
    matchKeysParseInto allowEavesdrop fuel' fields s buffer = some r := by
  induction fuel generalizing fields s buffer fuel' with
  | zero => cases h
  | succ fuel ih =>
    obtain ⟨fuel', rfl⟩ := Nat.exists_eq_add_of_le' (Nat.one_le_of_lt hle)
    rw [matchKeysParseInto] at h ⊢
    cases hkey : matchParseKey s with
    | error e => rwa [hkey] at h
    | ok key =>
      obtain ⟨key, body⟩ := key
      rw [hkey] at h
      dsimp only at h ⊢
      generalize matchCopyValueInto body false buffer = copied at h ⊢
      obtain ⟨quoted, rest, written⟩ := copied
      cases quoted with
      | true => exact h
      | false =>
        dsimp only at h ⊢
        generalize matchKeysAssignAt (stringAt 0 written) fields key buffer.length allowEavesdrop = a at h ⊢
        cases a with
        | error e => exact h
        | ok fields => exact ih h (Nat.le_of_succ_le_succ hle)

/-! ## Clones -/

variable {source buffer'' : Bytes} {slots slots' more more' : List (Option ℕ)}

/-- Slots and what a copy of them is. -/
structure Copied (source : Bytes) (slots : List (Option ℕ)) (buffer : Bytes) (slots' : List (Option ℕ))
    (buffer' : Bytes) : Prop where
  grows : buffer <+: buffer'
  size : buffer'.length = buffer.length + room source slots.reduceOption
  held : ∀ p ∈ slots'.reduceOption, Holds 0 buffer' p
  reads : slots'.map (Option.map (stringAt 0 buffer')) = slots.map (Option.map (stringAt 0 source))

/-- A slot is copied. -/
theorem copied_slot (source buffer : Bytes) (slot : Option ℕ) :
    Copied source [slot] buffer [(copySlot source buffer slot).1] (copySlot source buffer slot).2 := by
  cases slot with
  | none => exact ⟨List.prefix_rfl, rfl, fun p hp => absurd hp List.not_mem_nil, rfl⟩
  | some p =>
    refine ⟨prefix_push 0 buffer _, length_push 0 buffer _, fun q hq => ?_, ?_⟩
    · rw [List.mem_singleton.mp hq]
      exact holds_push 0 buffer _
    · exact congrArg (fun string => [some string]) (stringAt_push buffer (stop_not_mem_stringAt 0 source p))

/-- Slots are copied behind slots. -/
theorem Copied.append (h : Copied source slots buffer slots' buffer') (hmore : Copied source more buffer' more' buffer'') :
    Copied source (slots ++ more) buffer (slots' ++ more') buffer'' where
  grows := h.grows.trans hmore.grows
  size := by
    rw [hmore.size, h.size, List.reduceOption_append, room, room, room, List.map_append, List.sum_append, Nat.add_assoc]
  held := by
    intro p hp
    rw [List.reduceOption_append, List.mem_append] at hp
    obtain hp | hp := hp
    · exact (h.held p hp).mono hmore.grows
    · exact hmore.held p hp
  reads := by
    have hstays : slots'.map (Option.map (stringAt 0 buffer'')) = slots'.map (Option.map (stringAt 0 buffer')) := by
      refine List.map_congr_left fun slot hslot => ?_
      cases slot with
      | none => rfl
      | some p => exact congrArg some ((h.held p (List.reduceOption_mem_iff.mpr hslot)).stringAt_eq hmore.grows)
    rw [List.map_append, List.map_append, hstays, h.reads, hmore.reads]

/-- The slots of an array are copied. -/
theorem copied_slots (source buffer : Bytes) (slots : List (Option ℕ)) :
    Copied source slots buffer (copySlots source buffer slots).1 (copySlots source buffer slots).2 := by
  induction slots generalizing buffer with
  | nil => exact ⟨List.prefix_rfl, rfl, fun p hp => absurd hp List.not_mem_nil, rfl⟩
  | cons slot slots ih => exact (copied_slot source buffer slot).append (ih _)

/-- `match_keys_clone` copies all references. -/
theorem matchKeysClone_copied (old : PackedKeys) :
    Copied old.written old.fields.slots [] (matchKeysClone old).keys.fields.slots (matchKeysClone old).keys.written :=
  (copied_slot _ _ _).append <| (copied_slot _ _ _).append <| (copied_slot _ _ _).append <|
    (copied_slots _ _ _).append <| (copied_slots _ _ _).append <| (copied_slot _ _ _).append <|
    (copied_slot _ _ _).append <| (copied_slot _ _ _).append <| copied_slot _ _ _

/-- The slots of replaced references. -/
theorem MatchFields.slots_map {α β : Type} (f : α → β) (fields : MatchFields α) :
    (fields.map f).slots = fields.slots.map (Option.map f) := by
  simp only [slots, map, List.map_cons, List.map_append, List.map_nil]

/-- Fields are determined by their slots and the lengths of their arrays. -/
theorem MatchFields.eq_of_slots_eq {α : Type} {f g : MatchFields α} (htype : f.type = g.type)
    (hsender : f.filterSender = g.filterSender) (hargs : f.args.length = g.args.length)
    (hargpaths : f.argpaths.length = g.argpaths.length) (h : f.slots = g.slots) : f = g := by
  simp only [slots, List.cons.injEq] at h
  obtain ⟨hinterface, hmember, hpath, harrays⟩ := h
  obtain ⟨hargs', hbehind⟩ := List.append_inj harrays hargs
  obtain ⟨hargpaths', hlast⟩ := List.append_inj hbehind hargpaths
  simp only [List.cons.injEq, and_true] at hlast
  obtain ⟨hdestination, hname, hpathNamespace, harg0namespace⟩ := hlast
  exact MatchFields.ext htype hsender hinterface hmember hpath hargs' hargpaths' hdestination hname hpathNamespace
    harg0namespace

/-- An array is as long as its copy. -/
theorem Copied.length_eq (h : Copied source slots buffer slots' buffer') : slots'.length = slots.length := by
  have hlength := congrArg List.length h.reads
  rwa [List.length_map, List.length_map] at hlength

/-- A clone leads to the same strings. -/
theorem matchKeysClone_reads (old : PackedKeys) :
    (matchKeysClone old).keys.fields.map (stringAt 0 (matchKeysClone old).keys.written) =
      old.fields.map (stringAt 0 old.written) := by
  refine MatchFields.eq_of_slots_eq rfl rfl ?_ ?_ ?_
  · show (List.map _ _).length = (List.map _ _).length
    rw [List.length_map, List.length_map]
    exact (copied_slots old.written _ old.fields.args).length_eq
  · show (List.map _ _).length = (List.map _ _).length
    rw [List.length_map, List.length_map]
    exact (copied_slots old.written _ old.fields.argpaths).length_eq
  · rw [MatchFields.slots_map, MatchFields.slots_map]
    exact (matchKeysClone_copied old).reads

/-- The keys that a buffer holds. -/
def PackedKeys.Loads (packed : PackedKeys) (keys : MatchKeys) : Prop :=
  packed.fields.map (stringAt 0 packed.written) = keys.fields

/-- A buffer holds at most one key set. -/
theorem PackedKeys.Loads.unique {packed : PackedKeys} {keys keys' : MatchKeys} (h : packed.Loads keys)
    (h' : packed.Loads keys') : keys = keys' :=
  MatchKeys.eq_of_fields_eq (h.symm.trans h')

/-- A clone does not need more room than the original. -/
theorem matchKeysClone_size {old : PackedKeys} (h : Packed old.written old.fields.references) :
    (matchKeysClone old).keys.written.length ≤ old.written.length := by
  rw [(matchKeysClone_copied old).size, List.length_nil, Nat.zero_add]
  exact h.fits

/-- Parsing any string ends, writes no more than the string and its terminator, and accepts what it accepts; what
was accepted is cloned into no more than its buffer, and the clone is equal to it and matches the same messages. -/
theorem matchKeysInit_fits (s : Bytes) (hs : (0 : UInt8) ∉ s) (allowEavesdrop : Bool) :
    ∃ parsed : Filled, (∀ fuel, s.length < fuel → matchKeysInit fuel s allowEavesdrop = some parsed) ∧
      parsed.keys.written.length ≤ s.length + 1 ∧ parsed.asserts = true ∧
      (∀ e, parsed.error = some e → matchKeysParse s allowEavesdrop = .error e) ∧
      (parsed.error = none →
        (matchKeysClone parsed.keys).keys.written.length ≤ parsed.keys.nBuffer ∧
        (matchKeysClone parsed.keys).asserts = true ∧
        ∃ keys keys', matchKeysParse s allowEavesdrop = .ok keys ∧ parsed.keys.Loads keys ∧
          (matchKeysClone parsed.keys).keys.Loads keys' ∧ matchKeysCompare keys' keys = .eq ∧
          ∀ metadata, matchKeysMatchMetadata keys' metadata = matchKeysMatchMetadata keys metadata) := by
  have hnull : Packed [] (MatchFields.null : MatchFields ℕ).references :=
    ⟨fun p hp => absurd hp List.not_mem_nil, Nat.le_refl 0⟩
  have hagrees : ParseAgrees s.length (matchKeysParseInto allowEavesdrop (s.length + 1) MatchFields.null s [])
      (matchKeysParse s allowEavesdrop) :=
    matchKeysParseInto_agrees (s.length + 1) hnull rfl hs (Nat.lt_succ_self _) (Nat.le_of_eq (Nat.zero_add _))
  have hmono {fuel : ℕ} (hfuel : s.length < fuel) {r : MatchError × MatchFields ℕ × Bytes}
      (hr : matchKeysParseInto allowEavesdrop (s.length + 1) MatchFields.null s [] = some r) :
      matchKeysParseInto allowEavesdrop fuel MatchFields.null s [] = some r := matchKeysParseInto_mono hr hfuel
  generalize matchKeysParseInto allowEavesdrop (s.length + 1) MatchFields.null s [] = r at hagrees hmono
  generalize matchKeysParse s allowEavesdrop = r' at hagrees ⊢
  cases hagrees with
  | @error e fields written he size =>
    refine ⟨⟨some e, ⟨fields, written.length, written⟩, true⟩, fun fuel hfuel => ?_, Nat.le_succ_of_le size, rfl,
      fun e' he' => congrArg _ (Option.some.inj he'), fun hnone => by cases hnone⟩
    rw [matchKeysInit, hmono hfuel rfl]
    dsimp only
    rw [if_neg he, decide_eq_true (Nat.le_succ_of_le size)]
  | @ok fields keys written packed loads size =>
    have hclone : (matchKeysClone ⟨fields, written.length, written⟩).keys.written.length ≤ written.length :=
      matchKeysClone_size packed
    have hreads : (matchKeysClone ⟨fields, written.length, written⟩).keys.Loads keys :=
      (matchKeysClone_reads _).trans loads
    refine ⟨⟨none, ⟨fields, written.length, written⟩, true⟩, fun fuel hfuel => ?_, Nat.le_succ_of_le size, rfl, ?_, ?_⟩
    · rw [matchKeysInit, hmono hfuel rfl]
      dsimp only
      rw [if_pos rfl, decide_eq_true (Nat.le_succ_of_le size)]
    · intro e he
      cases he
    · intro hnone
      exact ⟨hclone, decide_eq_true hclone, keys, keys, rfl, loads, hreads, Std.ReflCmp.compare_self, fun _ => rfl⟩

/-- The values of a rule with their terminators, and the gap of a value that is dropped. -/
example : (matchKeysInit 40 (lit "eavesdrop='true',member=A,arg0=") true).map (fun parsed => parsed.keys.written) =
    some (lit "true" ++ 0 :: lit "A" ++ [0, 0]) := by decide +kernel

/-- A rule with a quoted value and one that ends the string. -/
theorem matchKeysInit_fits_signal :
    ∃ parsed : Filled, (∀ fuel, (lit "type='signal',arg0=").length < fuel →
        matchKeysInit fuel (lit "type='signal',arg0=") false = some parsed) ∧
      parsed.keys.written.length ≤ (lit "type='signal',arg0=").length + 1 := by
  obtain ⟨parsed, hterminates, hsize, -⟩ := matchKeysInit_fits (lit "type='signal',arg0=") (by decide) false
  exact ⟨parsed, hterminates, hsize⟩

end Packed

end DbusBroker
