import DbusBroker.Dbus.Marshalling

/-!
# Headers of messages on the wire

A header is a fixed part and an array of fields. Every field is a structure of a code and a
variant. Known fields stand there once at most, with the type of their code and a value that
passes its check; unknown fields are of any type. The fields that the type of the message needs
must be there.

`message_parse_header` accepts these headers and no others.
-/

namespace DbusBroker

namespace Wire

open AlignedReader

/-! ## The format -/

/-- The type of a header field that is a string, and the check of its value. -/
def stringField (field : UInt8) : Option (UInt8 × (Bytes → Bool)) :=
  if field = 1 then some (byte 'o', fun path => path ≠ lit "/org/freedesktop/DBus/Local")
  else if field = 2 then
    some (byte 's', fun interface => interface ≠ lit "org.freedesktop.DBus.Local" && dbusValidateInterface interface)
  else if field = 3 then some (byte 's', dbusValidateMember)
  else if field = 4 then some (byte 's', dbusValidateInterface)
  else if field = 6 then some (byte 's', dbusValidateName)
  else if field = dbusMessageFieldSender then some (byte 's', dbusValidateName)
  else if field = 8 then some (byte 'g', fun _ => true)
  else none

/-- The check of a header field that is a number. -/
def numberField (nFds : ℕ) (field : UInt8) : Option (ℕ → Bool) :=
  if field = 5 then some fun serial => serial ≠ 0
  else if field = 9 then some fun fds => fds ≤ nFds
  else none

/-- The variant of a known field at a position. -/
inductive KnownField (bigEndian : Bool) (nFds : ℕ) (field : UInt8) (o : ℕ) : Bytes → Prop
  | string {c : UInt8} {valid : Bytes → Bool} {b value : Bytes} (hfield : stringField field = some (c, valid))
      (hvalue : MarshalledString bigEndian c (o + 3) b value) (hvalid : valid value = true) :
      KnownField bigEndian nFds field o ([1, c, 0] ++ b)
  | number {valid : ℕ → Bool} {d : Bytes} (hfield : numberField nFds field = some valid) (hd : d.length = 4)
      (hvalid : valid (uint32OfBytes bigEndian d) = true) :
      KnownField bigEndian nFds field o ([1, byte 'u', 0] ++ (padding 2 (o + 3) ++ d))

/-- What stands behind the code of a field. -/
def FieldValue (bigEndian : Bool) (nFds : ℕ) (field : UInt8) (o : ℕ) (b : Bytes) : Prop :=
  if dbusMessageFieldN ≤ field then Marshalled bigEndian fieldLevels [byte 'v'] o b
  else KnownField bigEndian nFds field o b

/-- A header field at a position. -/
def HeaderField (bigEndian : Bool) (nFds : ℕ) (field : UInt8) (o : ℕ) (b : Bytes) : Prop :=
  ∃ d, b = padding 3 o ++ field :: d ∧ FieldValue bigEndian nFds field (o + (padding 3 o).length + 1) d

/-- A header whose fields have these codes. -/
inductive MarshalledHeader (bigEndian : Bool) (nFds : ℕ) (codes : List UInt8) : Bytes → Prop
  | mk {endian type flags : UInt8} {nBody serial size fields : Bytes} (hbody : nBody.length = 4)
      (hserial : serial.length = 4) (hsize : size.length = 4) (htype : type ≠ dbusMessageTypeInvalid)
      (hnonzero : uint32OfBytes bigEndian serial ≠ 0) (hlen : uint32OfBytes bigEndian size = fields.length)
      (hfields : Consecutive (HeaderField bigEndian nFds) codes 16 fields)
      (honce : (codes.filter (· < dbusMessageFieldN)).Nodup)
      (hmandatory : ∀ field : UInt8, (mandatoryFields type).testBit field.toNat = true → field ∈ codes) :
      MarshalledHeader bigEndian nFds codes
        (endian :: type :: flags :: 1 :: (nBody ++ (serial ++ (size ++ fields))))

/-! ## The value of a field -/

variable {bigEndian : Bool} {nFds : ℕ}

theorem accepts_dvar {α : Type} {r : DvarReader α} {L : ℕ → Bytes → α → Prop} (h : Accepts r L) : Accepts (dvar r) L :=
  fun c a c' => dvar_eq_ok_iff.trans (h c a c')

theorem accepts_cDvarReadVariant {c : UInt8} (hc : c ∈ lit "sogu") :
    Accepts (cDvarReadVariant [c]) fun _ used _ => used = [1, c, 0] := by
  have htype : ∀ c ∈ lit "sogu", cDvarIsType [c] = true := by
    simp [lit, byte, cDvarIsType, cDvarVerifyType, cDvarBasic, cDvarTypeLengthMax]
  refine (accepts_cDvarReadType.bind fun str => Accepts.check _ _).congr fun o used _ => ?_
  constructor
  · rintro ⟨_, _, str, rfl, ⟨size, rfl, hlen, _⟩, rfl, hstr⟩
    obtain rfl : str = [c] := of_decide_eq_true hstr
    obtain rfl : size = 1 := UInt8.toNat_inj.mp hlen
    rfl
  · rintro rfl
    exact ⟨[1, c, 0], [], [c], rfl, ⟨1, rfl, rfl, htype c hc⟩, rfl, decide_eq_true rfl⟩

theorem accepts_readStringField {c : UInt8} (hc : c ∈ lit "sogu") (valid : Bytes → Bool) :
    Accepts (readStringField bigEndian c valid) fun o used value =>
      ∃ b, used = [1, c, 0] ++ b ∧ MarshalledString bigEndian c (o + 3) b value ∧ valid value = true := by
  refine ((accepts_dvar (accepts_cDvarReadVariant hc)).bind fun _ =>
    (accepts_dvar (accepts_cDvarReadString bigEndian c)).bind fun value =>
      (Accepts.check _ _).bind fun _ => Accepts.pure value).congr fun o used value => ?_
  constructor
  · rintro ⟨_, _, _, rfl, rfl, b, _, _, rfl, hvalue, _, _, _, rfl, ⟨rfl, hvalid⟩, rfl, rfl⟩
    exact ⟨b, by rw [List.append_nil, List.append_nil], hvalue, hvalid⟩
  · rintro ⟨b, rfl, hvalue, hvalid⟩
    exact ⟨[1, c, 0], b, (), rfl, rfl, b, [], value, (List.append_nil b).symm, hvalue, [], [], (), rfl, ⟨rfl, hvalid⟩,
      rfl, rfl⟩

theorem accepts_readUint32Field (e : MessageError) (valid : ℕ → Bool) :
    Accepts (readUint32Field bigEndian e valid) fun o used value =>
      ∃ d : Bytes, d.length = 4 ∧ used = [1, byte 'u', 0] ++ (padding 2 (o + 3) ++ d) ∧
        value = uint32OfBytes bigEndian d ∧ valid value = true := by
  refine ((accepts_dvar (accepts_cDvarReadVariant (by decide))).bind fun _ =>
    (accepts_dvar (accepts_cDvarReadU32 bigEndian)).bind fun value =>
      (Accepts.check _ _).bind fun _ => Accepts.pure value).congr fun o used value => ?_
  constructor
  · rintro ⟨_, _, _, rfl, rfl, _, _, _, rfl, ⟨d, hd, rfl, rfl⟩, _, _, _, rfl, ⟨rfl, hvalid⟩, rfl, rfl⟩
    exact ⟨d, hd, by rw [List.append_nil, List.append_nil]; rfl, rfl, hvalid⟩
  · rintro ⟨d, hd, rfl, rfl, hvalid⟩
    exact ⟨[1, byte 'u', 0], _, (), rfl, rfl, padding 2 (o + 3) ++ d, [], _, (List.append_nil _).symm,
      ⟨d, hd, rfl, rfl⟩, [], [], (), rfl, ⟨rfl, hvalid⟩, rfl, rfl⟩

variable {field : UInt8} {a : ℕ}

theorem acceptsAs_string {c : UInt8} {valid : Bytes → Bool} {set : Bytes → Fields} (hc : c ∈ lit "sogu")
    (hstring : stringField field = some (c, valid)) (hnumber : numberField nFds field = none)
    (hset : ∀ value, (set value).available = a) :
    AcceptsAs Fields.available (readStringField bigEndian c valid >>= fun value => pure (set value)) fun o used x =>
      KnownField bigEndian nFds field o used ∧ x = a := by
  refine (((accepts_readStringField hc valid).bind fun value => Accepts.pure (set value)).as
    Fields.available).congr fun o used x => ?_
  constructor
  · rintro ⟨_, ⟨_, _, value, rfl, ⟨b, rfl, hvalue, hvalid⟩, rfl, rfl⟩, rfl⟩
    rw [List.append_nil]
    exact ⟨.string hstring hvalue hvalid, hset value⟩
  · rintro ⟨h, rfl⟩
    cases h with
    | @string c' valid' b value hfield hvalue hvalid =>
      obtain ⟨rfl, rfl⟩ := Prod.mk.inj (Option.some.inj (hstring.symm.trans hfield))
      exact ⟨set value, ⟨_, [], value, (List.append_nil _).symm, ⟨b, rfl, hvalue, hvalid⟩, rfl, rfl⟩, hset value⟩
    | number hfield =>
      rw [hnumber] at hfield
      cases hfield

theorem acceptsAs_number {e : MessageError} {valid : ℕ → Bool} {set : ℕ → Fields}
    (hstring : stringField field = none) (hnumber : numberField nFds field = some valid)
    (hset : ∀ value, (set value).available = a) :
    AcceptsAs Fields.available (readUint32Field bigEndian e valid >>= fun value => pure (set value)) fun o used x =>
      KnownField bigEndian nFds field o used ∧ x = a := by
  refine (((accepts_readUint32Field e valid).bind fun value => Accepts.pure (set value)).as
    Fields.available).congr fun o used x => ?_
  constructor
  · rintro ⟨_, ⟨_, _, value, rfl, ⟨d, hd, rfl, rfl, hvalid⟩, rfl, rfl⟩, rfl⟩
    rw [List.append_nil]
    exact ⟨.number hnumber hd hvalid, hset _⟩
  · rintro ⟨h, rfl⟩
    cases h with
    | string hfield =>
      rw [hstring] at hfield
      cases hfield
    | @number valid' d hfield hd hvalid =>
      obtain rfl := Option.some.inj (hnumber.symm.trans hfield)
      exact ⟨set _, ⟨_, [], _, (List.append_nil _).symm, ⟨d, hd, rfl, rfl, hvalid⟩, rfl, rfl⟩, hset _⟩

/-- A known field is read where its variant stands. -/
theorem acceptsAs_messageReadKnown (f : Fields) :
    AcceptsAs Fields.available (messageReadKnown bigEndian nFds field f) fun o used x =>
      KnownField bigEndian nFds field o used ∧ x = f.available := by
  have hs : byte 's' ∈ lit "sogu" := by decide
  have ho : byte 'o' ∈ lit "sogu" := by decide
  have hg : byte 'g' ∈ lit "sogu" := by decide
  rw [messageReadKnown]
  refine .ite (fun h => ?_) fun h1 => .ite (fun h => ?_) fun h2 => .ite (fun h => ?_) fun h3 =>
    .ite (fun h => ?_) fun h4 => .ite (fun h => ?_) fun h5 => .ite (fun h => ?_) fun h6 => .ite (fun h => ?_) fun h7 =>
      .ite (fun h => ?_) fun h8 => .ite (fun h => ?_) fun h9 => ?_
  · exact h ▸ acceptsAs_string ho rfl rfl fun _ => rfl
  · exact h ▸ acceptsAs_string hs rfl rfl fun _ => rfl
  · exact h ▸ acceptsAs_string hs rfl rfl fun _ => rfl
  · exact h ▸ acceptsAs_string hs rfl rfl fun _ => rfl
  · exact h ▸ acceptsAs_number rfl rfl fun _ => rfl
  · exact h ▸ acceptsAs_string hs rfl rfl fun _ => rfl
  · exact h ▸ acceptsAs_string hs rfl rfl fun _ => rfl
  · exact h ▸ acceptsAs_string hg rfl rfl fun _ => rfl
  · exact h ▸ acceptsAs_number rfl rfl fun _ => rfl
  · have hstring : stringField field = none := by
      rw [stringField, if_neg h1, if_neg h2, if_neg h3, if_neg h4, if_neg h6, if_neg h7, if_neg h8]
    have hnumber : numberField nFds field = none := by rw [numberField, if_neg h5, if_neg h9]
    refine ((Accepts.fail _).as Fields.available).congr fun o used x =>
      ⟨fun h => h.elim fun _ h => h.1.elim, fun h => ?_⟩
    obtain ⟨hknown, -⟩ := h
    cases hknown with
    | string hfield =>
      rw [hstring] at hfield
      cases hfield
    | number hfield =>
      rw [hnumber] at hfield
      cases hfield

/-! ## The fields -/

/-- The set of the known fields that were seen, with one field more. -/
def mark (available : ℕ) (field : UInt8) : ℕ :=
  if dbusMessageFieldN ≤ field then available else available ||| 2 ^ field.toNat

/-- One round of the loop over the fields, as the set of the known fields sees it. -/
def HeaderStep (bigEndian : Bool) (nFds available o : ℕ) (b : Bytes) (available' : ℕ) : Prop :=
  ∃ field : UInt8, HeaderField bigEndian nFds field o b ∧
    (field < dbusMessageFieldN → available.testBit field.toNat = false) ∧ available' = mark available field

theorem acceptsAs_messageReadField (f : Fields) :
    AcceptsAs (fun p : UInt8 × Fields => p.2.available) (messageReadField bigEndian nFds f) fun o used x =>
      ∃ field d, used = field :: d ∧ FieldValue bigEndian nFds field (o + 1) d ∧
        (field < dbusMessageFieldN → f.available.testBit field.toNat = false) ∧ x = mark f.available field := by
  intro c c' x
  constructor
  · rintro ⟨⟨field, f'⟩, h, rfl⟩
    obtain ⟨rest, hrest, hfield⟩ := messageReadField_eq_ok_iff.mp h
    by_cases hknown : dbusMessageFieldN ≤ field
    · rw [if_pos hknown] at hfield
      obtain ⟨rfl, hskip⟩ := hfield
      obtain ⟨d, hd, hoffset, hvalue⟩ := (accepts_cDvarSkip _ _ _ _ _ _).mp hskip
      refine ⟨field :: d, ?_, ?_, field, d, rfl, ?_, fun hlt => absurd hknown (UInt8.not_le.mpr hlt), ?_⟩
      · rw [hrest]
        exact congrArg (field :: ·) hd
      · rw [hoffset, List.length_cons, Nat.add_comm d.length, ← Nat.add_assoc]
      · rw [FieldValue, if_pos hknown]
        exact hvalue
      · rw [mark, if_pos hknown]
    · rw [if_neg hknown] at hfield
      obtain ⟨hnew, hread⟩ := hfield
      obtain ⟨d, hd, hoffset, hvalue, hx⟩ := (acceptsAs_messageReadKnown _ _ _ _).mp ⟨f', hread, rfl⟩
      refine ⟨field :: d, ?_, ?_, field, d, rfl, ?_, fun _ => hnew, ?_⟩
      · rw [hrest]
        exact congrArg (field :: ·) hd
      · rw [hoffset, List.length_cons, Nat.add_comm d.length, ← Nat.add_assoc]
      · rw [FieldValue, if_neg hknown]
        exact hvalue
      · rw [mark, if_neg hknown]
        exact hx
  · rintro ⟨used, hrest, hoffset, field, d, rfl, hvalue, hnew, rfl⟩
    rw [List.length_cons, Nat.add_comm d.length, ← Nat.add_assoc] at hoffset
    by_cases hknown : dbusMessageFieldN ≤ field
    · rw [FieldValue, if_pos hknown] at hvalue
      refine ⟨(field, f), messageReadField_eq_ok_iff.mpr ⟨d ++ c'.rest, hrest, ?_⟩, by rw [mark, if_pos hknown]⟩
      rw [if_pos hknown]
      exact ⟨rfl, (accepts_cDvarSkip _ _ _ _ _ _).mpr ⟨d, rfl, hoffset, hvalue⟩⟩
    · rw [FieldValue, if_neg hknown] at hvalue
      obtain ⟨f', hread, hx⟩ := (acceptsAs_messageReadKnown { f with available := f.available ||| 2 ^ field.toNat }
        ⟨c.offset + 1, d ++ c'.rest⟩ c' _).mpr ⟨d, rfl, hoffset, hvalue, rfl⟩
      refine ⟨(field, f'), messageReadField_eq_ok_iff.mpr ⟨d ++ c'.rest, hrest, ?_⟩, ?_⟩
      · rw [if_neg hknown]
        exact ⟨hnew (UInt8.not_le.mp hknown), hread⟩
      · rw [mark, if_neg hknown]
        exact hx

theorem acceptsAs_headerStep (s : HeaderParse) :
    AcceptsAs (fun s : HeaderParse => s.fields.available)
      (element (fun s : HeaderParse => messageReadField bigEndian nFds s.fields) HeaderParse.next 0 .invalidHeader
        .invalidHeader 8 s)
      (HeaderStep bigEndian nFds s.fields.available) := by
  have hlen (o : ℕ) : (padding 3 o).length = gap 8 o := List.length_replicate
  intro c c' x
  constructor
  · rintro ⟨_, h, rfl⟩
    obtain ⟨rest, p, hrest, hbody, rfl⟩ := element_eq_ok_iff.mp h
    obtain ⟨_, hused, hoffset, field, d, rfl, hvalue, hnew, hx⟩ :=
      (acceptsAs_messageReadField _ _ _ _).mp ⟨p, hbody, rfl⟩
    refine ⟨padding 3 c.offset ++ field :: d, ?_, ?_, field, ⟨d, rfl, ?_⟩, hnew, hx⟩
    · rw [hrest, show rest = _ from hused, List.append_assoc]
      rfl
    · rw [hoffset, List.length_append, hlen, Nat.add_assoc]
    · rw [hlen]
      exact hvalue
  · rintro ⟨_, hrest, hoffset, field, ⟨d, rfl, hvalue⟩, hnew, rfl⟩
    rw [hlen] at hvalue
    obtain ⟨p, hbody, hx⟩ := (acceptsAs_messageReadField s.fields ⟨c.offset + gap 8 c.offset, field :: d ++ c'.rest⟩ c'
      _).mpr ⟨field :: d, rfl, by rw [hoffset, List.length_append, hlen, Nat.add_assoc], field, d, rfl, hvalue, hnew,
        rfl⟩
    refine ⟨_, element_eq_ok_iff.mpr ⟨field :: d ++ c'.rest, p, ?_, hbody, rfl⟩, hx⟩
    rw [hrest, List.append_assoc]
    rfl

/-! ## Which fields were seen -/

/-- The known fields among these stand there once, and none of them was seen before. -/
def Fresh : ℕ → List UInt8 → Prop
  | _, [] => True
  | available, field :: codes =>
    (field < dbusMessageFieldN → available.testBit field.toNat = false) ∧ Fresh (mark available field) codes

theorem testBit_mark (available : ℕ) (field : UInt8) (n : ℕ) :
    (mark available field).testBit n = true ↔
      available.testBit n = true ∨ field < dbusMessageFieldN ∧ field.toNat = n := by
  rw [mark]
  split
  · next hknown => exact (or_iff_left fun h => UInt8.not_le.mpr h.1 hknown).symm
  · next hknown =>
    rw [Nat.testBit_or, Nat.testBit_two_pow, Bool.or_eq_true, decide_eq_true_eq]
    exact or_congr_right (and_iff_right (UInt8.not_le.mp hknown)).symm

theorem testBit_foldl_mark (codes : List UInt8) (available n : ℕ) :
    (codes.foldl mark available).testBit n = true ↔
      available.testBit n = true ∨ ∃ field ∈ codes, field < dbusMessageFieldN ∧ field.toNat = n := by
  induction codes generalizing available with
  | nil => simp
  | cons field codes ih =>
    rw [List.foldl_cons, ih, testBit_mark, or_assoc, List.exists_mem_cons_iff]

/-- No known field stands there twice. -/
theorem fresh_iff (codes : List UInt8) (available : ℕ) :
    Fresh available codes ↔ (codes.filter (· < dbusMessageFieldN)).Nodup ∧
      ∀ field ∈ codes, field < dbusMessageFieldN → available.testBit field.toNat = false := by
  induction codes generalizing available with
  | nil => simp [Fresh]
  | cons field codes ih =>
    have hmark : (∀ k ∈ codes, k < dbusMessageFieldN → (mark available field).testBit k.toNat = false) ↔
        (field < dbusMessageFieldN → field ∉ codes) ∧
          ∀ k ∈ codes, k < dbusMessageFieldN → available.testBit k.toNat = false := by
      simp only [← Bool.not_eq_true, testBit_mark]
      constructor
      · intro h
        exact ⟨fun hlt hmem => h field hmem hlt (.inr ⟨hlt, rfl⟩), fun k hk hlt hbit => h k hk hlt (.inl hbit)⟩
      · rintro ⟨hnot, hbits⟩ k hk hlt (hbit | ⟨hfield, heq⟩)
        · exact hbits k hk hlt hbit
        · exact hnot hfield (UInt8.toNat_inj.mp heq ▸ hk)
    rw [Fresh, ih, hmark, List.forall_mem_cons]
    by_cases hfield : field < dbusMessageFieldN
    · rw [List.filter_cons_of_pos (by simpa using hfield), List.nodup_cons, List.mem_filter]
      simp only [hfield, decide_true, and_true, true_imp_iff]
      tauto
    · rw [List.filter_cons_of_neg (by simpa using hfield)]
      simp only [hfield, false_imp_iff, true_and]

/-- The loop over the fields accepts fields one behind the other, known ones once. -/
theorem chain_headerStep_iff {available o y : ℕ} {b : Bytes} :
    Chain (HeaderStep bigEndian nFds) available o b y ↔
      ∃ codes, Consecutive (HeaderField bigEndian nFds) codes o b ∧ Fresh available codes ∧
        y = codes.foldl mark available := by
  constructor
  · intro h
    induction h with
    | nil => exact ⟨[], rfl, trivial, rfl⟩
    | cons _ hword _ ih =>
      obtain ⟨field, hfield, hnew, rfl⟩ := hword
      obtain ⟨codes, hcodes, hfresh, rfl⟩ := ih
      exact ⟨field :: codes, ⟨_, _, rfl, hfield, hcodes⟩, ⟨hnew, hfresh⟩, rfl⟩
  · rintro ⟨codes, hcodes, hfresh, rfl⟩
    induction codes generalizing available o b with
    | nil =>
      obtain rfl : b = [] := hcodes
      exact .nil
    | cons field codes ih =>
      obtain ⟨u, v, rfl, hfield, hrest⟩ := hcodes
      have hne : u ≠ [] := by
        obtain ⟨d, rfl, -⟩ := hfield
        simp
      exact .cons hne ⟨field, hfield, hfresh.1, rfl⟩ (ih hrest hfresh.2)

theorem HeaderStep.ne_nil {available o available' : ℕ} {b : Bytes}
    (h : HeaderStep bigEndian nFds available o b available') : b ≠ [] := by
  obtain ⟨field, ⟨d, rfl, -⟩, -⟩ := h
  simp

/-- The loop comes to the end of the fields one behind the other, where known ones stand once. -/
theorem exists_messageReadFields_iff {o y : ℕ} {b : Bytes} :
    (∃ s c', messageReadFields bigEndian nFds ⟨o, b⟩ = .ok (s, c') ∧ c'.rest = [] ∧ s.fields.available = y) ↔
      ∃ codes, Consecutive (HeaderField bigEndian nFds) codes o b ∧ Fresh 0 codes ∧ y = codes.foldl mark 0 := by
  rw [← chain_headerStep_iff]
  exact acceptsAll_whileMore_chain (g := fun s : HeaderParse => s.fields.available) acceptsAs_headerStep
    (fun _ _ _ _ h => h.ne_nil) ⟨.init, none⟩ b y

/-- The bits of the mandatory fields are set if and only if these fields stand there. -/
theorem mandatory_iff (codes : List UInt8) (type : UInt8) :
    codes.foldl mark 0 &&& mandatoryFields type = mandatoryFields type ↔
      ∀ field : UInt8, (mandatoryFields type).testBit field.toNat = true → field ∈ codes := by
  constructor
  · intro h field hbit
    rw [← h, Nat.testBit_and, Bool.and_eq_true, testBit_foldl_mark, Nat.zero_testBit] at hbit
    obtain ⟨hfalse | ⟨k, hk, -, heq⟩, -⟩ := hbit
    · cases hfalse
    · exact UInt8.toNat_inj.mp heq ▸ hk
  · intro h
    have hlt : mandatoryFields type < 2 ^ 6 := by
      rw [mandatoryFields]
      split_ifs <;> decide
    refine Nat.eq_of_testBit_eq fun n => ?_
    rw [Nat.testBit_and]
    cases hbit : (mandatoryFields type).testBit n with
    | false => rw [Bool.and_false]
    | true =>
      have hn : n < 6 := by
        by_contra hge
        rw [Nat.testBit_lt_two_pow (hlt.trans_le (Nat.pow_le_pow_right (by decide) (Nat.le_of_not_lt hge)))] at hbit
        cases hbit
      have hfield : (UInt8.ofNat n).toNat = n := UInt8.toNat_ofNat_of_lt' (hn.trans (by decide))
      have hknown : UInt8.ofNat n < dbusMessageFieldN := by
        rw [UInt8.lt_iff_toNat_lt, hfield]
        exact hn.trans (by decide)
      rw [Bool.and_true]
      exact (testBit_foldl_mark _ _ _).mpr (.inr ⟨_, h _ (hfield.symm ▸ hbit), hknown, hfield⟩)

/-! ## The header -/

theorem padding_of_dvd {alignment o : ℕ} (h : 2 ^ alignment ∣ o) : padding alignment o = [] := by
  rw [padding, gap_of_dvd h (Nat.two_pow_pos alignment), List.replicate_zero]

theorem dvar_readU8_iff {c c' : Cursor UInt8} {b : UInt8} :
    dvar cDvarReadU8 c = .ok (b, c') ↔ c.rest = b :: c'.rest ∧ c'.offset = c.offset + 1 :=
  dvar_eq_ok_iff.trans cDvarReadU8_eq_ok_iff

theorem dvar_readGap_iff {alignment : ℕ} {c c' : Cursor UInt8} {d : Bytes} (h : 2 ^ alignment ∣ c.offset) :
    dvar (cDvarReadData alignment 0) c = .ok (d, c') ↔ d = [] ∧ c = c' := by
  refine dvar_eq_ok_iff.trans ((accepts_cDvarReadData alignment 0 c d c').trans ?_)
  constructor
  · rintro ⟨used, hrest, hoffset, hd, rfl⟩
    obtain rfl := List.length_eq_zero_iff.mp hd
    rw [padding_of_dvd h] at hrest hoffset
    obtain ⟨o, rest⟩ := c
    obtain ⟨o', rest'⟩ := c'
    exact ⟨rfl, congrArg₂ Cursor.mk hoffset.symm hrest⟩
  · rintro ⟨rfl, rfl⟩
    exact ⟨[], rfl, rfl, rfl, by rw [padding_of_dvd h, List.append_nil]⟩

theorem dvar_readU32_iff {c c' : Cursor UInt8} {n : ℕ} (h : 2 ^ 2 ∣ c.offset) :
    dvar (cDvarReadU32 bigEndian) c = .ok (n, c') ↔
      ∃ d : Bytes, d.length = 4 ∧ c.rest = d ++ c'.rest ∧ c'.offset = c.offset + 4 ∧ n = uint32OfBytes bigEndian d := by
  refine dvar_eq_ok_iff.trans ((accepts_cDvarReadU32 bigEndian c n c').trans ?_)
  constructor
  · rintro ⟨used, hrest, hoffset, d, hd, rfl, hn⟩
    rw [padding_of_dvd h, List.nil_append] at hrest hoffset
    exact ⟨d, hd, hrest, by rw [hoffset, hd], hn⟩
  · rintro ⟨d, hd, hrest, hoffset, hn⟩
    exact ⟨d, hrest, by rw [hoffset, hd], d, hd, by rw [padding_of_dvd h, List.nil_append], hn⟩

/-- The fixed part of a header has no gaps. -/
theorem messageReadFixed_eq_ok_iff {header : Bytes} {fixed : FixedHeader} {c' : Cursor UInt8} :
    messageReadFixed bigEndian ⟨0, header⟩ = .ok (fixed, c') ↔
      ∃ (endian : UInt8) (nBody serial size : Bytes), nBody.length = 4 ∧ serial.length = 4 ∧ size.length = 4 ∧
        header = endian :: fixed.type :: fixed.flags :: fixed.version :: (nBody ++ (serial ++ (size ++ c'.rest))) ∧
        c'.offset = 16 ∧ fixed.serial = uint32OfBytes bigEndian serial ∧
        fixed.nFields = uint32OfBytes bigEndian size := by
  constructor
  · intro h
    obtain ⟨_, c₀, h₀, g₀⟩ := bind_eq_ok_iff.mp h
    obtain ⟨-, hc₀⟩ := (dvar_readGap_iff (Nat.dvd_zero _)).mp h₀
    obtain ⟨endian, c₁, h₁, g₁⟩ := bind_eq_ok_iff.mp g₀
    obtain ⟨type, c₂, h₂, g₂⟩ := bind_eq_ok_iff.mp g₁
    obtain ⟨flags, c₃, h₃, g₃⟩ := bind_eq_ok_iff.mp g₂
    obtain ⟨version, c₄, h₄, g₄⟩ := bind_eq_ok_iff.mp g₃
    obtain ⟨hr₁, ho₁⟩ := dvar_readU8_iff.mp h₁
    obtain ⟨hr₂, ho₂⟩ := dvar_readU8_iff.mp h₂
    obtain ⟨hr₃, ho₃⟩ := dvar_readU8_iff.mp h₃
    obtain ⟨hr₄, ho₄⟩ := dvar_readU8_iff.mp h₄
    have hp₄ : c₄.offset = 4 := by rw [ho₄, ho₃, ho₂, ho₁, ← hc₀]
    obtain ⟨_, c₅, h₅, g₅⟩ := bind_eq_ok_iff.mp g₄
    obtain ⟨nBody, hbody, hr₅, ho₅, -⟩ := (dvar_readU32_iff (by rw [hp₄]; decide)).mp h₅
    obtain ⟨_, c₆, h₆, g₆⟩ := bind_eq_ok_iff.mp g₅
    obtain ⟨serial, hserial, hr₆, ho₆, hs⟩ := (dvar_readU32_iff (by rw [ho₅, hp₄]; decide)).mp h₆
    obtain ⟨_, c₇, h₇, g₇⟩ := bind_eq_ok_iff.mp g₆
    obtain ⟨size, hsize, hr₇, ho₇, hn⟩ := (dvar_readU32_iff (by rw [ho₆, ho₅, hp₄]; decide)).mp h₇
    obtain ⟨_, c₈, h₈, g₈⟩ := bind_eq_ok_iff.mp g₇
    have hp₇ : c₇.offset = 16 := by rw [ho₇, ho₆, ho₅, hp₄]
    obtain ⟨-, hc₈⟩ := (dvar_readGap_iff (by rw [hp₇]; decide)).mp h₈
    obtain ⟨hfixed, hc'⟩ := pure_eq_ok_iff.mp g₈
    subst hfixed hc' hc₈
    refine ⟨endian, nBody, serial, size, hbody, hserial, hsize, ?_, hp₇, hs, hn⟩
    rw [← hr₇, ← hr₆, ← hr₅, ← hr₄, ← hr₃, ← hr₂, ← hr₁, ← hc₀]
  · rintro ⟨endian, nBody, serial, size, hbody, hserial, hsize, hheader, hoffset, hs, hn⟩
    obtain ⟨type, flags, version, fixedSerial, nFields⟩ := fixed
    obtain ⟨o, rest⟩ := c'
    obtain rfl : o = 16 := hoffset
    exact bind_eq_ok_iff.mpr ⟨[], ⟨0, header⟩, (dvar_readGap_iff (Nat.dvd_zero _)).mpr ⟨rfl, rfl⟩,
      bind_eq_ok_iff.mpr ⟨endian, ⟨1, _⟩, dvar_readU8_iff.mpr ⟨hheader, rfl⟩,
      bind_eq_ok_iff.mpr ⟨type, ⟨2, _⟩, dvar_readU8_iff.mpr ⟨rfl, rfl⟩,
      bind_eq_ok_iff.mpr ⟨flags, ⟨3, _⟩, dvar_readU8_iff.mpr ⟨rfl, rfl⟩,
      bind_eq_ok_iff.mpr ⟨version, ⟨4, _⟩, dvar_readU8_iff.mpr ⟨rfl, rfl⟩,
      bind_eq_ok_iff.mpr ⟨_, ⟨8, _⟩, (dvar_readU32_iff ⟨1, rfl⟩).mpr ⟨nBody, hbody, rfl, rfl, rfl⟩,
      bind_eq_ok_iff.mpr ⟨fixedSerial, ⟨12, _⟩, (dvar_readU32_iff ⟨2, rfl⟩).mpr
        ⟨serial, hserial, rfl, rfl, hs⟩,
      bind_eq_ok_iff.mpr ⟨nFields, ⟨16, rest⟩, (dvar_readU32_iff ⟨3, rfl⟩).mpr ⟨size, hsize, rfl, rfl, hn⟩,
      bind_eq_ok_iff.mpr ⟨[], ⟨16, rest⟩, (dvar_readGap_iff ⟨2, rfl⟩).mpr ⟨rfl, rfl⟩, rfl⟩⟩⟩⟩⟩⟩⟩⟩⟩

/-- A header is accepted if and only if its fixed part is valid and its fields are well formed, with every known one
once and the mandatory ones among them. -/
theorem messageParseHeader_accepts (bigEndian : Bool) (nFds : ℕ) (header : Bytes) :
    (∃ parse, messageParseHeader bigEndian nFds header = .ok parse) ↔
      ∃ codes, MarshalledHeader bigEndian nFds codes header := by
  constructor
  · rintro ⟨parse, h⟩
    rw [messageParseHeader] at h
    split at h
    · next p c hread =>
      split at h
      · next hend =>
        obtain ⟨fixed, c₁, hfixed, hchecked⟩ := bind_eq_ok_iff.mp hread
        obtain ⟨_, c₂, hcheck, hfields⟩ := bind_eq_ok_iff.mp hchecked
        obtain ⟨hvalid, rfl⟩ := check_eq_ok_iff.mp hcheck
        obtain ⟨s, c₃, hwithin, hrest'⟩ := bind_eq_ok_iff.mp hfields
        obtain ⟨_, c₄, hcheck', hpure⟩ := bind_eq_ok_iff.mp hrest'
        obtain ⟨hmandatory, rfl⟩ := check_eq_ok_iff.mp hcheck'
        obtain ⟨-, rfl⟩ := pure_eq_ok_iff.mp hpure
        obtain ⟨endian, nBody, serial, size, hbody, hserial, hsize, hheader, hoffset, hs, hn⟩ :=
          messageReadFixed_eq_ok_iff.mp hfixed
        obtain ⟨fields, hrest, -, hlen, c₅, hloop, hend'⟩ :=
          (AcceptsAll.within (fun _ _ _ => Iff.rfl) fixed.nFields _ _ _).mp hwithin
        rw [List.isEmpty_iff.mp hend, List.append_nil] at hrest
        rw [hoffset] at hloop
        obtain ⟨codes, hcodes, hfresh, havailable⟩ := exists_messageReadFields_iff.mp ⟨s, c₅, hloop, hend', rfl⟩
        simp only [Bool.and_eq_true, decide_eq_true_eq] at hvalid hmandatory
        obtain ⟨⟨htype, hversion⟩, hnonzero⟩ := hvalid
        rw [havailable] at hmandatory
        refine ⟨codes, ?_⟩
        rw [hheader, hrest, hversion]
        exact .mk hbody hserial hsize htype (hs ▸ hnonzero) (hn ▸ hlen.symm) hcodes ((fresh_iff _ _).mp hfresh).1
          ((mandatory_iff _ _).mp hmandatory)
      · cases h
    · cases h
  · rintro ⟨codes, h⟩
    cases h with
    | @mk endian type flags nBody serial size fields hbody hserial hsize htype hnonzero hlen hfields honce hmandatory =>
      have hfixed : messageReadFixed bigEndian
          ⟨0, endian :: type :: flags :: 1 :: (nBody ++ (serial ++ (size ++ fields)))⟩ =
            .ok (⟨type, flags, 1, uint32OfBytes bigEndian serial, uint32OfBytes bigEndian size⟩, ⟨16, fields⟩) :=
        messageReadFixed_eq_ok_iff.mpr ⟨endian, nBody, serial, size, hbody, hserial, hsize, rfl, rfl, rfl, rfl⟩
      have hfresh : Fresh 0 codes := (fresh_iff _ _).mpr ⟨honce, fun _ _ _ => Nat.zero_testBit _⟩
      obtain ⟨s, c₅, hloop, hend, havailable⟩ := exists_messageReadFields_iff.mpr ⟨codes, hfields, hfresh, rfl⟩
      have hwithin : within .invalidHeader .invalidHeader (uint32OfBytes bigEndian size)
          (messageReadFields bigEndian nFds) ⟨16, fields⟩ = .ok (s, ⟨16 + fields.length, []⟩) :=
        (AcceptsAll.within (fun _ _ _ => Iff.rfl) _ _ _ _).mpr
          ⟨fields, (List.append_nil _).symm, rfl, hlen.symm, c₅, hloop, hend⟩
      have hbits : s.fields.available &&& mandatoryFields type = mandatoryFields type :=
        havailable ▸ (mandatory_iff codes type).mpr hmandatory
      have hread : messageReadHeader bigEndian nFds
          ⟨0, endian :: type :: flags :: 1 :: (nBody ++ (serial ++ (size ++ fields)))⟩ =
            .ok ((⟨type, flags, 1, uint32OfBytes bigEndian serial, uint32OfBytes bigEndian size⟩, s),
              ⟨16 + fields.length, []⟩) :=
        bind_eq_ok_iff.mpr ⟨_, _, hfixed,
          bind_eq_ok_iff.mpr ⟨(), _, check_eq_ok_iff.mpr ⟨by simp [htype, hnonzero], rfl⟩,
            bind_eq_ok_iff.mpr ⟨s, _, hwithin,
              bind_eq_ok_iff.mpr ⟨(), _, check_eq_ok_iff.mpr ⟨by simp [hbits], rfl⟩, rfl⟩⟩⟩⟩
      exact ⟨_, by simp only [messageParseHeader, hread, List.isEmpty_nil, if_true]; rfl⟩

end Wire

end DbusBroker
