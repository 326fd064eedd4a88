import DbusBroker.Dbus.MessageStitch

/-!
# Header fields

The header fields of a message as the bytes of their `(yv)` structures. Every field that the
parser accepts is such a structure, and what it does to the metadata does not depend on a sender
that was seen before. A sender field can therefore be taken out of the list, and one can be put
in behind the last field.
-/

namespace DbusBroker

namespace Wire

open AlignedReader

/-- A `(yv)` behind its `(`, whatever the field. -/
def fieldStruct (bigEndian : Bool) : DvarReader Unit := do
  let _ ← cDvarReadU8
  cDvarSkip bigEndian fieldLevels [byte 'v']

/-- The loop that collects the structures of a header. -/
def collectFields (bigEndian : Bool) : DvarReader (List Bytes) :=
  whileMore .notRecoverable
    (element (fun _ : List Bytes => consumed (fieldStruct bigEndian)) (fun fields field _ => fields ++ [field])
      0 .outOfBounds .corruptData 8)
    []

/-- The header fields of a message on the wire, each as the bytes of its structure. -/
def headerFields (bigEndian : Bool) (wire : Bytes) : Option (List Bytes) :=
  match collectFields bigEndian ⟨messageHeaderSize, (wire.drop messageHeaderSize).take (headerNFields bigEndian wire)⟩ with
  | .ok (fields, _) => some fields
  | .error _ => none

/-- The code of a header field. -/
def fieldCode (field : Bytes) : UInt8 := field.headD 0

/-- The structure of a sender field. -/
def senderStruct (bigEndian : Bool) (sender : Bytes) : Bytes :=
  [dbusMessageFieldSender, 1, byte 's', 0] ++ uint32ToBytes bigEndian sender.length ++ (sender ++ [0])

/-- Fields with a sender that was seen as well. -/
def Fields.withSender (f : Fields) (sender : Option Bytes) : Fields :=
  { f with available := f.available ||| 2 ^ 7, sender := sender }

/-- No sender was seen. -/
structure Fields.NoSender (f : Fields) : Prop where
  available : f.available.testBit 7 = false
  sender : f.sender = none

/-! ## Readers of fields -/

theorem local_dvar {α : Type} {r : DvarReader α} (h : Local 8 r) : Local 8 (dvar r) := h.mapError _

theorem dvar_eq_ok_iff {α : Type} {r : DvarReader α} {c c' : Cursor UInt8} {a : α} :
    dvar r c = .ok (a, c') ↔ r c = .ok (a, c') := mapError_eq_ok_iff

theorem local_readStringField (bigEndian : Bool) (c : UInt8) (valid : Bytes → Bool) :
    Local 8 (readStringField bigEndian c valid) :=
  (local_dvar (local_cDvarReadVariant _)).bind fun _ => (local_dvar (local_cDvarReadString _ _)).bind fun _ =>
    (Local.check _ _).bind fun _ => .pure _

theorem local_readUint32Field (bigEndian : Bool) (e : MessageError) (valid : ℕ → Bool) :
    Local 8 (readUint32Field bigEndian e valid) :=
  (local_dvar (local_cDvarReadVariant _)).bind fun _ => (local_dvar (local_cDvarReadU32 _)).bind fun _ =>
    (Local.check _ _).bind fun _ => .pure _

theorem local_messageReadKnown (bigEndian : Bool) (nFds : ℕ) (field : UInt8) (f : Fields) :
    Local 8 (messageReadKnown bigEndian nFds field f) := by
  have hstring (c : UInt8) (valid : Bytes → Bool) (set : Bytes → Fields) :
      Local 8 (readStringField bigEndian c valid >>= fun value => pure (set value)) :=
    (local_readStringField bigEndian c valid).bind fun _ => .pure _
  have hnumber (e : MessageError) (valid : ℕ → Bool) (set : ℕ → Fields) :
      Local 8 (readUint32Field bigEndian e valid >>= fun value => pure (set value)) :=
    (local_readUint32Field bigEndian e valid).bind fun _ => .pure _
  rw [messageReadKnown]
  refine .ite (hstring _ _ _) (.ite (hstring _ _ _) (.ite (hstring _ _ _) (.ite (hstring _ _ _) (.ite ?_ ?_))))
  · exact hnumber _ _ _
  · exact .ite (hstring _ _ _) (.ite (hstring _ _ _) (.ite (hstring _ _ _) (.ite (hnumber _ _ _) (.fail _))))

theorem local_messageReadField (bigEndian : Bool) (nFds : ℕ) (f : Fields) :
    Local 8 (messageReadField bigEndian nFds f) :=
  (local_dvar local_cDvarReadU8).bind fun _ =>
    .ite ((local_dvar (local_cDvarSkip _ _ _)).bind fun _ => .pure _)
      ((Local.check _ _).bind fun _ => (local_messageReadKnown _ _ _ _).bind fun _ => .pure _)

theorem local_fieldStruct (bigEndian : Bool) : Local 8 (fieldStruct bigEndian) :=
  local_cDvarReadU8.bind fun _ => local_cDvarSkip _ _ _

/-- One byte is read. -/
theorem cDvarReadU8_eq_ok_iff {c c' : Cursor UInt8} {b : UInt8} :
    cDvarReadU8 c = .ok (b, c') ↔ c.rest = b :: c'.rest ∧ c'.offset = c.offset + 1 := by
  rw [cDvarReadU8, bind_eq_ok_iff]
  have hgap : gap (2 ^ 0) c.offset = 0 := gap_of_dvd (Nat.one_dvd _) Nat.one_pos
  constructor
  · rintro ⟨d, c₁, hdata, hpure⟩
    obtain ⟨hlen, hrest, hoffset⟩ := data_eq_ok_iff.mp hdata
    obtain ⟨x, rfl⟩ := List.length_eq_one_iff.mp hlen
    obtain ⟨rfl, rfl⟩ := pure_eq_ok_iff.mp hpure
    rw [hgap] at hrest hoffset
    exact ⟨hrest, hoffset⟩
  · rintro ⟨hrest, hoffset⟩
    refine ⟨[b], c', data_eq_ok_iff.mpr ⟨rfl, ?_, ?_⟩, rfl⟩
    · rw [hgap]
      exact hrest
    · rw [hgap]
      exact hoffset

/-- What a field is read as: its code and a variant, which is checked only or known by its code. -/
theorem messageReadField_eq_ok_iff {bigEndian : Bool} {nFds : ℕ} {f f' : Fields} {field : UInt8} {c c' : Cursor UInt8} :
    messageReadField bigEndian nFds f c = .ok ((field, f'), c') ↔
      ∃ rest, c.rest = field :: rest ∧
        if dbusMessageFieldN ≤ field then
          f' = f ∧ cDvarSkip bigEndian fieldLevels [byte 'v'] ⟨c.offset + 1, rest⟩ = .ok ((), c')
        else
          f.available.testBit field.toNat = false ∧
            messageReadKnown bigEndian nFds field { f with available := f.available ||| 2 ^ field.toNat }
              ⟨c.offset + 1, rest⟩ = .ok (f', c') := by
  rw [messageReadField, bind_eq_ok_iff]
  constructor
  · rintro ⟨field₁, ⟨o₁, rest⟩, hcode, hfield⟩
    obtain ⟨hrest, hoffset⟩ := cDvarReadU8_eq_ok_iff.mp (dvar_eq_ok_iff.mp hcode)
    obtain rfl : o₁ = c.offset + 1 := hoffset
    by_cases hknown : dbusMessageFieldN ≤ field₁
    · rw [if_pos hknown] at hfield
      obtain ⟨u, c₂, hskip, hpure⟩ := bind_eq_ok_iff.mp hfield
      obtain ⟨hresult, rfl⟩ := pure_eq_ok_iff.mp hpure
      obtain ⟨rfl, rfl⟩ := Prod.mk.inj hresult
      refine ⟨rest, hrest, ?_⟩
      rw [if_pos hknown]
      exact ⟨rfl, dvar_eq_ok_iff.mp hskip⟩
    · rw [if_neg hknown] at hfield
      obtain ⟨u, c₂, hcheck, hread⟩ := bind_eq_ok_iff.mp hfield
      obtain ⟨hnew, rfl⟩ := check_eq_ok_iff.mp hcheck
      obtain ⟨f₁, c₃, hvalue, hpure⟩ := bind_eq_ok_iff.mp hread
      obtain ⟨hresult, rfl⟩ := pure_eq_ok_iff.mp hpure
      obtain ⟨rfl, rfl⟩ := Prod.mk.inj hresult
      refine ⟨rest, hrest, ?_⟩
      rw [if_neg hknown]
      exact ⟨(Bool.not_eq_true' _).mp hnew, hvalue⟩
  · rintro ⟨rest, hrest, hfield⟩
    refine ⟨field, ⟨c.offset + 1, rest⟩, dvar_eq_ok_iff.mpr (cDvarReadU8_eq_ok_iff.mpr ⟨hrest, rfl⟩), ?_⟩
    by_cases hknown : dbusMessageFieldN ≤ field
    · rw [if_pos hknown] at hfield ⊢
      obtain ⟨rfl, hskip⟩ := hfield
      rw [bind_of_ok (dvar_eq_ok_iff.mpr hskip)]
      rfl
    · rw [if_neg hknown] at hfield ⊢
      obtain ⟨hnew, hvalue⟩ := hfield
      have hcheck : check MessageError.invalidHeader (!f.available.testBit field.toNat) ⟨c.offset + 1, rest⟩ =
          .ok ((), ⟨c.offset + 1, rest⟩) := check_eq_ok_iff.mpr ⟨by rw [hnew]; rfl, rfl⟩
      rw [bind_of_ok hcheck, bind_of_ok hvalue]
      rfl

/-! ## Fields are structures -/

theorem cDvarSkip_variant (bigEndian : Bool) (levels : ℕ) :
    cDvarSkip bigEndian (levels + 1) [byte 'v'] = cDvarReadType >>= cDvarSkip bigEndian levels := by
  rw [cDvarSkip, if_neg (by decide), if_pos (by decide)]

/-- A value of a type without containers is skipped on every level. -/
theorem cDvarSkip_basic (bigEndian : Bool) (levels : ℕ) {c : UInt8} (h : c ∈ lit "sogu") :
    cDvarSkip bigEndian levels [c] = cDvarSkipBasic bigEndian c := by
  have hleaf : ∀ c ∈ lit "sogu", (lit "av(\x7b").contains c = false := by simp [lit, byte]
  have hnot : ∀ c ∈ lit "sogu", ¬ c = byte 'a' ∧ ¬ c = byte 'v' ∧ ¬ (c = byte '(' || c = byte '\x7b') = true := by
    simp [lit, byte]
  obtain ⟨ha, hv, htuple⟩ := hnot c h
  cases levels with
  | zero =>
    rw [cDvarSkip]
    exact if_neg (by rw [List.headD_cons, hleaf c h]; decide)
  | succ levels =>
    rw [cDvarSkip]
    exact (if_neg ha).trans ((if_neg hv).trans (if_neg htuple))

/-- A variant of a type without containers is its type and its value. -/
theorem skip_of_readVariant {bigEndian : Bool} {ch : UInt8} (hch : ch ∈ lit "sogu") {c c₁ c' : Cursor UInt8}
    (htype : cDvarReadVariant [ch] c = .ok ((), c₁)) (hvalue : cDvarSkipBasic bigEndian ch c₁ = .ok ((), c'))
    (levels : ℕ) : cDvarSkip bigEndian (levels + 1) [byte 'v'] c = .ok ((), c') := by
  obtain ⟨str, c₂, hstr, hcheck⟩ := bind_eq_ok_iff.mp htype
  obtain ⟨hmatch, rfl⟩ := check_eq_ok_iff.mp hcheck
  obtain rfl : str = [ch] := of_decide_eq_true hmatch
  rw [cDvarSkip_variant, bind_of_ok hstr, cDvarSkip_basic bigEndian levels hch, hvalue]

/-- A string field is a variant. -/
theorem skip_of_readStringField {bigEndian : Bool} {ch : UInt8} {valid : Bytes → Bool} {c c' : Cursor UInt8}
    {value : Bytes} (hch : ch ∈ lit "sog") (h : readStringField bigEndian ch valid c = .ok (value, c')) (levels : ℕ) :
    cDvarSkip bigEndian (levels + 1) [byte 'v'] c = .ok ((), c') := by
  have hstring : ∀ ch ∈ lit "sog", ¬ ch = byte 'b' ∧ (lit "sog").contains ch = true ∧ ch ∈ lit "sogu" := by
    simp [lit, byte]
  obtain ⟨hb, hsog, hsogu⟩ := hstring ch hch
  obtain ⟨u, c₁, htype, hread⟩ := bind_eq_ok_iff.mp h
  obtain ⟨str, c₂, hstr, hrest⟩ := bind_eq_ok_iff.mp hread
  obtain ⟨u', c₃, hcheck, hpure⟩ := bind_eq_ok_iff.mp hrest
  obtain ⟨-, rfl⟩ := check_eq_ok_iff.mp hcheck
  obtain ⟨-, rfl⟩ := pure_eq_ok_iff.mp hpure
  refine skip_of_readVariant hsogu (dvar_eq_ok_iff.mp htype) ?_ levels
  rw [cDvarSkipBasic, if_neg hb, if_pos hsog, bind_of_ok (dvar_eq_ok_iff.mp hstr)]
  rfl

/-- A number field is a variant. -/
theorem skip_of_readUint32Field {bigEndian : Bool} {e : MessageError} {valid : ℕ → Bool} {c c' : Cursor UInt8}
    {value : ℕ} (h : readUint32Field bigEndian e valid c = .ok (value, c')) (levels : ℕ) :
    cDvarSkip bigEndian (levels + 1) [byte 'v'] c = .ok ((), c') := by
  obtain ⟨u, c₁, htype, hread⟩ := bind_eq_ok_iff.mp h
  obtain ⟨n, c₂, hn, hrest⟩ := bind_eq_ok_iff.mp hread
  obtain ⟨u', c₃, hcheck, hpure⟩ := bind_eq_ok_iff.mp hrest
  obtain ⟨-, rfl⟩ := check_eq_ok_iff.mp hcheck
  obtain ⟨-, rfl⟩ := pure_eq_ok_iff.mp hpure
  refine skip_of_readVariant (by decide) (dvar_eq_ok_iff.mp htype) ?_ levels
  obtain ⟨d, c₄, hdata, hvalue⟩ := bind_eq_ok_iff.mp (dvar_eq_ok_iff.mp hn)
  obtain ⟨-, rfl⟩ := pure_eq_ok_iff.mp hvalue
  have hsize : cDvarAlignment (byte 'u') = 2 ∧ cDvarSize (byte 'u') = 4 := by
    simp [lit, byte, cDvarAlignment, cDvarSize]
  rw [cDvarSkipBasic, if_neg (by decide), if_neg (by decide), if_pos (by decide), hsize.1, hsize.2, bind_of_ok hdata]
  rfl

/-- Every known field is a variant. -/
theorem skip_of_messageReadKnown {bigEndian : Bool} {nFds : ℕ} {field : UInt8} {f f' : Fields} {c c' : Cursor UInt8}
    (h : messageReadKnown bigEndian nFds field f c = .ok (f', c')) (levels : ℕ) :
    cDvarSkip bigEndian (levels + 1) [byte 'v'] c = .ok ((), c') := by
  let Skips (r : MessageReader Fields) : Prop :=
    r c = .ok (f', c') → cDvarSkip bigEndian (levels + 1) [byte 'v'] c = .ok ((), c')
  have hstring {ch : UInt8} {valid : Bytes → Bool} {set : Bytes → Fields} (hch : ch ∈ lit "sog") :
      Skips (readStringField bigEndian ch valid >>= fun value => pure (set value)) := by
    intro h
    obtain ⟨value, c₁, hvalue, hpure⟩ := bind_eq_ok_iff.mp h
    obtain ⟨-, rfl⟩ := pure_eq_ok_iff.mp hpure
    exact skip_of_readStringField hch hvalue levels
  have hnumber {e : MessageError} {valid : ℕ → Bool} {set : ℕ → Fields} :
      Skips (readUint32Field bigEndian e valid >>= fun value => pure (set value)) := by
    intro h
    obtain ⟨value, c₁, hvalue, hpure⟩ := bind_eq_ok_iff.mp h
    obtain ⟨-, rfl⟩ := pure_eq_ok_iff.mp hpure
    exact skip_of_readUint32Field hvalue levels
  have hite {p : Prop} [Decidable p] {r s : MessageReader Fields} (hr : Skips r) (hs : Skips s) :
      Skips (if p then r else s) := by
    by_cases hp : p
    · rwa [if_pos hp]
    · rwa [if_neg hp]
  have ho : byte 'o' ∈ lit "sog" := by decide
  have hs : byte 's' ∈ lit "sog" := by decide
  have hg : byte 'g' ∈ lit "sog" := by decide
  have hall : Skips (messageReadKnown bigEndian nFds field f) := by
    refine hite (hstring ho) (hite (hstring hs) (hite (hstring hs) (hite (hstring hs) (hite hnumber ?_))))
    exact hite (hstring hs) (hite (hstring hs) (hite (hstring hg) (hite hnumber fun h => nomatch h)))
  exact hall h

/-- Every field that is accepted is a structure with its code in front. -/
theorem fieldStruct_of_whole {bigEndian : Bool} {nFds : ℕ} {f f' : Fields} {field : UInt8} {b : Bytes}
    (h : whole (messageReadField bigEndian nFds f) b = some (field, f')) :
    whole (fieldStruct bigEndian) b = some () ∧ fieldCode b = field := by
  obtain ⟨c, hread, hend⟩ := whole_eq_some_iff.mp h
  obtain ⟨rest, hrest, hfield⟩ := messageReadField_eq_ok_iff.mp hread
  have hskip : cDvarSkip bigEndian fieldLevels [byte 'v'] ⟨1, rest⟩ = .ok ((), c) := by
    split at hfield
    · exact hfield.2
    · exact skip_of_messageReadKnown hfield.2 59
  have hcode : cDvarReadU8 ⟨0, b⟩ = .ok (field, ⟨1, rest⟩) := cDvarReadU8_eq_ok_iff.mpr ⟨hrest, rfl⟩
  refine ⟨whole_eq_some_iff.mpr ⟨c, ?_, hend⟩, ?_⟩
  · rw [fieldStruct, bind_of_ok hcode, hskip]
  · obtain rfl : b = field :: rest := hrest
    rfl

/-! ## Fields and the sender -/

/-- The fields with a sender are those without one, and the sender. -/
theorem messageReadKnown_withSender {field : UInt8} (hfield : field ≠ dbusMessageFieldSender) (bigEndian : Bool)
    (nFds : ℕ) (f : Fields) (sender : Option Bytes) :
    messageReadKnown bigEndian nFds field (f.withSender sender) =
      (·.withSender sender) <$> messageReadKnown bigEndian nFds field f := by
  have hbind {α : Type} (r : MessageReader α) (set set' : α → Fields) (hset : ∀ v, set' v = (set v).withSender sender) :
      (r >>= fun v => pure (set' v)) = (·.withSender sender) <$> (r >>= fun v => pure (set v)) := by
    simp only [map_bind, map_pure, hset]
  have hite {p : Prop} [Decidable p] {r r' s s' : MessageReader Fields} (hr : r' = (·.withSender sender) <$> r)
      (hs : s' = (·.withSender sender) <$> s) :
      (if p then r' else s') = (·.withSender sender) <$> (if p then r else s) := by
    split
    · exact hr
    · exact hs
  rw [messageReadKnown, messageReadKnown, if_neg hfield, if_neg hfield]
  refine hite (hbind _ _ _ fun _ => rfl) (hite (hbind _ _ _ fun _ => rfl) (hite (hbind _ _ _ fun _ => rfl) ?_))
  refine hite (hbind _ _ _ fun _ => rfl) (hite (hbind _ _ _ fun _ => rfl) (hite (hbind _ _ _ fun _ => rfl) ?_))
  exact hite (hbind _ _ _ fun _ => rfl) (hite (hbind _ _ _ fun _ => rfl) rfl)

/-- Of what is known of the sender and the descriptors, a field changes its own part only, and it leaves alone what
was seen. -/
structure Fields.Keeps (field : UInt8) (f f' : Fields) : Prop where
  available : f'.available = f.available
  sender : field ≠ dbusMessageFieldSender → f'.sender = f.sender
  unixFds : field ≠ 9 → f'.unixFds = f.unixFds

theorem keeps_of_messageReadKnown {bigEndian : Bool} {nFds : ℕ} {field : UInt8} {f f' : Fields} {c c' : Cursor UInt8}
    (h : messageReadKnown bigEndian nFds field f c = .ok (f', c')) : f.Keeps field f' := by
  let Keeps (r : MessageReader Fields) : Prop := r c = .ok (f', c') → f.Keeps field f'
  have hset {α : Type} {r : MessageReader α} {set : α → Fields} (hset : ∀ v, f.Keeps field (set v)) :
      Keeps (r >>= fun value => pure (set value)) := by
    intro h
    obtain ⟨value, c₁, hvalue, hpure⟩ := bind_eq_ok_iff.mp h
    obtain ⟨rfl, -⟩ := pure_eq_ok_iff.mp hpure
    exact hset value
  have hite {p : Prop} [Decidable p] {r s : MessageReader Fields} (hr : p → Keeps r) (hs : Keeps s) :
      Keeps (if p then r else s) := by
    by_cases hp : p
    · rw [if_pos hp]
      exact hr hp
    · rwa [if_neg hp]
  have hother {α : Type} {r : MessageReader α} {set : α → Fields}
      (h : ∀ v, (set v).available = f.available ∧ (set v).sender = f.sender ∧ (set v).unixFds = f.unixFds) :
      Keeps (r >>= fun value => pure (set value)) :=
    hset fun v => ⟨(h v).1, fun _ => (h v).2.1, fun _ => (h v).2.2⟩
  have hall : Keeps (messageReadKnown bigEndian nFds field f) := by
    refine hite (fun _ => hother fun _ => ⟨rfl, rfl, rfl⟩) (hite (fun _ => hother fun _ => ⟨rfl, rfl, rfl⟩) ?_)
    refine hite (fun _ => hother fun _ => ⟨rfl, rfl, rfl⟩) (hite (fun _ => hother fun _ => ⟨rfl, rfl, rfl⟩) ?_)
    refine hite (fun _ => hother fun _ => ⟨rfl, rfl, rfl⟩) (hite (fun _ => hother fun _ => ⟨rfl, rfl, rfl⟩) ?_)
    refine hite (fun h => hset fun _ => ⟨rfl, fun hne => absurd h hne, fun _ => rfl⟩) ?_
    refine hite (fun _ => hother fun _ => ⟨rfl, rfl, rfl⟩) ?_
    exact hite (fun h => hset fun _ => ⟨rfl, fun _ => rfl, fun hne => absurd h hne⟩) fun h => nomatch h
  exact hall h

theorem messageReadKnown_unixFds (bigEndian : Bool) (nFds : ℕ) (f : Fields) :
    messageReadKnown bigEndian nFds 9 f =
      readUint32Field bigEndian .missingFds (fun fds => fds ≤ nFds) >>= fun value => pure { f with unixFds := value } := by
  rw [messageReadKnown, if_neg (by decide), if_neg (by decide), if_neg (by decide), if_neg (by decide),
    if_neg (by decide), if_neg (by decide), if_neg (by decide), if_neg (by decide), if_pos rfl]

/-- A number field is read to a value that meets the condition, and read alike for every condition it meets. -/
theorem valid_of_readUint32Field {bigEndian : Bool} {e : MessageError} {valid : ℕ → Bool} {c c' : Cursor UInt8}
    {value : ℕ} (h : readUint32Field bigEndian e valid c = .ok (value, c')) :
    valid value = true ∧
      ∀ valid' : ℕ → Bool, valid' value = true → readUint32Field bigEndian e valid' c = .ok (value, c') := by
  obtain ⟨u, c₁, htype, hread⟩ := bind_eq_ok_iff.mp h
  obtain ⟨n, c₂, hn, hrest⟩ := bind_eq_ok_iff.mp hread
  obtain ⟨u', c₃, hcheck, hpure⟩ := bind_eq_ok_iff.mp hrest
  obtain ⟨hvalid, rfl⟩ := check_eq_ok_iff.mp hcheck
  obtain ⟨rfl, rfl⟩ := pure_eq_ok_iff.mp hpure
  refine ⟨hvalid, fun valid' hvalid' => ?_⟩
  have hcheck' : check e (valid' n) c₃ = .ok ((), c₃) := check_eq_ok_iff.mpr ⟨hvalid', rfl⟩
  rw [readUint32Field, bind_of_ok htype, bind_of_ok hn, bind_of_ok hcheck']
  rfl

/-- A known field that is read with some file descriptors is read with any that are enough. -/
theorem messageReadKnown_of_enough {bigEndian : Bool} {nFds nFds' : ℕ} {field : UInt8} {f f' : Fields}
    {c c' : Cursor UInt8} (h : messageReadKnown bigEndian nFds field f c = .ok (f', c'))
    (henough : field = 9 → f'.unixFds ≤ nFds') : messageReadKnown bigEndian nFds' field f c = .ok (f', c') := by
  by_cases hfield : field = 9
  · subst hfield
    rw [messageReadKnown_unixFds] at h ⊢
    obtain ⟨value, c₁, hvalue, hpure⟩ := bind_eq_ok_iff.mp h
    obtain ⟨rfl, rfl⟩ := pure_eq_ok_iff.mp hpure
    have hvalue' := (valid_of_readUint32Field hvalue).2 (fun fds => fds ≤ nFds') (decide_eq_true (henough rfl))
    rw [bind_of_ok hvalue']
    rfl
  · have hsame : messageReadKnown bigEndian nFds' field f = messageReadKnown bigEndian nFds field f := by
      simp only [messageReadKnown, if_neg hfield]
    rw [hsame, h]

variable {bigEndian : Bool} {nFds : ℕ} {f f' : Fields} {field : UInt8} {b : Bytes}

/-- A field code below the number of fields that is not that of the sender has another bit. -/
theorem toNat_ne_seven (h : field ≠ dbusMessageFieldSender) : field.toNat ≠ 7 := fun h7 =>
  h (UInt8.toNat_inj.mp h7)

/-- Without a sender, a field other than the sender is read just the same. -/
theorem whole_of_withSender (hfield : field ≠ dbusMessageFieldSender) {sender : Option Bytes}
    (h : whole (messageReadField bigEndian nFds (f.withSender sender)) b = some (field, f')) :
    ∃ f₁, whole (messageReadField bigEndian nFds f) b = some (field, f₁) ∧ f' = f₁.withSender sender := by
  obtain ⟨c, hread, hend⟩ := whole_eq_some_iff.mp h
  obtain ⟨rest, hrest, hresult⟩ := messageReadField_eq_ok_iff.mp hread
  by_cases hknown : dbusMessageFieldN ≤ field
  · rw [if_pos hknown] at hresult
    refine ⟨f, whole_eq_some_iff.mpr ⟨c, messageReadField_eq_ok_iff.mpr ⟨rest, hrest, ?_⟩, hend⟩, hresult.1⟩
    rw [if_pos hknown]
    exact ⟨rfl, hresult.2⟩
  · rw [if_neg hknown] at hresult
    obtain ⟨hnew, hvalue⟩ := hresult
    have hset : { f.withSender sender with available := (f.withSender sender).available ||| 2 ^ field.toNat } =
        ({ f with available := f.available ||| 2 ^ field.toNat } : Fields).withSender sender := by
      simp only [Fields.withSender, Nat.or_assoc, Nat.or_comm (2 ^ 7)]
    rw [hset, messageReadKnown_withSender hfield] at hvalue
    obtain ⟨f₁, hf₁, rfl⟩ := map_eq_ok_iff.mp hvalue
    refine ⟨f₁, whole_eq_some_iff.mpr ⟨c, messageReadField_eq_ok_iff.mpr ⟨rest, hrest, ?_⟩, hend⟩, rfl⟩
    rw [if_neg hknown]
    refine ⟨?_, hf₁⟩
    have hbit : (f.available ||| 2 ^ 7).testBit field.toNat = false := hnew
    rw [Nat.testBit_or, Bool.or_eq_false_iff] at hbit
    exact hbit.1

/-- A second sender is refused. -/
theorem field_ne_sender_of_withSender {sender : Option Bytes}
    (h : whole (messageReadField bigEndian nFds (f.withSender sender)) b = some (field, f')) :
    field ≠ dbusMessageFieldSender := by
  rintro rfl
  obtain ⟨c, hread, -⟩ := whole_eq_some_iff.mp h
  obtain ⟨rest, -, hresult⟩ := messageReadField_eq_ok_iff.mp hread
  rw [if_neg (by decide)] at hresult
  have hbit : (f.available ||| 2 ^ 7).testBit 7 = false := hresult.1
  rw [Nat.testBit_or, Nat.testBit_two_pow_self, Bool.or_true] at hbit
  cases hbit

/-- Other fields leave no sender behind. -/
theorem Fields.NoSender.of_whole (hno : f.NoSender) (hfield : field ≠ dbusMessageFieldSender)
    (h : whole (messageReadField bigEndian nFds f) b = some (field, f')) : f'.NoSender := by
  obtain ⟨c, hread, -⟩ := whole_eq_some_iff.mp h
  obtain ⟨rest, -, hresult⟩ := messageReadField_eq_ok_iff.mp hread
  by_cases hknown : dbusMessageFieldN ≤ field
  · rw [if_pos hknown] at hresult
    obtain ⟨rfl, -⟩ := hresult
    exact hno
  · rw [if_neg hknown] at hresult
    have hkeeps := keeps_of_messageReadKnown hresult.2
    refine ⟨?_, (hkeeps.sender hfield).trans hno.sender⟩
    rw [hkeeps.available, Nat.testBit_or, hno.available, Nat.testBit_two_pow_of_ne (toNat_ne_seven hfield), Bool.or_false]

/-- What was seen stays so, and of the descriptors only their own field says something, once. -/
theorem unixFds_of_whole (h : whole (messageReadField bigEndian nFds f) b = some (field, f')) :
    (f.available.testBit 9 = true → f'.available.testBit 9 = true ∧ f'.unixFds = f.unixFds) ∧
      (field = 9 → f'.available.testBit 9 = true) := by
  obtain ⟨c, hread, -⟩ := whole_eq_some_iff.mp h
  obtain ⟨rest, -, hresult⟩ := messageReadField_eq_ok_iff.mp hread
  by_cases hknown : dbusMessageFieldN ≤ field
  · rw [if_pos hknown] at hresult
    obtain ⟨rfl, -⟩ := hresult
    refine ⟨fun hbit => ⟨hbit, rfl⟩, fun h9 => ?_⟩
    subst h9
    exact absurd hknown (by decide)
  · rw [if_neg hknown] at hresult
    have hkeeps := keeps_of_messageReadKnown hresult.2
    have havailable : f'.available = f.available ||| 2 ^ field.toNat := hkeeps.available
    constructor
    · intro hbit
      have hne : field ≠ 9 := by
        rintro rfl
        exact absurd (hbit.symm.trans hresult.1) (by decide)
      exact ⟨by rw [havailable, Nat.testBit_or, hbit, Bool.true_or], hkeeps.unixFds hne⟩
    · rintro rfl
      rw [havailable, Nat.testBit_or]
      exact (Bool.or_eq_true _ _).mpr (.inr Nat.testBit_two_pow_self)

/-- A field does not ask for more file descriptors than there are. -/
theorem unixFds_le_of_whole (h : whole (messageReadField bigEndian nFds f) b = some (field, f')) (hle : f.unixFds ≤ nFds) :
    f'.unixFds ≤ nFds := by
  obtain ⟨c, hread, -⟩ := whole_eq_some_iff.mp h
  obtain ⟨rest, -, hresult⟩ := messageReadField_eq_ok_iff.mp hread
  by_cases hknown : dbusMessageFieldN ≤ field
  · rw [if_pos hknown] at hresult
    rwa [hresult.1]
  · rw [if_neg hknown] at hresult
    by_cases hfield : field = 9
    · subst hfield
      have hvalue := hresult.2
      rw [messageReadKnown_unixFds] at hvalue
      obtain ⟨value, c₁, hn, hpure⟩ := bind_eq_ok_iff.mp hvalue
      obtain ⟨rfl, -⟩ := pure_eq_ok_iff.mp hpure
      exact of_decide_eq_true (valid_of_readUint32Field hn).1
    · rw [(keeps_of_messageReadKnown hresult.2).unixFds hfield]
      exact hle

/-- A field that is read with some file descriptors is read with any that are enough. -/
theorem whole_of_enough {nFds' : ℕ} (h : whole (messageReadField bigEndian nFds f) b = some (field, f'))
    (henough : field = 9 → f'.unixFds ≤ nFds') :
    whole (messageReadField bigEndian nFds' f) b = some (field, f') := by
  obtain ⟨c, hread, hend⟩ := whole_eq_some_iff.mp h
  obtain ⟨rest, hrest, hresult⟩ := messageReadField_eq_ok_iff.mp hread
  refine whole_eq_some_iff.mpr ⟨c, messageReadField_eq_ok_iff.mpr ⟨rest, hrest, ?_⟩, hend⟩
  by_cases hknown : dbusMessageFieldN ≤ field
  · rw [if_pos hknown] at hresult ⊢
    exact hresult
  · rw [if_neg hknown] at hresult ⊢
    exact ⟨hresult.1, messageReadKnown_of_enough hresult.2 henough⟩

end Wire

end DbusBroker
