import DbusBroker.Dbus.MessageFields

/-!
# The sender field

What the parser accepts as a sender field is exactly the structure that is stitched in. From this
follows where the old sender stands in the array of header fields, and that the fields without it
and with a new one behind are read as before.
-/

namespace DbusBroker

namespace Wire

open AlignedReader

section readers

variable {c c' : Cursor UInt8}

theorem cDvarReadData_eq_ok_iff {alignment n : ℕ} (h : 2 ^ alignment ∣ c.offset) {d : Bytes} :
    cDvarReadData alignment n c = .ok (d, c') ↔ d.length = n ∧ c.rest = d ++ c'.rest ∧ c'.offset = c.offset + n := by
  have hgap : gap (2 ^ alignment) c.offset = 0 := gap_of_dvd h (Nat.two_pow_pos _)
  rw [cDvarReadData, data_eq_ok_iff, hgap, List.replicate_zero, List.nil_append, Nat.add_zero]

theorem cDvarReadU32_eq_ok_iff {bigEndian : Bool} (h : 4 ∣ c.offset) {n : ℕ} :
    cDvarReadU32 bigEndian c = .ok (n, c') ↔
      n < 2 ^ 32 ∧ c.rest = uint32ToBytes bigEndian n ++ c'.rest ∧ c'.offset = c.offset + 4 := by
  rw [cDvarReadU32, bind_eq_ok_iff]
  constructor
  · rintro ⟨d, c₁, hdata, hpure⟩
    obtain ⟨hlen, hrest, hoffset⟩ := (cDvarReadData_eq_ok_iff h).mp hdata
    obtain ⟨hn, rfl⟩ := pure_eq_ok_iff.mp hpure
    obtain ⟨hlt, rfl⟩ := (uint32OfBytes_eq_iff bigEndian d n).mp ⟨hlen, hn⟩
    exact ⟨hlt, hrest, hoffset⟩
  · rintro ⟨hlt, hrest, hoffset⟩
    obtain ⟨hlen, hn⟩ := (uint32OfBytes_eq_iff bigEndian _ n).mpr ⟨hlt, rfl⟩
    exact ⟨_, c', (cDvarReadData_eq_ok_iff h).mpr ⟨hlen, hrest, hoffset⟩, pure_eq_ok_iff.mpr ⟨hn, rfl⟩⟩

/-- Bytes of a certain length with a zero behind them, which meet a condition. -/
theorem readTerminated_eq_ok_iff {n : ℕ} {valid : Bytes → Bool} {str : Bytes} :
    (do
      let str ← cDvarReadData 0 n
      let terminator ← cDvarReadU8
      check DvarError.corruptData (terminator = 0 && valid str)
      pure str : DvarReader Bytes) c = .ok (str, c') ↔
      str.length = n ∧ valid str = true ∧ c.rest = str ++ 0 :: c'.rest ∧ c'.offset = c.offset + (n + 1) := by
  constructor
  · intro h
    obtain ⟨d, c₁, hdata, h⟩ := bind_eq_ok_iff.mp h
    obtain ⟨b, c₂, hbyte, h⟩ := bind_eq_ok_iff.mp h
    obtain ⟨u, c₃, hcheck, hpure⟩ := bind_eq_ok_iff.mp h
    obtain ⟨hlen, hrest, hoffset⟩ := (cDvarReadData_eq_ok_iff (Nat.one_dvd _)).mp hdata
    obtain ⟨hrest', hoffset'⟩ := cDvarReadU8_eq_ok_iff.mp hbyte
    obtain ⟨hvalid, rfl⟩ := check_eq_ok_iff.mp hcheck
    obtain ⟨rfl, rfl⟩ := pure_eq_ok_iff.mp hpure
    obtain ⟨hzero, hvalid⟩ := (Bool.and_eq_true _ _).mp hvalid
    obtain rfl := of_decide_eq_true hzero
    exact ⟨hlen, hvalid, by rw [hrest, hrest'], by omega⟩
  · rintro ⟨hlen, hvalid, hrest, hoffset⟩
    have hdata : cDvarReadData 0 n c = .ok (str, ⟨c.offset + n, 0 :: c'.rest⟩) :=
      (cDvarReadData_eq_ok_iff (Nat.one_dvd _)).mpr ⟨hlen, hrest, rfl⟩
    have hbyte : cDvarReadU8 ⟨c.offset + n, 0 :: c'.rest⟩ = .ok (0, c') :=
      cDvarReadU8_eq_ok_iff.mpr ⟨rfl, by rw [hoffset, Nat.add_assoc]⟩
    have hcheck : check DvarError.corruptData (decide ((0 : UInt8) = 0) && valid str) c' = .ok ((), c') :=
      check_eq_ok_iff.mpr ⟨by rw [hvalid]; rfl, rfl⟩
    rw [bind_of_ok hdata, bind_of_ok hbyte, bind_of_ok hcheck]
    rfl

theorem cDvarReadType_eq_ok_iff {type : Bytes} :
    cDvarReadType c = .ok (type, c') ↔
      type.length < 256 ∧ cDvarIsType type = true ∧ c.rest = type.length.toUInt8 :: (type ++ 0 :: c'.rest) ∧
        c'.offset = c.offset + (type.length + 2) := by
  rw [cDvarReadType, bind_eq_ok_iff]
  constructor
  · rintro ⟨n, c₁, hn, h⟩
    obtain ⟨hrest, hoffset⟩ := cDvarReadU8_eq_ok_iff.mp hn
    obtain ⟨hlen, htype, hrest', hoffset'⟩ := readTerminated_eq_ok_iff.mp h
    have hbyte : type.length.toUInt8 = n := by
      rw [hlen]
      exact UInt8.toNat_inj.mp (UInt8.toNat_ofNat'.trans (Nat.mod_eq_of_lt n.toNat_lt))
    exact ⟨hlen ▸ n.toNat_lt, htype, by rw [hrest, hrest', hbyte], by omega⟩
  · rintro ⟨hlt, htype, hrest, hoffset⟩
    have hbyte : type.length.toUInt8.toNat = type.length := UInt8.toNat_ofNat'.trans (Nat.mod_eq_of_lt hlt)
    refine ⟨_, ⟨c.offset + 1, type ++ 0 :: c'.rest⟩, cDvarReadU8_eq_ok_iff.mpr ⟨hrest, rfl⟩, ?_⟩
    refine readTerminated_eq_ok_iff.mpr ⟨hbyte.symm, htype, rfl, ?_⟩
    change c'.offset = c.offset + 1 + (type.length.toUInt8.toNat + 1)
    omega

/-- A string behind its length. -/
theorem cDvarReadString_eq_ok_iff {bigEndian : Bool} (h : 4 ∣ c.offset) {value : Bytes} :
    cDvarReadString bigEndian (byte 's') c = .ok (value, c') ↔
      value.length < 2 ^ 32 ∧ cDvarIsString value = true ∧
        c.rest = uint32ToBytes bigEndian value.length ++ (value ++ 0 :: c'.rest) ∧
          c'.offset = c.offset + (value.length + 5) := by
  have hvalue : cDvarIsValue (byte 's') = cDvarIsString := funext fun str => if_pos rfl
  rw [cDvarReadString, hvalue, cDvarReadLength, if_neg (by decide), bind_eq_ok_iff]
  constructor
  · rintro ⟨n, c₁, hn, hread⟩
    obtain ⟨hlt, hrest, hoffset⟩ := (cDvarReadU32_eq_ok_iff h).mp hn
    obtain ⟨hlen, hstring, hrest', hoffset'⟩ := readTerminated_eq_ok_iff.mp hread
    exact ⟨hlen ▸ hlt, hstring, by rw [hrest, hrest', hlen], by omega⟩
  · rintro ⟨hlt, hstring, hrest, hoffset⟩
    refine ⟨value.length, ⟨c.offset + 4, value ++ 0 :: c'.rest⟩, (cDvarReadU32_eq_ok_iff h).mpr ⟨hlt, hrest, rfl⟩, ?_⟩
    refine readTerminated_eq_ok_iff.mpr ⟨rfl, hstring, rfl, ?_⟩
    change c'.offset = c.offset + 4 + (value.length + 1)
    omega

end readers

variable {bigEndian : Bool} {nFds : ℕ} {f f' : Fields} {b : Bytes}

/-- A string field behind its code. -/
theorem readStringField_eq_ok_iff {valid : Bytes → Bool} {value rest : Bytes} {c' : Cursor UInt8} :
    readStringField bigEndian (byte 's') valid ⟨1, rest⟩ = .ok (value, c') ↔
      value.length < 2 ^ 32 ∧ cDvarIsString value = true ∧ valid value = true ∧
        rest = [1, byte 's', 0] ++ (uint32ToBytes bigEndian value.length ++ (value ++ 0 :: c'.rest)) ∧
          c'.offset = value.length + 9 := by
  constructor
  · intro h
    obtain ⟨u, c₁, htype, h⟩ := bind_eq_ok_iff.mp h
    obtain ⟨value', c₂, hvalue, h⟩ := bind_eq_ok_iff.mp h
    obtain ⟨u', c₃, hcheck, hpure⟩ := bind_eq_ok_iff.mp h
    obtain ⟨hvalid, rfl⟩ := check_eq_ok_iff.mp hcheck
    obtain ⟨rfl, rfl⟩ := pure_eq_ok_iff.mp hpure
    obtain ⟨str, c₄, hstr, hmatch⟩ := bind_eq_ok_iff.mp (dvar_eq_ok_iff.mp htype)
    obtain ⟨hstype, rfl⟩ := check_eq_ok_iff.mp hmatch
    obtain rfl := of_decide_eq_true hstype
    obtain ⟨-, -, hrest, hoffset⟩ := cDvarReadType_eq_ok_iff.mp hstr
    have h4 : c₁.offset = 4 := hoffset
    obtain ⟨hlt, hstring, hrest', hoffset'⟩ :=
      (cDvarReadString_eq_ok_iff (h4 ▸ Nat.dvd_refl 4)).mp (dvar_eq_ok_iff.mp hvalue)
    refine ⟨hlt, hstring, hvalid, ?_, by omega⟩
    rw [show rest = _ from hrest, hrest']
    rfl
  · rintro ⟨hlt, hstring, hvalid, rfl, hoffset⟩
    have hstr : cDvarReadType ⟨1, [1, byte 's', 0] ++ (uint32ToBytes bigEndian value.length ++ (value ++ 0 :: c'.rest))⟩ =
        .ok ([byte 's'], ⟨4, uint32ToBytes bigEndian value.length ++ (value ++ 0 :: c'.rest)⟩) :=
      cDvarReadType_eq_ok_iff.mpr ⟨by decide, by decide, rfl, rfl⟩
    have htype : cDvarReadVariant [byte 's']
        ⟨1, [1, byte 's', 0] ++ (uint32ToBytes bigEndian value.length ++ (value ++ 0 :: c'.rest))⟩ =
        .ok ((), ⟨4, uint32ToBytes bigEndian value.length ++ (value ++ 0 :: c'.rest)⟩) := bind_of_ok hstr _
    have hend : c'.offset = 4 + (value.length + 5) := by omega
    have hvalue : cDvarReadString bigEndian (byte 's')
        ⟨4, uint32ToBytes bigEndian value.length ++ (value ++ 0 :: c'.rest)⟩ = .ok (value, c') :=
      (cDvarReadString_eq_ok_iff (Nat.dvd_refl 4)).mpr ⟨hlt, hstring, rfl, hend⟩
    have hcheck : check MessageError.invalidHeader (valid value) c' = .ok ((), c') := check_eq_ok_iff.mpr ⟨hvalid, rfl⟩
    rw [readStringField, bind_of_ok (dvar_eq_ok_iff.mpr htype), bind_of_ok (dvar_eq_ok_iff.mpr hvalue),
      bind_of_ok hcheck]
    rfl

theorem messageReadKnown_sender (f : Fields) :
    messageReadKnown bigEndian nFds dbusMessageFieldSender f =
      readStringField bigEndian (byte 's') dbusValidateName >>= fun value => pure { f with sender := some value } := by
  rw [messageReadKnown, if_neg (by decide), if_neg (by decide), if_neg (by decide), if_neg (by decide),
    if_neg (by decide), if_neg (by decide), if_pos rfl]

/-- A sender field is accepted once, and it is the structure of a valid name. -/
theorem whole_senderField_iff :
    whole (messageReadField bigEndian nFds f) b = some (dbusMessageFieldSender, f') ↔
      f.available.testBit 7 = false ∧ ∃ sender, b = senderStruct bigEndian sender ∧ sender.length < 2 ^ 32 ∧
        cDvarIsString sender = true ∧ dbusValidateName sender = true ∧ f' = f.withSender (some sender) := by
  rw [whole_eq_some_iff]
  simp only [messageReadField_eq_ok_iff]
  constructor
  · rintro ⟨c, ⟨rest, hrest, hresult⟩, hend⟩
    rw [if_neg (by decide), messageReadKnown_sender] at hresult
    obtain ⟨hnew, hread⟩ := hresult
    obtain ⟨sender, c₁, hvalue, hpure⟩ := bind_eq_ok_iff.mp hread
    obtain ⟨rfl, rfl⟩ := pure_eq_ok_iff.mp hpure
    obtain ⟨hlt, hstring, hvalid, rfl, -⟩ := readStringField_eq_ok_iff.mp hvalue
    refine ⟨hnew, sender, ?_, hlt, hstring, hvalid, rfl⟩
    rw [hrest, hend]
    rfl
  · rintro ⟨hnew, sender, rfl, hlt, hstring, hvalid, rfl⟩
    refine ⟨⟨sender.length + 9, []⟩, ⟨_, rfl, ?_⟩, rfl⟩
    rw [if_neg (by decide), messageReadKnown_sender]
    have hvalue : readStringField bigEndian (byte 's') dbusValidateName
        ⟨1, [1, byte 's', 0] ++ (uint32ToBytes bigEndian sender.length ++ (sender ++ [0]))⟩ =
          .ok (sender, ⟨sender.length + 9, []⟩) :=
      readStringField_eq_ok_iff.mpr ⟨hlt, hstring, hvalid, rfl, rfl⟩
    exact ⟨hnew, bind_of_ok hvalue _⟩

/-! ## The array of header fields -/

/-- What the loop over the header fields finds in an array that starts at a position. -/
def parseFields (bigEndian : Bool) (nFds o : ℕ) (s : HeaderParse) (bs : List Bytes) : Option HeaderParse :=
  elements (fun s : HeaderParse => messageReadField bigEndian nFds s.fields) HeaderParse.next 8 o s bs

theorem parseFields_cons {r : UInt8 × Fields} (hb : whole (messageReadField bigEndian nFds f) b = some r) (o : ℕ)
    (p : Option ℕ) (bs : List Bytes) :
    parseFields bigEndian nFds o ⟨f, p⟩ (b :: bs) =
      parseFields bigEndian nFds (align 8 o + b.length) (HeaderParse.next ⟨f, p⟩ r (align 8 o + b.length)) bs := by
  rw [parseFields, elements, hb]
  rfl

/-- Behind a sender there are other fields only, and they are read without the sender just the same. -/
theorem parseFields_of_withSender {o : ℕ} {sender : Option Bytes} {p : Option ℕ} {bs : List Bytes} {t : HeaderParse}
    (h : parseFields bigEndian nFds o ⟨f.withSender sender, p⟩ bs = some t) :
    (∀ b ∈ bs, fieldCode b ≠ dbusMessageFieldSender) ∧
      ∃ g, t = ⟨g.withSender sender, p⟩ ∧ (f.NoSender → g.NoSender) ∧
        ∀ o' q, parseFields bigEndian nFds o' ⟨f, q⟩ bs = some ⟨g, q⟩ := by
  induction bs generalizing f o with
  | nil =>
    rw [parseFields, elements, Option.some.injEq] at h
    subst h
    exact ⟨fun b hb => (List.not_mem_nil hb).elim, f, rfl, id, fun _ _ => rfl⟩
  | cons b bs ih =>
    cases hwhole : whole (messageReadField bigEndian nFds (f.withSender sender)) b with
    | none =>
      rw [parseFields, elements, hwhole] at h
      cases h
    | some r =>
      obtain ⟨field, f'⟩ := r
      have hfield := field_ne_sender_of_withSender hwhole
      obtain ⟨f₁, hf₁, rfl⟩ := whole_of_withSender hfield hwhole
      have hcode : fieldCode b ≠ dbusMessageFieldSender := by rwa [(fieldStruct_of_whole hwhole).2]
      have hnext (s : HeaderParse) (g : Fields) (position : ℕ) : s.next (field, g) position = ⟨g, s.originalSender⟩ := by
        rw [HeaderParse.next, if_neg hfield]
      rw [parseFields_cons hwhole, hnext] at h
      obtain ⟨hcodes, g, ht, hno, hsame⟩ := ih h
      refine ⟨fun x hx => ?_, g, ht, fun hf => hno (hf.of_whole hfield hf₁), fun o' q => ?_⟩
      · rcases List.mem_cons.mp hx with rfl | hx
        · exact hcode
        · exact hcodes x hx
      · rw [parseFields_cons hf₁, hnext]
        exact hsame _ q

/-- How the array of header fields is made up: there is no sender among them, or there is one, where the parser has
noted it, and the others are read without it just the same. -/
inductive SenderSplit (bigEndian : Bool) (nFds o : ℕ) (f : Fields) (bs : List Bytes) (t : HeaderParse) : Prop where
  | absent (codes : ∀ b ∈ bs, fieldCode b ≠ dbusMessageFieldSender) (position : t.originalSender = none)
      (noSender : t.fields.NoSender)
  | found (before after : List Bytes) (sender : Bytes) (g : Fields)
      (split : bs = before ++ senderStruct bigEndian sender :: after)
      (valid : dbusValidateName sender = true)
      (codes : ∀ b ∈ before ++ after, fieldCode b ≠ dbusMessageFieldSender)
      (fields : t.fields = g.withSender (some sender))
      (position : t.originalSender = some (align 8 (o + (layout 0 8 o before).length) + 8))
      (noSender : g.NoSender)
      (others : ∀ o', parseFields bigEndian nFds o' ⟨f, none⟩ (before ++ after) = some ⟨g, none⟩)

theorem length_senderStruct (bigEndian : Bool) (sender : Bytes) :
    (senderStruct bigEndian sender).length = senderFieldSize sender.length := by
  simp only [senderStruct, senderFieldSize, List.length_append, length_uint32ToBytes, List.length_cons, List.length_nil]
  omega

/-- What the loop has found tells whether there was a sender and where it stands. -/
theorem senderSplit_of_parseFields {o : ℕ} {bs : List Bytes} {t : HeaderParse} (hno : f.NoSender)
    (h : parseFields bigEndian nFds o ⟨f, none⟩ bs = some t) : SenderSplit bigEndian nFds o f bs t := by
  induction bs generalizing f o with
  | nil =>
    rw [parseFields, elements, Option.some.injEq] at h
    subst h
    exact .absent (fun b hb => (List.not_mem_nil hb).elim) rfl hno
  | cons b bs ih =>
    cases hwhole : whole (messageReadField bigEndian nFds f) b with
    | none =>
      rw [parseFields, elements, hwhole] at h
      cases h
    | some r =>
      obtain ⟨field, f'⟩ := r
      rw [parseFields_cons hwhole] at h
      by_cases hfield : field = dbusMessageFieldSender
      · subst hfield
        obtain ⟨-, sender, rfl, -, -, hvalid, rfl⟩ := whole_senderField_iff.mp hwhole
        obtain ⟨hcodes, g, rfl, hg, hsame⟩ := parseFields_of_withSender h
        refine .found [] bs sender g rfl hvalid hcodes rfl ?_ (hg hno) fun o' => hsame o' none
        have hlen := length_senderStruct bigEndian sender
        have hsize : align 8 o + (senderStruct bigEndian sender).length - (sender.length + 1) = align 8 o + 8 := by
          rw [hlen, senderFieldSize]
          omega
        exact congrArg some hsize
      · have hnext (s : HeaderParse) (position : ℕ) : s.next (field, f') position = ⟨f', s.originalSender⟩ := by
          rw [HeaderParse.next, if_neg hfield]
        have hcode : fieldCode b ≠ dbusMessageFieldSender := by rwa [(fieldStruct_of_whole hwhole).2]
        rw [hnext] at h
        cases ih (hno.of_whole hfield hwhole) h with
        | absent hcodes hposition hnoSender =>
          refine .absent (fun x hx => ?_) hposition hnoSender
          rcases List.mem_cons.mp hx with rfl | hx
          · exact hcode
          · exact hcodes x hx
        | found before after sender g hsplit hvalid hcodes hfields hposition hg hothers =>
          refine .found (b :: before) after sender g (by rw [hsplit]; rfl) hvalid (fun x hx => ?_) hfields ?_ hg
            fun o' => ?_
          · rcases List.mem_cons.mp hx with rfl | hx
            · exact hcode
            · exact hcodes x hx
          · rw [hposition, add_length_layout_cons (by decide)]
          · rw [List.cons_append, parseFields_cons hwhole, hnext]
            exact hothers _

/-- An array of fields asks for the descriptors once, for no more than there are, and any that are enough will do. -/
theorem parseFields_of_enough {nFds' o : ℕ} {p : Option ℕ} {bs : List Bytes} {t : HeaderParse}
    (h : parseFields bigEndian nFds o ⟨f, p⟩ bs = some t) (henough : t.fields.unixFds ≤ nFds') :
    parseFields bigEndian nFds' o ⟨f, p⟩ bs = some t ∧
      (f.available.testBit 9 = true → t.fields.unixFds = f.unixFds) := by
  induction bs generalizing f p o with
  | nil =>
    rw [parseFields, elements, Option.some.injEq] at h
    subst h
    exact ⟨rfl, fun _ => rfl⟩
  | cons b bs ih =>
    cases hwhole : whole (messageReadField bigEndian nFds f) b with
    | none =>
      rw [parseFields, elements, hwhole] at h
      cases h
    | some r =>
      obtain ⟨field, f'⟩ := r
      rw [parseFields_cons hwhole] at h
      obtain ⟨hrest, hkeeps⟩ := ih h
      obtain ⟨hseen, hnew⟩ := unixFds_of_whole hwhole
      have hfield : field = 9 → f'.unixFds ≤ nFds' := fun h9 => (hkeeps (hnew h9)) ▸ henough
      refine ⟨?_, fun hbit => (hkeeps (hseen hbit).1).trans (hseen hbit).2⟩
      rw [parseFields_cons (whole_of_enough hwhole hfield)]
      exact hrest

theorem unixFds_le_of_parseFields {o : ℕ} {p : Option ℕ} {bs : List Bytes} {t : HeaderParse}
    (h : parseFields bigEndian nFds o ⟨f, p⟩ bs = some t) (hle : f.unixFds ≤ nFds) : t.fields.unixFds ≤ nFds := by
  induction bs generalizing f p o with
  | nil =>
    rw [parseFields, elements, Option.some.injEq] at h
    subst h
    exact hle
  | cons b bs ih =>
    cases hwhole : whole (messageReadField bigEndian nFds f) b with
    | none =>
      rw [parseFields, elements, hwhole] at h
      cases h
    | some r =>
      obtain ⟨field, f'⟩ := r
      rw [parseFields_cons hwhole] at h
      exact ih h (unixFds_le_of_whole hwhole hle)

/-- Every field of an array is a structure. -/
theorem fieldStruct_of_parseFields {o : ℕ} {p : Option ℕ} {bs : List Bytes} {t : HeaderParse}
    (h : parseFields bigEndian nFds o ⟨f, p⟩ bs = some t) : ∀ b ∈ bs, whole (fieldStruct bigEndian) b = some () := by
  induction bs generalizing f p o with
  | nil => exact fun b hb => (List.not_mem_nil hb).elim
  | cons b bs ih =>
    cases hwhole : whole (messageReadField bigEndian nFds f) b with
    | none =>
      rw [parseFields, elements, hwhole] at h
      cases h
    | some r =>
      obtain ⟨field, f'⟩ := r
      rw [parseFields_cons hwhole] at h
      intro x hx
      rcases List.mem_cons.mp hx with rfl | hx
      · exact (fieldStruct_of_whole hwhole).1
      · exact ih h x hx

/-- An array of structures is collected as it is. -/
theorem collectFields_layout {o : ℕ} {bs : List Bytes} (h : ∀ b ∈ bs, whole (fieldStruct bigEndian) b = some ()) :
    collectFields bigEndian ⟨o, layout 0 8 o bs⟩ = .ok (bs, ⟨o + (layout 0 8 o bs).length, []⟩) := by
  have hconsumed {b : Bytes} (hb : whole (fieldStruct bigEndian) b = some ()) :
      whole (consumed (fieldStruct bigEndian)) b = some b := by
    obtain ⟨c, hread, hend⟩ := whole_eq_some_iff.mp hb
    obtain ⟨used, hused, hoffset, -⟩ := local_fieldStruct bigEndian _ _ _ hread
    rw [hend, List.append_nil] at hused
    obtain rfl : b = used := hused
    have htake : b.take (c.offset - 0) = b := List.take_of_length_le (by rw [hoffset]; exact Nat.le_of_eq (Nat.zero_add _).symm)
    refine whole_eq_some_iff.mpr ⟨c, ?_, hend⟩
    rw [consumed, hread]
    exact congrArg (fun d => Except.ok (d, c)) htake
  have hempty (s : List Bytes) : whole (consumed (fieldStruct bigEndian)) [] = none := by
    cases hnil : whole (consumed (fieldStruct bigEndian)) [] with
    | none => rfl
    | some r =>
      obtain ⟨c, hread, -⟩ := whole_eq_some_iff.mp hnil
      rw [consumed] at hread
      split at hread
      · next u c' hstruct =>
        obtain ⟨code, c₁, hcode, -⟩ := bind_eq_ok_iff.mp hstruct
        cases (cDvarReadU8_eq_ok_iff.mp hcode).1
      · cases hread
  have helements (o : ℕ) (s : List Bytes) : elements (fun _ : List Bytes => consumed (fieldStruct bigEndian))
      (fun fields field _ => fields ++ [field]) 8 o s bs = some (s ++ bs) := by
    induction bs generalizing o s with
    | nil => rw [elements, List.append_nil]
    | cons b bs ih =>
      rw [elements, hconsumed (h b List.mem_cons_self)]
      simp only [ih (fun x hx => h x (List.mem_cons_of_mem b hx)), List.append_assoc, List.singleton_append]
  exact (whileMore_element_eq_ok_iff (fun _ : List Bytes => consumed (fieldStruct bigEndian))
    (fun fields field _ => fields ++ [field]) (by decide) hempty
    fun _ => (local_fieldStruct bigEndian).consumed).mpr ⟨bs, rfl, helements o [], rfl⟩

/-- A sender behind an array of fields without one is noted. -/
theorem parseFields_concat_sender {o : ℕ} {bs : List Bytes} {g : Fields} {p : Option ℕ} {sender : Bytes}
    (h : parseFields bigEndian nFds o ⟨f, none⟩ bs = some ⟨g, p⟩) (hno : g.NoSender)
    (hlength : sender.length < 2 ^ 32) (hstring : cDvarIsString sender = true) (hname : dbusValidateName sender = true) :
    ∃ s, parseFields bigEndian nFds o ⟨f, none⟩ (bs ++ [senderStruct bigEndian sender]) = some s ∧
      s.fields = g.withSender (some sender) := by
  have hwhole : whole (messageReadField bigEndian nFds g) (senderStruct bigEndian sender) =
      some (dbusMessageFieldSender, g.withSender (some sender)) :=
    whole_senderField_iff.mpr ⟨hno.available, sender, rfl, hlength, hstring, hname, rfl⟩
  have happend := elements_append (fun s : HeaderParse => messageReadField bigEndian nFds s.fields) HeaderParse.next
    (0 : UInt8) (k := 8) (by decide) o ⟨f, none⟩ bs [senderStruct bigEndian sender]
  have hfirst : elements (fun s : HeaderParse => messageReadField bigEndian nFds s.fields) HeaderParse.next 8 o
      ⟨f, none⟩ bs = some ⟨g, p⟩ := h
  refine ⟨HeaderParse.next ⟨g, p⟩ (dbusMessageFieldSender, g.withSender (some sender))
    (align 8 (o + (layout (0 : UInt8) 8 o bs).length) + (senderStruct bigEndian sender).length), ?_, rfl⟩
  rw [parseFields, happend, hfirst]
  exact parseFields_cons hwhole _ p []

end Wire

end DbusBroker
