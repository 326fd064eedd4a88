import DbusBroker.Dbus.Framing
import DbusBroker.Dbus.SenderField

/-!
# Accepted messages

A new message is the fixed header, the header fields, the gap behind them and the body. It is
accepted if the fields are an array of `(yv)` that the loop reads, the gap is blank and the body
fits its signature.
-/

namespace DbusBroker

namespace Wire

open AlignedReader

/-- A message as it is received: the fixed header, and the rest that it declares. -/
structure Received (m : Message) (header payload : Bytes) (fds : Option (List ℕ)) : Prop where
  length_header : header.length = messageHeaderSize
  created : ∃ m₀, messageNewIncoming header = .ok m₀ ∧ header.length + payload.length = m₀.nData ∧ m = m₀.fill payload fds

/-- The parts of a message that was not parsed yet. -/
structure Framed (m : Message) (fixed fields blank body : Bytes) : Prop where
  message : m = { messageOf m.bigEndian (fixed ++ (fields ++ (blank ++ body))) (messageHeaderSize + fields.length)
    body.length with fds := m.fds }
  length_fixed : fixed.length = messageHeaderSize
  endian : fixed.head? = some (byte (if m.bigEndian then 'B' else 'l'))
  nFields : headerNFields m.bigEndian fixed = fields.length
  nBody : headerNBody m.bigEndian fixed = body.length
  length_blank : blank.length = gap 8 (messageHeaderSize + fields.length)

/-- What the fixed header says. -/
def fixedHeader (bigEndian : Bool) (fixed : Bytes) : FixedHeader :=
  ⟨fixed.getD 1 0, fixed.getD 2 0, fixed.getD 3 0, uint32OfBytes bigEndian ((fixed.drop 8).take 4),
    headerNFields bigEndian fixed⟩

/-- Four bytes are read as a number. -/
theorem cDvarReadU32_append {bigEndian : Bool} {o : ℕ} (ho : 4 ∣ o) {d : Bytes} (hd : d.length = 4) (rest : Bytes) :
    cDvarReadU32 bigEndian ⟨o, d ++ rest⟩ = .ok (uint32OfBytes bigEndian d, ⟨o + 4, rest⟩) := by
  obtain ⟨hlt, heq⟩ := (uint32OfBytes_eq_iff bigEndian d _).mp ⟨hd, rfl⟩
  exact (cDvarReadU32_eq_ok_iff ho).mpr ⟨hlt, congrArg (· ++ rest) heq, rfl⟩

theorem cDvarReadU8_cons (o : ℕ) (b : UInt8) (rest : Bytes) :
    cDvarReadU8 ⟨o, b :: rest⟩ = .ok (b, ⟨o + 1, rest⟩) := cDvarReadU8_eq_ok_iff.mpr ⟨rfl, rfl⟩

/-- The fixed part of the header is read from sixteen bytes. -/
theorem messageReadFixed_append (bigEndian : Bool) {fixed : Bytes} (h : fixed.length = messageHeaderSize) (rest : Bytes) :
    messageReadFixed bigEndian ⟨0, fixed ++ rest⟩ = .ok (fixedHeader bigEndian fixed, ⟨messageHeaderSize, rest⟩) := by
  match fixed, h with
  | [b₀, b₁, b₂, b₃, b₄, b₅, b₆, b₇, b₈, b₉, b₁₀, b₁₁, b₁₂, b₁₃, b₁₄, b₁₅], _ =>
    have hstart : cDvarReadData 3 0 ⟨0, [b₀, b₁, b₂, b₃, b₄, b₅, b₆, b₇, b₈, b₉, b₁₀, b₁₁, b₁₂, b₁₃, b₁₄, b₁₅] ++ rest⟩ =
        .ok ([], ⟨0, b₀ :: b₁ :: b₂ :: b₃ ::
          ([b₄, b₅, b₆, b₇] ++ ([b₈, b₉, b₁₀, b₁₁] ++ ([b₁₂, b₁₃, b₁₄, b₁₅] ++ rest)))⟩) :=
      (cDvarReadData_eq_ok_iff (Nat.dvd_zero _)).mpr ⟨rfl, rfl, rfl⟩
    have hend : cDvarReadData 3 0 ⟨16, rest⟩ = .ok ([], ⟨16, rest⟩) :=
      (cDvarReadData_eq_ok_iff (by decide : 2 ^ 3 ∣ 16)).mpr ⟨rfl, rfl, rfl⟩
    rw [messageReadFixed, bind_of_ok (dvar_eq_ok_iff.mpr hstart), bind_of_ok (dvar_eq_ok_iff.mpr (cDvarReadU8_cons 0 _ _)),
      bind_of_ok (dvar_eq_ok_iff.mpr (cDvarReadU8_cons 1 _ _)), bind_of_ok (dvar_eq_ok_iff.mpr (cDvarReadU8_cons 2 _ _)),
      bind_of_ok (dvar_eq_ok_iff.mpr (cDvarReadU8_cons 3 _ _)),
      bind_of_ok (dvar_eq_ok_iff.mpr (cDvarReadU32_append (by decide : 4 ∣ 4) rfl _)),
      bind_of_ok (dvar_eq_ok_iff.mpr (cDvarReadU32_append (by decide : 4 ∣ 8) rfl _)),
      bind_of_ok (dvar_eq_ok_iff.mpr (cDvarReadU32_append (by decide : 4 ∣ 12) rfl _)),
      bind_of_ok (dvar_eq_ok_iff.mpr hend)]
    rfl

/-- The fixed header and the fields that were seen are those of a valid message. -/
def ValidHeader (fixed : FixedHeader) (f : Fields) : Prop :=
  (fixed.type ≠ dbusMessageTypeInvalid ∧ fixed.version = 1 ∧ fixed.serial ≠ 0) ∧
    f.available &&& mandatoryFields fixed.type = mandatoryFields fixed.type

/-- No field is empty. -/
theorem whole_messageReadField_nil (bigEndian : Bool) (nFds : ℕ) (f : Fields) :
    whole (messageReadField bigEndian nFds f) [] = none := by
  cases h : whole (messageReadField bigEndian nFds f) [] with
  | none => rfl
  | some r =>
    obtain ⟨c, hread, -⟩ := whole_eq_some_iff.mp h
    obtain ⟨rest, hrest, -⟩ := messageReadField_eq_ok_iff.mp hread
    cases hrest

/-- The loop over the header fields reads an array of them. -/
theorem messageReadFields_eq_ok_iff {bigEndian : Bool} {nFds o : ℕ} {fields : Bytes} {s : HeaderParse}
    {c : Cursor UInt8} :
    messageReadFields bigEndian nFds ⟨o, fields⟩ = .ok (s, c) ↔
      ∃ bs, fields = layout 0 8 o bs ∧ parseFields bigEndian nFds o ⟨.init, none⟩ bs = some s ∧
        c = ⟨o + fields.length, []⟩ :=
  whileMore_element_eq_ok_iff (fun s : HeaderParse => messageReadField bigEndian nFds s.fields) HeaderParse.next
    (by decide) (fun s => whole_messageReadField_nil bigEndian nFds s.fields)
    fun s => local_messageReadField bigEndian nFds s.fields

/-- A header is accepted if it is valid and its fields are an array. -/
theorem messageParseHeader_eq_ok_iff {bigEndian : Bool} {nFds : ℕ} {fixed fields : Bytes} {fx : FixedHeader}
    {s : HeaderParse} (hfixed : fixed.length = messageHeaderSize) (hn : headerNFields bigEndian fixed = fields.length) :
    messageParseHeader bigEndian nFds (fixed ++ fields) = .ok (fx, s) ↔
      fx = fixedHeader bigEndian fixed ∧ ValidHeader fx s.fields ∧
        ∃ bs, fields = layout 0 8 messageHeaderSize bs ∧
          parseFields bigEndian nFds messageHeaderSize ⟨.init, none⟩ bs = some s := by
  have hread := messageReadFixed_append bigEndian hfixed fields
  have hnFields : (fixedHeader bigEndian fixed).nFields = fields.length := hn
  constructor
  · intro h
    rw [messageParseHeader] at h
    split at h
    · next parse c hheader =>
      split at h
      · cases h
        rw [messageReadHeader, bind_of_ok hread] at hheader
        obtain ⟨u, c₁, hcheck, hheader⟩ := bind_eq_ok_iff.mp hheader
        obtain ⟨hvalid, rfl⟩ := check_eq_ok_iff.mp hcheck
        obtain ⟨s₁, c₂, hwithin, hheader⟩ := bind_eq_ok_iff.mp hheader
        obtain ⟨u', c₃, hmandatory, hpure⟩ := bind_eq_ok_iff.mp hheader
        obtain ⟨hmask, rfl⟩ := check_eq_ok_iff.mp hmandatory
        obtain ⟨hresult, -⟩ := pure_eq_ok_iff.mp hpure
        obtain ⟨rfl, rfl⟩ := Prod.mk.inj hresult
        rw [hnFields] at hwithin
        obtain ⟨c₄, hfields, -, -⟩ := within_length_eq_ok_iff.mp hwithin
        obtain ⟨bs, hlayout, hparse, -⟩ := messageReadFields_eq_ok_iff.mp hfields
        refine ⟨rfl, ⟨?_, of_decide_eq_true hmask⟩, bs, hlayout, hparse⟩
        simpa only [Bool.and_eq_true, decide_eq_true_eq, and_assoc] using hvalid
      · cases h
    · cases h
  · rintro ⟨rfl, ⟨hvalid, hmask⟩, bs, hlayout, hparse⟩
    have hcheck : check MessageError.invalidHeader ((fixedHeader bigEndian fixed).type ≠ dbusMessageTypeInvalid &&
        (fixedHeader bigEndian fixed).version = 1 && (fixedHeader bigEndian fixed).serial ≠ 0)
          ⟨messageHeaderSize, fields⟩ = .ok ((), ⟨messageHeaderSize, fields⟩) :=
      check_eq_ok_iff.mpr ⟨by simpa only [Bool.and_eq_true, decide_eq_true_eq, and_assoc] using hvalid, rfl⟩
    have hwithin : within MessageError.invalidHeader MessageError.invalidHeader fields.length
        (messageReadFields bigEndian nFds) ⟨messageHeaderSize, fields⟩ =
          .ok (s, ⟨messageHeaderSize + fields.length, []⟩) :=
      within_length_eq_ok_iff.mpr ⟨_, messageReadFields_eq_ok_iff.mpr ⟨bs, hlayout, hparse, rfl⟩, rfl, rfl⟩
    have hmandatory (c : Cursor UInt8) : check MessageError.invalidHeader
        (s.fields.available &&& mandatoryFields (fixedHeader bigEndian fixed).type =
          mandatoryFields (fixedHeader bigEndian fixed).type) c = .ok ((), c) :=
      check_eq_ok_iff.mpr ⟨decide_eq_true hmask, rfl⟩
    have hheader : messageReadHeader bigEndian nFds ⟨0, fixed ++ fields⟩ =
        .ok ((fixedHeader bigEndian fixed, s), ⟨messageHeaderSize + fields.length, []⟩) := by
      rw [messageReadHeader, bind_of_ok hread, bind_of_ok hcheck, hnFields, bind_of_ok hwithin, bind_of_ok (hmandatory _)]
      rfl
    rw [messageParseHeader, hheader]
    rfl

section framed

variable {m m' : Message} {fixed fields blank body : Bytes}

/-- The sizes of the parts of a message. -/
theorem Framed.length_header (h : Framed m fixed fields blank body) :
    (fixed ++ (fields ++ blank)).length = alignTo8 (messageHeaderSize + fields.length) := by
  have hgap := add_gap (k := 8) (by decide) (messageHeaderSize + fields.length)
  have hfixed := h.length_fixed
  have hblank := h.length_blank
  change _ = align 8 (messageHeaderSize + fields.length)
  simp only [List.length_append]
  omega

theorem Framed.take_header (h : Framed m fixed fields blank body) : m.data.take m.nHeader = fixed ++ fields := by
  have hlen : (fixed ++ fields).length = messageHeaderSize + fields.length := by
    rw [List.length_append, h.length_fixed]
  rw [h.message]
  change (fixed ++ (fields ++ (blank ++ body))).take (messageHeaderSize + fields.length) = _
  rw [← List.append_assoc, List.take_left' hlen]

theorem Framed.take_blank (h : Framed m fixed fields blank body) :
    (m.data.drop m.nHeader).take (m.body - m.nHeader) = blank := by
  have hlen : (fixed ++ fields).length = messageHeaderSize + fields.length := by
    rw [List.length_append, h.length_fixed]
  rw [h.message]
  change ((fixed ++ (fields ++ (blank ++ body))).drop (messageHeaderSize + fields.length)).take
    (gap 8 (messageHeaderSize + fields.length)) = _
  rw [← List.append_assoc, List.drop_left' hlen, List.take_left' h.length_blank]

theorem Framed.take_body (h : Framed m fixed fields blank body) : (m.data.drop m.body).take m.nBody = body := by
  rw [h.message]
  change ((fixed ++ (fields ++ (blank ++ body))).drop (alignTo8 (messageHeaderSize + fields.length))).take body.length = _
  rw [← List.append_assoc, ← List.append_assoc, List.append_assoc fixed, List.drop_left' h.length_header, List.take_length]

/-- What the parser makes of an accepted message. -/
def parsedMessage (m : Message) (fixed : FixedHeader) (s : HeaderParse) (args : List MessageArg) : Message :=
  { m with
    parsed := true
    fds := m.fds.map (·.take s.fields.unixFds)
    originalSender := s.originalSender
    metadata :=
      ⟨fixed.type, fixed.flags, fixed.version, fixed.serial, m.metadata.senderId,
        { s.fields with signature := some (s.fields.signature.getD []) }, args⟩ }

/-- A message is accepted as a valid header with an array of fields, a blank gap and a body. -/
theorem Framed.messageParseMetadata_eq_ok_iff (h : Framed m fixed fields blank body) :
    messageParseMetadata m = .ok m' ↔
      ∃ bs s args, fields = layout 0 8 messageHeaderSize bs ∧
        parseFields m.bigEndian (fdlistCount m.fds) messageHeaderSize ⟨.init, none⟩ bs = some s ∧
          ValidHeader (fixedHeader m.bigEndian fixed) s.fields ∧
            blank = List.replicate (gap 8 (messageHeaderSize + fields.length)) 0 ∧
              messageParseBody m.bigEndian (s.fields.signature.getD []) body = .ok args ∧
                m' = parsedMessage m (fixedHeader m.bigEndian fixed) s args := by
  have hparsed : m.parsed = false := by rw [h.message]; rfl
  have hblank : (blank.any (· ≠ 0) = true) ↔ ¬ blank = List.replicate (gap 8 (messageHeaderSize + fields.length)) 0 := by
    rw [← h.length_blank, List.eq_replicate_length]
    simp
  rw [messageParseMetadata, if_neg (by rw [hparsed]; decide), h.take_header]
  constructor
  · intro hok
    cases hheader : messageParseHeader m.bigEndian (fdlistCount m.fds) (fixed ++ fields) with
    | error e => simp [hheader] at hok
    | ok parse =>
      obtain ⟨fx, s⟩ := parse
      obtain ⟨rfl, hvalid, bs, hlayout, hparse⟩ := (messageParseHeader_eq_ok_iff h.length_fixed h.nFields).mp hheader
      simp only [hheader, h.take_blank, h.take_body] at hok
      split at hok
      · cases hok
      · next hgap =>
        split at hok
        · cases hok
        · next args hbody =>
          cases hok
          exact ⟨bs, s, args, hlayout, hparse, hvalid, not_not.mp (mt hblank.mpr hgap), hbody, rfl⟩
  · rintro ⟨bs, s, args, hlayout, hparse, hvalid, hgap, hbody, rfl⟩
    have hheader : messageParseHeader m.bigEndian (fdlistCount m.fds) (fixed ++ fields) =
        .ok (fixedHeader m.bigEndian fixed, s) :=
      (messageParseHeader_eq_ok_iff h.length_fixed h.nFields).mpr ⟨rfl, hvalid, bs, hlayout, hparse⟩
    have hnot : ¬ (blank.any (· ≠ 0) = true) := fun hany => hblank.mp hany hgap
    simp only [hheader, h.take_blank, h.take_body, if_neg hnot, hbody]
    rfl

/-- A buffer of the right size is cut into the parts of a message. -/
theorem framed_messageOf {bigEndian : Bool} {data : Bytes} {nBody : ℕ} (fds : Option (List ℕ))
    (hlen : data.length = alignTo8 (messageHeaderSize + headerNFields bigEndian data) + nBody)
    (hendian : data.head? = some (byte (if bigEndian then 'B' else 'l')))
    (hnBody : headerNBody bigEndian data = nBody) :
    ∃ fixed fields blank body, data = fixed ++ (fields ++ (blank ++ body)) ∧
      Framed { messageOf bigEndian data (messageHeaderSize + headerNFields bigEndian data) nBody with fds := fds }
        fixed fields blank body := by
  obtain ⟨n, hn⟩ : ∃ n, headerNFields bigEndian data = n := ⟨_, rfl⟩
  have hgap : 16 + n + gap 8 (16 + n) = alignTo8 (16 + n) := add_gap (by decide) _
  rw [hn] at hlen
  change data.length = alignTo8 (16 + n) + nBody at hlen
  have hfixed : (data.take 16).length = 16 := List.length_take_of_le (by omega)
  have hfields : ((data.drop 16).take n).length = n :=
    List.length_take_of_le (by rw [List.length_drop]; omega)
  have hblank : (((data.drop 16).drop n).take (gap 8 (16 + n))).length = gap 8 (16 + n) :=
    List.length_take_of_le (by simp only [List.length_drop]; omega)
  have hdata : data = data.take 16 ++ ((data.drop 16).take n ++ (((data.drop 16).drop n).take (gap 8 (16 + n)) ++
      ((data.drop 16).drop n).drop (gap 8 (16 + n)))) := by
    rw [List.take_append_drop, List.take_append_drop, List.take_append_drop]
  have hbody : (((data.drop 16).drop n).drop (gap 8 (16 + n))).length = nBody := by
    simp only [List.length_drop]
    omega
  have hslice (i : ℕ) (hi : i + 4 ≤ 16) : ((data.take 16).drop i).take 4 = (data.drop i).take 4 := by
    rw [List.drop_take, List.take_take, Nat.min_eq_left (by omega)]
  refine ⟨_, _, _, _, hdata, ?_, hfixed, ?_, ?_, ?_, ?_⟩
  · rw [← hdata, hbody, hfields, hn]
    rfl
  · cases data with
    | nil => exact absurd hendian (by simp)
    | cons b rest => exact hendian
  · change uint32OfBytes bigEndian (((data.take 16).drop 12).take 4) = _
    rw [hslice 12 (by decide), hfields]
    exact hn
  · change uint32OfBytes bigEndian (((data.take 16).drop 4).take 4) = _
    rw [hslice 4 (by decide), hbody]
    exact hnBody
  · rw [hfields]
    exact hblank

/-- What `message_new_incoming` makes of a header. -/
theorem messageNewIncoming_eq_ok_iff {header : Bytes} :
    messageNewIncoming header = .ok m ↔
      ∃ bigEndian, header.head? = some (byte (if bigEndian then 'B' else 'l')) ∧
        alignTo8 (messageHeaderSize + headerNFields bigEndian header) + headerNBody bigEndian header ≤ messageSizeMax ∧
          m = messageOf bigEndian header (messageHeaderSize + headerNFields bigEndian header)
            (headerNBody bigEndian header) := by
  have has (bigEndian : Bool) : messageNewIncomingAs bigEndian header = .ok m ↔
      alignTo8 (messageHeaderSize + headerNFields bigEndian header) + headerNBody bigEndian header ≤ messageSizeMax ∧
        m = messageOf bigEndian header (messageHeaderSize + headerNFields bigEndian header)
          (headerNBody bigEndian header) := by
    rw [messageNewIncomingAs]
    by_cases hsize : messageSizeMax <
        alignTo8 (messageHeaderSize + headerNFields bigEndian header) + headerNBody bigEndian header
    · simp only [if_pos hsize, Nat.not_le.mpr hsize, false_and, reduceCtorEq]
    · simp only [if_neg hsize, Nat.le_of_not_lt hsize, true_and, Except.ok.injEq, eq_comm]
  rw [messageNewIncoming]
  by_cases hl : header.head? = some (byte 'l')
  · rw [if_pos hl, has]
    refine ⟨fun h => ⟨false, hl, h⟩, fun ⟨bigEndian, hendian, h⟩ => ?_⟩
    cases bigEndian with
    | false => exact h
    | true => exact absurd (hl.symm.trans hendian) (by decide)
  · rw [if_neg hl]
    by_cases hB : header.head? = some (byte 'B')
    · rw [if_pos hB, has]
      refine ⟨fun h => ⟨true, hB, h⟩, fun ⟨bigEndian, hendian, h⟩ => ?_⟩
      cases bigEndian with
      | false => exact absurd hendian hl
      | true => exact h
    · rw [if_neg hB]
      refine ⟨fun h => (nomatch h), fun ⟨bigEndian, hendian, _⟩ => ?_⟩
      cases bigEndian with
      | false => exact absurd hendian hl
      | true => exact absurd hendian hB

/-- The socket sets aside what the message that `message_new_incoming` makes of the header says. -/
theorem nData_messageNewIncoming (header : Bytes) :
    (messageNewIncoming header).toOption.map Message.nData = DbusBroker.messageNewIncoming header := by
  have has (bigEndian : Bool) : (messageNewIncomingAs bigEndian header).toOption.map Message.nData =
      if messageSizeMax < alignTo8 (messageHeaderSize + headerNFields bigEndian header) + headerNBody bigEndian header then none
      else some (alignTo8 (messageHeaderSize + headerNFields bigEndian header) + headerNBody bigEndian header) := by
    rw [messageNewIncomingAs]
    split <;> rfl
  have hlittle : (header.head? == some 0x6c) = true ↔ header.head? = some (byte 'l') := beq_iff_eq
  have hbig : (header.head? == some 0x42) = true ↔ header.head? = some (byte 'B') := beq_iff_eq
  rw [messageNewIncoming, DbusBroker.messageNewIncoming]
  by_cases hl : header.head? = some (byte 'l')
  · rw [if_pos hl, has, if_pos (hlittle.mpr hl)]
    rfl
  · rw [if_neg hl, if_neg fun h => hl (hlittle.mp h)]
    by_cases hB : header.head? = some (byte 'B')
    · rw [if_pos hB, has, if_pos (hbig.mpr hB)]
      rfl
    · rw [if_neg hB, if_neg fun h => hB (hbig.mp h)]
      rfl

/-- A message in the stream is as long as its header says. -/
theorem received_of_nextItem {stream bytes : Bytes} (h : nextItem .messages stream = .item (.message bytes))
    (fds : Option (List ℕ)) :
    ∃ m, Received m (bytes.take messageHeaderSize) (bytes.drop messageHeaderSize) fds := by
  rw [nextItem] at h
  split at h
  · cases h
  next hheader =>
  cases hsize : DbusBroker.messageNewIncoming (stream.take messageHeaderSize) with
  | none =>
    rw [hsize] at h
    cases h
  | some n =>
    rw [hsize] at h
    dsimp only at h
    split at h
    · cases h
    next hlength =>
    cases h
    have hle : messageHeaderSize ≤ n := messageHeaderSize_le hsize
    have htake : (stream.take n).take messageHeaderSize = stream.take messageHeaderSize := by
      rw [List.take_take, Nat.min_eq_left hle]
    rw [← nData_messageNewIncoming] at hsize
    obtain ⟨m₀, hcreated, hnData⟩ := Option.map_eq_some_iff.mp hsize
    refine ⟨m₀.fill ((stream.take n).drop messageHeaderSize) fds, ?_, m₀, ?_, ?_, rfl⟩
    · rw [htake, List.length_take, Nat.min_eq_left (not_lt.mp hheader)]
    · rw [htake]
      cases hnew : messageNewIncoming (stream.take messageHeaderSize) with
      | error e => rw [hnew] at hcreated; cases hcreated
      | ok m => rw [hnew] at hcreated; rw [Option.some.inj hcreated]
    · rw [← List.length_append, List.take_append_drop, List.length_take, Nat.min_eq_left (not_lt.mp hlength), hnData]

/-- Every message that the socket gets out of a stream was received. -/
theorem received_of_mem_plainParse {auth : Sasl} {mode : Mode} {stream bytes : Bytes}
    (h : Item.message bytes ∈ (plainParse auth mode stream).items) (fds : Option (List ℕ)) :
    ∃ m, Received m (bytes.take messageHeaderSize) (bytes.drop messageHeaderSize) fds := by
  induction mode, stream using plainParse.induct auth with
  | case1 mode stream hnext =>
    rw [plainParse, hnext] at h
    cases h
  | case2 mode stream v hnext =>
    rw [plainParse, hnext] at h
    cases h
  | case3 mode stream item hnext ih =>
    rw [plainParse, hnext] at h
    obtain rfl | h := List.mem_cons.mp h
    · cases mode with
      | lines sofar =>
        rw [nextItem] at hnext
        split at hnext
        · cases hnext
        · split at hnext <;> cases hnext
      | messages => exact received_of_nextItem hnext fds
    · exact ih h

/-- The sizes in the fixed header do not depend on what follows it. -/
theorem header_append {header : Bytes} (h : header.length = messageHeaderSize) (bigEndian : Bool) (payload : Bytes) :
    headerNFields bigEndian (header ++ payload) = headerNFields bigEndian header ∧
      headerNBody bigEndian (header ++ payload) = headerNBody bigEndian header := by
  have hslice (i : ℕ) (hi : i + 4 ≤ 16) : ((header ++ payload).drop i).take 4 = (header.drop i).take 4 := by
    have hsize : header.length = 16 := h
    rw [List.drop_append_of_le_length (by omega), List.take_append_of_le_length (by rw [List.length_drop]; omega)]
  constructor
  · exact congrArg (uint32OfBytes bigEndian) (hslice 12 (by decide))
  · exact congrArg (uint32OfBytes bigEndian) (hslice 4 (by decide))

/-- A received message has the parts of a message. -/
theorem Received.framed {header payload : Bytes} {fds : Option (List ℕ)} (h : Received m header payload fds) :
    m.nData ≤ messageSizeMax ∧ ∃ fixed fields blank body,
      header ++ payload = fixed ++ (fields ++ (blank ++ body)) ∧ Framed m fixed fields blank body := by
  obtain ⟨m₀, hcreated, hcomplete, rfl⟩ := h.created
  obtain ⟨bigEndian, hendian, hsize, rfl⟩ := messageNewIncoming_eq_ok_iff.mp hcreated
  obtain ⟨hnFields, hnBody⟩ := header_append h.length_header bigEndian payload
  have hlen : (header ++ payload).length =
      alignTo8 (messageHeaderSize + headerNFields bigEndian (header ++ payload)) + headerNBody bigEndian header := by
    rw [hnFields, List.length_append]
    exact hcomplete
  have hhead : (header ++ payload).head? = some (byte (if bigEndian then 'B' else 'l')) := by
    cases header with
    | nil => exact absurd h.length_header (by decide)
    | cons b rest => exact hendian
  obtain ⟨fixed, fields, blank, body, hdata, hframed⟩ := framed_messageOf fds hlen hhead hnBody
  refine ⟨hsize, fixed, fields, blank, body, hdata, ?_⟩
  rw [hnFields] at hframed
  exact hframed

end framed

end Wire

end DbusBroker
